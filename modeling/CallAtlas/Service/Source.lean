import CallAtlas.Service.Basic

/-! # Source text of files -/

namespace CallAtlas.Service

/-- Fetches with the memory of the service. A failed fetch is an answer, not a failure of the
tool. -/
def fetchWith {α : Type} (f : Files → Fetch.Cache → Fetch.Cache × α) : Tool α := do
  let s ← get
  let (cache, a) := f s.files s.cache
  set { s with cache := cache }
  return a

def fetchText (p : Path) : Tool (Except Fetch.Error Text) :=
  fetchWith fun fs cache => Fetch.text fs cache p

def fetchLines (p : Path) (start stop : Int) : Tool Fetch.Fetched :=
  fetchWith fun fs cache => Fetch.lines fs cache p start stop

def fetchBytes (p : Path) (start stop : Int) : Tool Fetch.Fetched :=
  fetchWith fun fs cache => Fetch.byteRange fs cache p start stop

def fetchProperBytes (p : Path) (start stop : Int) : Tool Fetch.Fetched :=
  fetchWith fun fs cache => Fetch.properByteRange fs cache p start stop

end CallAtlas.Service
