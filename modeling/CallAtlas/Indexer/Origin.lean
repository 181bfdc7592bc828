import CallAtlas.Index.Basic

/-! # Where the symbols of an index come from

Of equal symbols an index keeps the one that it got first. That one may have been loaded from a
document, and then it holds the type that the library gave it (`Library.typeOf`). It stays a loaded
one until it is forgotten. A linked index also notes the owner of a place, and an owner that was
loaded is still a loaded symbol when the search for a definition brings it back. -/

namespace CallAtlas

/-- What was loaded from a document. -/
structure Origin where
  /-- The symbols of the index that were loaded. -/
  symbols : List Symbol
  /-- The places that are noted with a loaded owner. -/
  places : List Location
  deriving DecidableEq, Repr

namespace Origin

/-- Nothing was loaded. -/
def fresh : Origin := ⟨[], []⟩

instance : Inhabited Origin := ⟨fresh⟩

/-- The places whose owner is one of some symbols. -/
def placesOf (symbols : List Symbol) : Index → List Location
  | .listed _ => []
  | .linked ix => (ix.owners.entries.filter fun e => symbols.contains e.2).map Prod.fst

/-- The places are noted with the owners that an index has for them now. -/
def reown (o : Origin) (ix : Index) : Origin := { o with places := placesOf o.symbols ix }

/-- All of an index was loaded. -/
def ofIndex (ix : Index) : Origin := reown ⟨ix.symbols, []⟩ ix

/-- Some symbols were forgotten. -/
def forget (o : Origin) (gone : Symbol → Bool) : Origin :=
  { o with symbols := o.symbols.filter fun s => !gone s }

/-- Some places were noted with owners that were not loaded. -/
def own (o : Origin) (places : List Location) : Origin :=
  { o with places := o.places.filter fun l => !places.contains l }

/-- A symbol comes back as the owner of a place. -/
def restore (o : Origin) (s : Symbol) (l : Location) : Origin :=
  if o.places.contains l then { o with symbols := addIfAbsent o.symbols s } else o

end Origin

end CallAtlas
