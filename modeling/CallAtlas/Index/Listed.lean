import CallAtlas.Index.Error
import CallAtlas.OrderedMap
import CallAtlas.Query

/-! # The listed index

Each symbol has a list of definitions and a list of references, kept as they came. -/

namespace CallAtlas

/-- An index that keeps every record it is given. -/
structure Listed where
  infos : OrderedMap Symbol Info
  deriving DecidableEq, Repr

namespace Listed

/-- The name under which snapshots of listed indexes are known. -/
def kindName : Text := "simple_index"

def empty : Listed := ⟨.empty⟩

instance : Inhabited Listed := ⟨empty⟩

/-- The symbols with what is known about them, oldest first. -/
def items (ix : Listed) : List (Symbol × Info) := ix.infos.entries

def info? (ix : Listed) (s : Symbol) : Option Info := ix.infos.get? s

def definitions (ix : Listed) (s : Symbol) : List Definition :=
  ((ix.info? s).map Info.definitions).getD []

def references (ix : Listed) (s : Symbol) : List Reference :=
  ((ix.info? s).map Info.references).getD []

/-- Adds a definition at the end of its symbol's list. -/
def addDefinition (ix : Listed) (s : Symbol) (d : Definition) : Listed :=
  ⟨ix.infos.modify s .empty fun i => { i with definitions := i.definitions ++ [d] }⟩

/-- Adds a reference at the end of its symbol's list. -/
def addReference (ix : Listed) (s : Symbol) (r : Reference) : Listed :=
  ⟨ix.infos.modify s .empty fun i => { i with references := i.references ++ [r] }⟩

/-- Replaces what is known about a symbol. -/
def set (ix : Listed) (s : Symbol) (i : Info) : Listed := ⟨ix.infos.insert s i⟩

/-- Forgets a symbol. -/
def delete (ix : Listed) (s : Symbol) : Except IndexError Listed :=
  if ix.infos.contains s then .ok ⟨ix.infos.erase s⟩ else .error (.missing s)

/-- Replaces what is known about several symbols. -/
def update (ix : Listed) (more : OrderedMap Symbol Info) : Listed :=
  more.entries.foldl (fun ix e => ix.set e.1 e.2) ix

/-- The contents of the index. -/
def snapshot (ix : Listed) : Snapshot := ⟨kindName, ix.items, none⟩

/-- Takes over a snapshot, which has to come from a listed index. -/
def load (ix : Listed) (data : Snapshot) : Except IndexError Listed :=
  if data.kind = kindName then .ok (data.entries.foldl (fun ix e => ix.set e.1 e.2) ix)
  else .error .wrongKind

/-- The definitions of an info at a place. -/
def definitionsAt (i : Info) (l : Location) : List Definition :=
  i.definitions.filter fun d => decide (d.location = l)

/-- Sets the source text of the definitions that a symbol has at a place. -/
def setSource (ix : Listed) (s : Symbol) (l : Location) (text : Text) : Listed :=
  match ix.info? s with
  | none => ix
  | some i => ix.set s { i with definitions := i.definitions.map fun d =>
      if d.location = l then { d with source := some text } else d }

/-- Answers a question. A full definition comes with all references of its symbol. -/
def answer [Library] (ix : Listed) (q : Query) : Except QueryError (List Answer) :=
  match q.test with
  | .error e => .error e
  | .ok (some test) => .ok (ix.items.filter fun e => test e.1)
  | .ok none => match q with
    | .byKey s => .ok ((ix.info? s).map fun i => (s, i)).toList
    | .fullDefinition s l => match ix.info? s with
      | none => .ok []
      | some i => match definitionsAt i l with
        | [] => .ok []
        | ds => .ok [(s, ⟨ds, i.references⟩)]
    | _ => .ok []

/-- The first definition at a place, in the order of the index. -/
def find? (ix : Listed) (l : Location) : Option (Symbol × Definition) :=
  ix.items.findSome? fun e =>
    (e.2.definitions.find? fun d => decide (d.location = l)).map fun d => (e.1, d)

end Listed

end CallAtlas
