import CallAtlas.Index.Linked
import CallAtlas.Index.Listed

/-! # Indexes of either kind -/

namespace CallAtlas

/-- The two kinds of index. -/
inductive IndexKind where
  | listed
  | linked
  deriving DecidableEq, Repr

/-- An index of either kind. -/
inductive Index where
  | listed (ix : Listed)
  | linked (ix : Linked)
  deriving DecidableEq, Repr

namespace Index

/-- The empty index of a kind. -/
def empty : IndexKind → Index
  | .listed => .listed .empty
  | .linked => .linked .empty

def kind : Index → IndexKind
  | .listed _ => .listed
  | .linked _ => .linked

instance : Inhabited Index := ⟨.listed .empty⟩

/-- The symbols with what is known about them, oldest first. -/
def items : Index → List (Symbol × Info)
  | .listed ix => ix.items
  | .linked ix => ix.items

/-- The symbols, oldest first. -/
def symbols (ix : Index) : List Symbol := ix.items.map Prod.fst

def size (ix : Index) : Nat := ix.items.length

def info? : Index → Symbol → Option Info
  | .listed ix => ix.info?
  | .linked ix => ix.info?

def contains (ix : Index) (s : Symbol) : Bool := (ix.info? s).isSome

/-- What is known about a symbol that has to be there. -/
def info (ix : Index) (s : Symbol) : Except IndexError Info :=
  match ix.info? s with
  | some i => .ok i
  | none => .error (.missing s)

def definitions : Index → Symbol → List Definition
  | .listed ix => ix.definitions
  | .linked ix => ix.definitions

def references : Index → Symbol → List Reference
  | .listed ix => ix.references
  | .linked ix => ix.references

def addDefinition : Index → Symbol → Definition → Index
  | .listed ix, s, d => .listed (ix.addDefinition s d)
  | .linked ix, s, d => .linked (ix.addDefinition s d)

def addReference : Index → Symbol → Reference → Index
  | .listed ix, s, r => .listed (ix.addReference s r)
  | .linked ix, s, r => .linked (ix.addReference s r)

def set : Index → Symbol → Info → Index
  | .listed ix, s, i => .listed (ix.set s i)
  | .linked ix, s, i => .linked (ix.set s i)

/-- Storing something that is no info fails. A linked index has forgotten the symbol by then. -/
def setForeign : Index → Symbol → Index × IndexError
  | .listed ix, _ => (.listed ix, .notAnInfo)
  | .linked ix, s => (.linked (ix.drop s), .noDefinitions)

def delete : Index → Symbol → Except IndexError Index
  | .listed ix, s => (ix.delete s).map .listed
  | .linked ix, s => (ix.delete s).map .linked

def update : Index → OrderedMap Symbol Info → Index
  | .listed ix, more => .listed (ix.update more)
  | .linked ix, more => .linked (ix.update more)

def snapshot : Index → Snapshot
  | .listed ix => ix.snapshot
  | .linked ix => ix.snapshot

def load : Index → Snapshot → Except IndexError Index
  | .listed ix, data => (ix.load data).map .listed
  | .linked ix, data => .ok (.linked (ix.load data))

def answer [Library] : Index → Query → Except QueryError (List Answer)
  | .listed ix => ix.answer
  | .linked ix => ix.answer

/-- The definition at a place, with the index after the search. -/
def find : Index → Location → Index × Option (Symbol × Definition)
  | .listed ix, l => (.listed ix, ix.find? l)
  | .linked ix, l => ((ix.find l).map .linked id)

/-- The symbol that is noted as the owner of a place and has no definition there. -/
def staleOwner? : Index → Location → Option Symbol
  | .listed _, _ => none
  | .linked ix, l => ix.staleOwner? l

/-- Sets the source text of the definition that a symbol has at a place. -/
def setSource : Index → Symbol → Location → Text → Index
  | .listed ix, s, l, text => .listed (ix.setSource s l text)
  | .linked ix, s, l, text => .linked (ix.setSource s l text)

/-- The first definition that a symbol has at a place. -/
def definitionAt? (ix : Index) (s : Symbol) (l : Location) : Option Definition :=
  (ix.definitions s).find? fun d => decide (d.location = l)

/-- The printed form. -/
def toText (ix : Index) : Text :=
  let name := match ix with
    | .listed _ => "SimpleIndex"
    | .linked _ => "CrossRefIndex"
  name ++ "(" ++ Text.ofNat ix.size ++ " items)"

end Index

end CallAtlas
