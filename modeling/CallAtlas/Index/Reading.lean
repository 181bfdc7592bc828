import CallAtlas.Graph.Build

/-! # Reading a linked index through its tables

The tables of a linked index make what they are asked for and do not have: the table of cards makes
an empty card, and a card makes a bare definition. So a reader has to look whether something is
there before it asks for it. -/

namespace CallAtlas.Linked

/-- Something that is read from an index, which may change it. -/
abbrev Reading := StateM Linked

namespace Reading

/-! ## Asking the tables -/

/-- Asks for the card of a symbol, which is made if there is none. -/
def card (s : Symbol) : Reading Card := modifyGet fun ix => (ix.card s).swap

/-- Asks for the definition of a symbol at a place, which is made if there is none. -/
def definitionItem (s : Symbol) (l : Location) : Reading Definition :=
  modifyGet fun ix => (ix.definitionItem s l).swap

/-! ## Readers -/

def size : Reading Nat := return (← get).cards.size

def contains (s : Symbol) : Reading Bool := return (← get).cards.contains s

/-- The symbols, oldest first. -/
def symbols : Reading (List Symbol) := return (← get).cards.keys

/-- The symbols with what is known about them, oldest first. -/
def items : Reading (List (Symbol × Info)) := return (← get).items

def info? (s : Symbol) : Reading (Option Info) := do
  if ← contains s then return some (← card s).toInfo else return none

/-- What is known about a symbol that has to be there. -/
def info (s : Symbol) : Reading (Except IndexError Info) := do
  if ← contains s then return .ok (← card s).toInfo else return .error (.missing s)

def definitions (s : Symbol) : Reading (List Definition) :=
  return ((← info? s).map Info.definitions).getD []

def references (s : Symbol) : Reading (List Reference) :=
  return ((← info? s).map Info.references).getD []

def snapshot : Reading Snapshot := return ⟨kindName, ← items, none⟩

/-- What is known about some symbols. -/
def tell : List Symbol → Reading (List Answer)
  | [] => return []
  | s :: rest => do
    let c ← card s
    return (s, c.toInfo) :: (← tell rest)

/-- One definition of a symbol with all its references. -/
def full (s : Symbol) (l : Location) : Reading (List Answer) := do
  if ← contains s then
    if (← card s).definitions.contains l then
      let d ← definitionItem s l
      return [(s, ⟨[d], (← card s).references.values⟩)]
    else return []
  else return []

/-- Answers a question. -/
def answer [Library] (q : Query) : Reading (Except QueryError (List Answer)) :=
  match q.test with
  | .error e => return .error e
  | .ok (some test) => do return .ok (← tell ((← symbols).filter test))
  | .ok none => match q with
    | .byKey s => return .ok ((← info? s).map fun i => (s, i)).toList
    | .fullDefinition s l => return .ok (← full s l)
    | _ => return .ok []

/-- The owner of a place with its definition there, if it has one. -/
def owned (l : Location) : Option Symbol → Reading (Option (Symbol × Definition))
  | none => return none
  | some s => return ((← card s).definitions.get? l).map fun d => (s, d)

/-- The definition at a place by its owner. If the owner has none there, the table of owners is read
off the cards again and the search is repeated. -/
def find (l : Location) : Reading (Option (Symbol × Definition)) := do
  let owner := (← get).owners.get? l
  let found ← owned l owner
  if owner.isSome && found.isNone then
    modify reown
    owned l ((← get).owners.get? l)
  else return found

/-- Adds the definitions of a called symbol to those that were read before. -/
def remember (known : OrderedMap Symbol (List Definition)) (s : Symbol) :
    Reading (OrderedMap Symbol (List Definition)) := do
  if known.contains s then return known else return known.insert s (← definitions s)

/-- The call graph. The definitions of a symbol are read when it is first called. -/
def callGraph (o : Graph.BuildOptions) : Reading (Except Graph.Error Graph.CallGraph) := do
  let items ← items
  let known ← ((Graph.calls items).map fun c => c.2.symbol).foldlM remember .empty
  return Graph.buildFrom items (fun s => (known.get? s).getD []) o

end Reading

end CallAtlas.Linked
