import CallAtlas.Index.Error
import CallAtlas.OrderedMap
import CallAtlas.Query

/-! # The linked index

Each symbol has one definition and one reference for a place. A call is recorded at both ends: in
the definition that makes it and in the reference that is made. A second table tells the symbol
that is defined at a place. -/

namespace CallAtlas

/-- What is known about one symbol, by place. -/
structure Card where
  definitions : OrderedMap Location Definition
  references : OrderedMap Location Reference
  deriving DecidableEq, Repr

namespace Card

def empty : Card := ⟨.empty, .empty⟩

instance : Inhabited Card := ⟨empty⟩

/-- Merges a definition into the one at its place. -/
def addDefinition (c : Card) (d : Definition) : Card :=
  { c with definitions := c.definitions.modify d.location (.bare d.location) (·.absorb d) }

/-- Merges a reference into the one at its place. -/
def addReference (c : Card) (r : Reference) : Card :=
  { c with references := c.references.modify r.location (.bare r.location) (·.absorb r) }

/-- A card as lists. -/
def toInfo (c : Card) : Info := ⟨c.definitions.values, c.references.values⟩

/-- A card from lists; of two records of one place the later one is kept. -/
def ofInfo (i : Info) : Card :=
  ⟨i.definitions.foldl (fun m d => m.insert d.location d) .empty,
   i.references.foldl (fun m r => m.insert r.location r) .empty⟩

/-- Merges another card, references first. -/
def absorb (c other : Card) : Card :=
  other.definitions.values.foldl addDefinition (other.references.values.foldl addReference c)

/-- A number in a field of three places. -/
def padded (n : Nat) : Text :=
  let ds := Text.numeral n
  Text.ofChars (List.replicate (3 - ds.length) ' ' ++ ds)

/-- The printed form of a card. -/
def toText (c : Card) : Text :=
  "Info(count_def=" ++ padded c.definitions.size ++ ", count_ref="
    ++ padded c.references.size ++ ")"

end Card

/-- An index in which every call is visible from both ends. -/
structure Linked where
  cards : OrderedMap Symbol Card
  /-- The symbol that is defined at a place. -/
  owners : OrderedMap Location Symbol
  deriving DecidableEq, Repr

namespace Linked

/-- The name under which snapshots of linked indexes are known. -/
def kindName : Text := "cross_ref_index"

def empty : Linked := ⟨.empty, .empty⟩

instance : Inhabited Linked := ⟨empty⟩

/-- The symbols with what is known about them, oldest first. -/
def items (ix : Linked) : List (Symbol × Info) := ix.cards.entries.map fun e => (e.1, e.2.toInfo)

def info? (ix : Linked) (s : Symbol) : Option Info := (ix.cards.get? s).map Card.toInfo

def definitions (ix : Linked) (s : Symbol) : List Definition :=
  ((ix.info? s).map Info.definitions).getD []

def references (ix : Linked) (s : Symbol) : List Reference :=
  ((ix.info? s).map Info.references).getD []

/-! ## Additions -/

/-- Changes a symbol's card, which is empty if the symbol is new. -/
def onCard (ix : Linked) (s : Symbol) (f : Card → Card) : Linked :=
  { ix with cards := ix.cards.modify s .empty f }

/-- Notes which symbol is defined at a place. -/
def own (ix : Linked) (l : Location) (s : Symbol) : Linked :=
  { ix with owners := ix.owners.insert l s }

/-- Adds a definition; every call in it is also recorded at the symbol that it calls. -/
def addDefinition (ix : Linked) (s : Symbol) (d : Definition) : Linked :=
  d.calls.foldl
    (fun ix call => ix.onCard call.symbol (·.addReference ⟨call.location, [⟨s, d.location⟩]⟩))
    ((ix.onCard s (·.addDefinition d)).own d.location s)

/-- Adds a reference; it is also recorded as a call in every definition that it stands in. -/
def addReference (ix : Linked) (s : Symbol) (r : Reference) : Linked :=
  r.callers.foldl
    (fun ix caller =>
      (ix.onCard caller.symbol
        (·.addDefinition ((Definition.bare caller.location).addCall ⟨s, r.location⟩))).own
        caller.location caller.symbol)
    (ix.onCard s (·.addReference r))

/-! ## Replacing and forgetting -/

/-- Forgets a symbol that may be absent, and that it is defined at its places. -/
def drop (ix : Linked) (s : Symbol) : Linked :=
  match ix.cards.get? s with
  | none => ix
  | some c => ⟨ix.cards.erase s, c.definitions.keys.foldl (fun m l => m.erase l) ix.owners⟩

/-- Replaces what is known about a symbol, which goes to the end of the index. -/
def set (ix : Linked) (s : Symbol) (i : Info) : Linked :=
  let c := Card.ofInfo i
  let ix := ix.drop s
  ⟨ix.cards.insert s c, c.definitions.keys.foldl (fun m l => m.insert l s) ix.owners⟩

/-- Forgets a symbol. -/
def delete (ix : Linked) (s : Symbol) : Except IndexError Linked :=
  if ix.cards.contains s then .ok (ix.drop s) else .error (.missing s)

/-- The table of owners read off the cards; the last symbol defined at a place owns it. -/
def ownersOf (cards : OrderedMap Symbol Card) : OrderedMap Location Symbol :=
  cards.entries.foldl
    (fun m e => e.2.definitions.keys.foldl (fun m l => m.insert l e.1) m) .empty

/-- The index with its table of owners read off its cards. -/
def reown (ix : Linked) : Linked := { ix with owners := ownersOf ix.cards }

/-- Merges what is known about several symbols. -/
def update (ix : Linked) (more : OrderedMap Symbol Info) : Linked :=
  (more.entries.foldl (fun ix e => ix.onCard e.1 (·.absorb (Card.ofInfo e.2))) ix).reown

/-- The contents of the index. -/
def snapshot (ix : Linked) : Snapshot := ⟨kindName, ix.items, none⟩

/-- Takes over a snapshot of any kind, symbol by symbol. -/
def load (ix : Linked) (data : Snapshot) : Linked :=
  (data.entries.foldl (fun ix e => ix.set e.1 e.2) ix).reown

/-! ## Look-ups -/

/-- Answers a question. A full definition comes with all references of its symbol. -/
def answer [Library] (ix : Linked) (q : Query) : Except QueryError (List Answer) :=
  match q.test with
  | .error e => .error e
  | .ok (some test) => .ok (ix.items.filter fun e => test e.1)
  | .ok none => match q with
    | .byKey s => .ok ((ix.info? s).map fun i => (s, i)).toList
    | .fullDefinition s l => match ix.cards.get? s with
      | none => .ok []
      | some c => match c.definitions.get? l with
        | none => .ok []
        | some d => .ok [(s, ⟨[d], c.references.values⟩)]
    | _ => .ok []

/-- The definition that a symbol has at a place. -/
def definitionAt? (ix : Linked) (s : Symbol) (l : Location) : Option Definition :=
  (ix.cards.get? s).bind fun c => c.definitions.get? l

/-- The definition at a place by its owner. If the owner has none there, the table of owners is
read off the cards again and the search is repeated; an owner without a card gets one. -/
def find (ix : Linked) (l : Location) : Linked × Option (Symbol × Definition) :=
  match ix.owners.get? l with
  | none => (ix, none)
  | some s => match ix.definitionAt? s l with
    | some d => (ix, some (s, d))
    | none =>
      let ix := (ix.onCard s id).reown
      (ix, (ix.owners.get? l).bind fun s => (ix.definitionAt? s l).map fun d => (s, d))

/-- The symbol that is noted as the owner of a place and has no definition there. -/
def staleOwner? (ix : Linked) (l : Location) : Option Symbol :=
  (ix.owners.get? l).filter fun s => (ix.definitionAt? s l).isNone

/-- Sets the source text of the definition that a symbol has at a place. -/
def setSource (ix : Linked) (s : Symbol) (l : Location) (text : Text) : Linked :=
  match ix.definitionAt? s l with
  | none => ix
  | some d => ix.onCard s fun c =>
      { c with definitions := c.definitions.insert l { d with source := some text } }

/-! ## Direct access to a card -/

/-- The card of a symbol, made if there is none. -/
def card (ix : Linked) (s : Symbol) : Linked × Card :=
  (ix.onCard s id, (ix.cards.get? s).getD .empty)

/-- The definition of a symbol at a place, made if there is none. -/
def definitionItem (ix : Linked) (s : Symbol) (l : Location) : Linked × Definition :=
  (ix.onCard s fun c => { c with definitions := c.definitions.modify l (.bare l) id },
   (ix.definitionAt? s l).getD (.bare l))

/-- The reference of a symbol at a place, made if there is none. -/
def referenceItem (ix : Linked) (s : Symbol) (l : Location) : Linked × Reference :=
  (ix.onCard s fun c => { c with references := c.references.modify l (.bare l) id },
   ((ix.cards.get? s).bind fun c => c.references.get? l).getD (.bare l))

/-- Puts a definition at a place, which has to be its own; the card is made in either case. -/
def putDefinition (ix : Linked) (s : Symbol) (l : Location) (d : Definition) :
    Linked × Option IndexError :=
  if d.location = l then
    (ix.onCard s fun c => { c with definitions := c.definitions.insert l d }, none)
  else (ix.onCard s id, some .wrongPlace)

/-- Puts a reference at a place, which has to be its own; the card is made in either case. -/
def putReference (ix : Linked) (s : Symbol) (l : Location) (r : Reference) :
    Linked × Option IndexError :=
  if r.location = l then
    (ix.onCard s fun c => { c with references := c.references.insert l r }, none)
  else (ix.onCard s id, some .wrongPlace)

/-- Removes a definition from its card and nothing else. -/
def dropDefinition (ix : Linked) (s : Symbol) (l : Location) : Linked :=
  ix.onCard s fun c => { c with definitions := c.definitions.erase l }

/-- Removes a card and nothing else. -/
def dropCard (ix : Linked) (s : Symbol) : Linked := { ix with cards := ix.cards.erase s }

/-- The printed form with the number of records. -/
def describe (ix : Linked) : Text :=
  let total (f : Card → Nat) : Nat := (ix.cards.values.map f).foldl (· + ·) 0
  "CrossRefIndex(items=" ++ Text.ofNat ix.cards.size ++ ", total_definitions="
    ++ Text.ofNat (total (·.definitions.size)) ++ ", total_references="
    ++ Text.ofNat (total (·.references.size)) ++ ")"

end Linked

end CallAtlas
