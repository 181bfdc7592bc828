import CallAtlas.Index.Basic

/-! # Changes that can fail

A change is made step by step. One that fails leaves the index as its steps have left it until
then. -/

namespace CallAtlas

/-- What an index is given to keep for a symbol. -/
inductive Content where
  | info (i : Info)
  /-- Something that is no info. -/
  | foreign
  deriving DecidableEq, Repr

/-- Changes for the items of a list, one after the other, up to the first that fails. -/
def attemptEach {σ β : Type} (change : σ → β → σ × Option IndexError) :
    List β → σ → σ × Option IndexError
  | [], x => (x, none)
  | b :: bs, x => match change x b with
    | (x, some e) => (x, some e)
    | (x, none) => attemptEach change bs x

namespace Listed

/-- Replaces what is known about a symbol. -/
def attemptSet (ix : Listed) (s : Symbol) : Content → Listed × Option IndexError
  | .info i => (ix.set s i, none)
  | .foreign => (ix, some .notAnInfo)

/-- Forgets a symbol. -/
def attemptDelete (ix : Listed) (s : Symbol) : Listed × Option IndexError :=
  if ix.infos.contains s then (⟨ix.infos.erase s⟩, none) else (ix, some (.missing s))

/-- Takes over a snapshot, which has to come from a listed index. -/
def attemptLoad (ix : Listed) (data : Snapshot) : Listed × Option IndexError :=
  if data.kind = kindName then
    attemptEach (fun ix e => ix.attemptSet e.1 (.info e.2)) data.entries ix
  else (ix, some .wrongKind)

end Listed

namespace Linked

/-- Takes away the owners of a symbol's places. -/
def disown (ix : Linked) (s : Symbol) : Linked :=
  match ix.cards.get? s with
  | none => ix
  | some c => { ix with owners := c.definitions.keys.foldl (fun m l => m.erase l) ix.owners }

/-- Forgets a symbol: its places lose their owners, and then its card is taken away, which has to be
there. -/
def attemptDelete (ix : Linked) (s : Symbol) : Linked × Option IndexError :=
  let ix := ix.disown s
  if ix.cards.contains s then (ix.dropCard s, none) else (ix, some (.missing s))

/-- Replaces what is known about a symbol. A symbol that is there is forgotten before it turns out
whether the new content can be put on a card. -/
def attemptSet (ix : Linked) (s : Symbol) (x : Content) : Linked × Option IndexError :=
  match if ix.cards.contains s then ix.attemptDelete s else (ix, none) with
  | (ix, some e) => (ix, some e)
  | (ix, none) => match x with
    | .foreign => (ix, some .noDefinitions)
    | .info i =>
      let c := Card.ofInfo i
      (c.definitions.keys.foldl (fun ix l => ix.own l s) { ix with cards := ix.cards.insert s c },
        none)

/-- Takes over a snapshot of any kind, symbol by symbol. -/
def attemptLoad (ix : Linked) (data : Snapshot) : Linked × Option IndexError :=
  match attemptEach (fun ix e => ix.attemptSet e.1 (.info e.2)) data.entries ix with
  | (ix, some e) => (ix, some e)
  | (ix, none) => (ix.reown, none)

end Linked

namespace Index

/-- The changes that can fail. -/
inductive Change where
  | set (s : Symbol) (x : Content)
  | delete (s : Symbol)
  | load (data : Snapshot)

/-- The index after a change, and why it fails if it does. -/
def attempt : Index → Change → Index × Option IndexError
  | .listed ix, .set s x => (ix.attemptSet s x).map .listed id
  | .listed ix, .delete s => (ix.attemptDelete s).map .listed id
  | .listed ix, .load data => (ix.attemptLoad data).map .listed id
  | .linked ix, .set s x => (ix.attemptSet s x).map .linked id
  | .linked ix, .delete s => (ix.attemptDelete s).map .linked id
  | .linked ix, .load data => (ix.attemptLoad data).map .linked id

end Index

end CallAtlas
