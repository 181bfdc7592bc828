import CallAtlas.Definition
import CallAtlas.Json.Basic

/-! # Snapshots

All that an index holds, as plain lists in the index's order. -/

namespace CallAtlas

/-- The definitions and references of one symbol. -/
structure Info where
  definitions : List Definition
  references : List Reference
  deriving DecidableEq, Repr, Inhabited

/-- Nothing known about a symbol. -/
def Info.empty : Info := ⟨[], []⟩

/-- The contents of an index, with the name of the kind of index they come from. -/
structure Snapshot where
  kind : Text
  entries : List (Symbol × Info)
  metadata : Option Json
  deriving Repr

end CallAtlas
