import CallAtlas.Definition

/-! # Refused changes of an index -/

namespace CallAtlas

/-- Why an index refuses a change or a look-up. -/
inductive IndexError where
  /-- The symbol is not in the index. -/
  | missing (symbol : Symbol)
  /-- What should be stored in a listed index is no info. -/
  | notAnInfo
  /-- What should be stored in a linked index has no definitions. -/
  | noDefinitions
  /-- A snapshot of another kind of index. -/
  | wrongKind
  /-- A record is put at a place that is not its own. -/
  | wrongPlace
  deriving DecidableEq, Repr

def IndexError.message : IndexError → Text
  | .missing symbol => symbol.name ++ " not found in index."
  | .notAnInfo => "Value must be an instance of FunctionLikeInfo."
  | .noDefinitions => "no attribute 'definitions'"
  | .wrongKind => "Invalid data type for SimpleIndex."
  | .wrongPlace => "Key does not match the value's location"

end CallAtlas
