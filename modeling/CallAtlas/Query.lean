import CallAtlas.Library
import CallAtlas.Snapshot

/-! # Questions to an index -/

namespace CallAtlas

/-- Which kinds of symbols an answer may hold. -/
inductive SymbolFilter where
  | all
  | functions
  | methods
  deriving DecidableEq, Repr

/-- Whether a symbol is of a kind that may be answered. -/
def SymbolFilter.admits : SymbolFilter → Symbol → Bool
  | .all, _ => true
  | .functions, .function _ => true
  | .methods, .method .. => true
  | _, _ => false

/-- A question: one symbol, all symbols of a name, all symbols whose name holds a pattern, one
definition of a symbol, or something that no index understands. -/
inductive Query where
  | byKey (symbol : Symbol)
  | byName (name : Text) (filter : SymbolFilter)
  | byPattern (pattern : Text) (filter : SymbolFilter)
  | fullDefinition (symbol : Symbol) (location : Location)
  | unsupported
  deriving DecidableEq, Repr

/-- One answer: a symbol and what is told about it. -/
abbrev Answer := Symbol × Info

/-- Why a question has no answer. -/
inductive QueryError where
  | badPattern (pattern : Text)
  /-- A count in a pattern is too large. -/
  | countTooLarge
  /-- A count in a pattern has too many digits. -/
  | countTooLong
  | unsupported
  deriving DecidableEq, Repr

def QueryError.message : QueryError → Text
  | .badPattern pattern => "Invalid regex pattern '" ++ pattern ++ "'"
  | .countTooLarge => "the repetition number is too large"
  | .countTooLong => "Exceeds the limit (4300 digits) for integer string conversion"
  | .unsupported => "Unsupported query type"

/-- The error for a text that is no pattern. -/
def QueryError.ofPattern (pattern : Text) : PatternError → QueryError
  | .malformed => .badPattern pattern
  | .countTooLarge => .countTooLarge
  | .countTooLong => .countTooLong

/-- The test that a question puts to every symbol: nothing for questions about one symbol. -/
def Query.test [Library] : Query → Except QueryError (Option (Symbol → Bool))
  | .byName name filter => .ok (some fun s => s.name == name && filter.admits s)
  | .byPattern pattern filter => match Library.search pattern with
    | .error e => .error (.ofPattern pattern e)
    | .ok occursIn => .ok (some fun s => occursIn s.name && filter.admits s)
  | .unsupported => .error .unsupported
  | _ => .ok none

end CallAtlas
