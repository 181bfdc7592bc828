import CallAtlas.Json.Reader
import CallAtlas.Symbol

/-! # Libraries

What is left to the libraries below the program: to validate the data of documents, to print
symbols and to search for patterns. All of the program is told for any of them; `Library.standard`
is one. -/

namespace CallAtlas

/-- What a symbol holds as its type: a member of the enumeration of kinds, or a plain text. -/
inductive SymbolType where
  | member (kind : SymbolKind)
  | plain (text : Text)
  deriving DecidableEq, Repr

/-- The value of a type, which documents tell. Only members of an enumeration have one. -/
def SymbolType.value? : SymbolType → Option Text
  | .member kind => some kind.toText
  | .plain _ => none

/-- Why a text is no pattern. -/
inductive PatternError where
  | malformed
  /-- A count is larger than any that can be kept. -/
  | countTooLarge
  /-- A count has too many digits to be read. -/
  | countTooLong
  deriving DecidableEq, Repr

/-- The libraries. -/
class Library where
  /-- The type that a symbol of a kind holds when it has been read from a document. -/
  typeOf : SymbolKind → SymbolType
  /-- The class of a method in whose document the field for it is missing; nothing if such a
  document is refused. -/
  classless : Option (Option Text)
  /-- The printed form of a symbol that holds a type. -/
  printed : SymbolType → Symbol → Text
  /-- What a document of an index may hold at most. -/
  limits : Json.Limits
  /-- Whether the pattern that a text writes occurs in a name. -/
  search : Text → Except PatternError (Text → Bool)

namespace Library

variable [Library]

/-- A symbol that is read from a document holds the member of the enumeration that its document
names, as one that was never written does. -/
def KeepsMembers : Prop := ∀ kind, typeOf kind = .member kind

/-- The empty pattern occurs in every name. -/
def FindsEmpty : Prop := ∃ occursIn, search "" = .ok occursIn ∧ ∀ name, occursIn name = true

end Library

end CallAtlas
