import CallAtlas.Location

/-! # Symbols

What can be defined and called: a function, or a method of a class that may be unknown. -/

namespace CallAtlas

/-- The kinds of symbols. -/
inductive SymbolKind where
  | function
  | method
  deriving DecidableEq, Repr

/-- The name of a kind. -/
def SymbolKind.toText : SymbolKind → Text
  | .function => "function"
  | .method => "method"

/-- A function or a method. -/
inductive Symbol where
  | function (name : Text)
  | method (name : Text) (className : Option Text)
  deriving DecidableEq, Repr

namespace Symbol

/-- The name without its class. -/
def name : Symbol → Text
  | .function n => n
  | .method n _ => n

def kind : Symbol → SymbolKind
  | .function _ => .function
  | .method .. => .method

/-- Whether a symbol is a function. -/
def isFunction : Symbol → Bool
  | .function _ => true
  | .method .. => false

/-- The name by which a symbol is shown on a route: a method of a known class after its class. -/
def display : Symbol → Text
  | .function n => n
  | .method n none => n
  | .method n (some c) => if c.isEmpty then n else c ++ "." ++ n

instance : Inhabited Symbol := ⟨.function ""⟩

end Symbol

/-- A symbol together with a place: where it is called, or where it is defined. -/
structure Site where
  symbol : Symbol
  location : Location
  deriving DecidableEq, Repr, Inhabited

end CallAtlas
