import CallAtlas.Text.Blank
import CallAtlas.Text.Word

/-! # Name patterns

Patterns over the code points of a name. -/

namespace CallAtlas

/-- One entry of a class of characters; `positive` is false for the complement. A range is given
by code points. -/
inductive CharItem where
  | range (low high : Nat)
  | digit (positive : Bool)
  | word (positive : Bool)
  | space (positive : Bool)
  deriving DecidableEq, Repr

/-- Whether a character is in an entry. -/
def CharItem.holds (r : Rune) : CharItem → Bool
  | .range low high => decide (low ≤ r.code) && decide (r.code ≤ high)
  | .digit positive => Text.isDecimalDigit r == positive
  | .word positive => Text.isWord r == positive
  | .space positive => Text.isBlank r == positive

/-- How a repetition chooses the number of its rounds. -/
inductive Manner where
  /-- As many as possible first. -/
  | greedy
  /-- As few as possible first. -/
  | lazy
  /-- As many as possible, each round as it matches first, and no other choice. -/
  | possessive
  deriving DecidableEq, Repr

/-- A pattern. -/
inductive Pattern where
  /-- The empty text. -/
  | empty
  /-- One character in a class, or outside it. -/
  | oneOf (negated : Bool) (items : List CharItem)
  /-- Any character but a line feed. -/
  | anyChar
  | seq (first second : Pattern)
  | alt (left right : Pattern)
  /-- At least `least` and at most `most` matches one after the other. -/
  | rep (body : Pattern) (least : Nat) (most : Option Nat) (manner : Manner)
  /-- The start of the text. -/
  | atStart
  /-- The end of the text, or just before a line feed that ends it. -/
  | atEnd
  /-- The very end of the text. -/
  | atLast
  /-- A place of a text that is not empty, with a word character on exactly one side, or not so. -/
  | boundary (positive : Bool)
  deriving DecidableEq, Repr

/-- Whether a class holds a code point. -/
def Pattern.classHolds (negated : Bool) (items : List CharItem) (r : Rune) : Bool :=
  items.any (CharItem.holds r) != negated

end CallAtlas
