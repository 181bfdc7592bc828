import CallAtlas.Pattern.Basic

/-! # Places

A set of places of a text is a number whose bits are the places. -/

namespace CallAtlas.Pattern

/-- The places before an accepted code point. -/
def placesBefore (accepts : Rune → Bool) : List Rune → Nat
  | [] => 0
  | r :: rs => 2 * placesBefore accepts rs + (if accepts r then 1 else 0)

/-- All places of a text with `n` code points. -/
def allPlaces (n : Nat) : Nat := Nat.pow 2 (n + 1) - 1

/-- The places with a word character on exactly one side, where `before` says whether one stands
before the first place. -/
def boundaries (before : Bool) : List Rune → Nat
  | [] => if before then 1 else 0
  | r :: rs =>
    2 * boundaries (Text.isWord r) rs + (if before != Text.isWord r then 1 else 0)

/-- The end of a text, and the place before a line feed at the end. -/
def endPlaces : List Rune → Nat
  | [] => 1
  | [.char '\n'] => 3
  | _ :: rs => 2 * endPlaces rs

/-- The places of a text that is not empty with a word character on exactly one side, or all its
other places. -/
def boundaryPlaces (positive : Bool) (rs : List Rune) : Nat :=
  if rs.isEmpty then 0
  else if positive then boundaries false rs
  else allPlaces rs.length ^^^ boundaries false rs

/-- The number of rounds beyond the least that can read something where `left` code points are
left. -/
def extraRounds (left least : Nat) : Option Nat → Nat
  | none => left
  | some most => min (most - least) left

end CallAtlas.Pattern
