import CallAtlas.Text.CodePoint

/-! # Blanks

The characters that separate words, and the removal of blanks at both ends of a text. -/

namespace CallAtlas.Text

/-- The ranges of blanks: tab to carriage return, the four information separators, the space, the
next-line control and the spaces and separators of other scripts. -/
def blankRanges : List (Nat × Nat) :=
  [(0x9, 0xd), (0x1c, 0x20), (0x85, 0x85), (0xa0, 0xa0), (0x1680, 0x1680), (0x2000, 0x200a),
   (0x2028, 0x2029), (0x202f, 0x202f), (0x205f, 0x205f), (0x3000, 0x3000)]

/-- Whether a code point is a blank. -/
def isBlank (r : Rune) : Bool := CodePoint.within blankRanges r

/-- A text without the blanks at its end. -/
def trimEnd (rs : List Rune) : List Rune := (rs.reverse.dropWhile isBlank).reverse

/-- A text without the blanks at its start and at its end. -/
def trim (rs : List Rune) : List Rune := trimEnd (rs.dropWhile isBlank)

@[simp]
theorem trim_nil : trim [] = [] := rfl

end CallAtlas.Text
