import CallAtlas.Text.Basic

/-! # Lines of a text

A line ends at a line feed, a carriage return, both together, or one of the other line breaks. The
end of the text ends a line only if something stands before it. -/

namespace CallAtlas.Text

/-- Whether a code point ends a line. -/
def isLineBreak (r : Rune) : Bool :=
  [0xa, 0xb, 0xc, 0xd, 0x1c, 0x1d, 0x1e, 0x85, 0x2028, 0x2029].contains r.code

/-- The lines of a text whose first line starts with `line`, read backwards. -/
def linesFrom (line : List Rune) : List Rune → List (List Rune)
  | [] => if line.isEmpty then [] else [line.reverse]
  | .char '\r' :: .char '\n' :: rest => line.reverse :: linesFrom [] rest
  | r :: rest =>
    if isLineBreak r then line.reverse :: linesFrom [] rest else linesFrom (r :: line) rest

/-- The lines of a text, without their line breaks. -/
def lines (rs : List Rune) : List (List Rune) := linesFrom [] rs

/-- The pieces of a text between the line feeds; there is always one more piece than line feeds. -/
def pieces : List Rune → List (List Rune)
  | [] => [[]]
  | r :: rest =>
    if r = '\n' then [] :: pieces rest
    else match pieces rest with
      | [] => [[r]]
      | p :: ps => (r :: p) :: ps

/-- Texts put together with a line feed between each two. -/
def joinLines : List (List Rune) → List Rune
  | [] => []
  | [l] => l
  | l :: ls => l ++ Rune.char '\n' :: joinLines ls

end CallAtlas.Text
