import CallAtlas.Text.Printable

/-! # Quoted text

A text between quotes, with every code point that is not printable written as an escape. The quote
is a single one unless the text holds a single quote and no double quote. -/

namespace CallAtlas.Text

namespace Quoted

/-- The lower-case hexadecimal digits of a number, padded with zeros to a width. -/
def hex (width n : Nat) : List Char :=
  let digits := Nat.toDigits 16 n
  List.replicate (width - digits.length) '0' ++ digits

/-- The quote a text stands between. -/
def quoteFor (rs : List Rune) : Char :=
  if rs.contains '\'' && !rs.contains '"' then '"' else '\''

/-- The escape of a code point by its number. -/
def numbered (n : Nat) : List Char :=
  if n < 0x100 then '\\' :: 'x' :: hex 2 n
  else if n < 0x10000 then '\\' :: 'u' :: hex 4 n
  else '\\' :: 'U' :: hex 8 n

/-- One code point as it stands between quotes. -/
def escape (quote : Char) (r : Rune) : List Rune :=
  if r = quote || r = '\\' then ['\\', r]
  else if r = '\t' then ['\\', 't']
  else if r = '\n' then ['\\', 'n']
  else if r = '\r' then ['\\', 'r']
  else if isPrintable r then [r]
  else (numbered r.code).map .char

end Quoted

/-- A text between quotes. -/
def quoted (t : Text) : Text :=
  let quote := Quoted.quoteFor t.runes
  .ofRunes (.char quote :: (t.runes.flatMap (Quoted.escape quote) ++ [.char quote]))

end CallAtlas.Text
