import CallAtlas.Json.Basic
import CallAtlas.Text.Quoted

/-! # Writing documents

Every item and field stands on a line of its own, indented by two blanks for each level. Texts
keep their characters; only quotes, backslashes, controls and halves of pairs are escaped. -/

namespace CallAtlas.Json

/-- The escape of a sixteen-bit unit. -/
def unitEscape (n : Nat) : List Char := '\\' :: 'u' :: Text.Quoted.hex 4 n

/-- A character inside a text. -/
def escape (c : Char) : List Char :=
  if c = '"' then ['\\', '"']
  else if c = '\\' then ['\\', '\\']
  else if c = '\n' then ['\\', 'n']
  else if c = '\r' then ['\\', 'r']
  else if c = '\t' then ['\\', 't']
  else if c.toNat = 8 then ['\\', 'b']
  else if c.toNat = 12 then ['\\', 'f']
  else if c.toNat < 32 then unitEscape c.toNat
  else [c]

/-- A code point inside a text, given what a character becomes; halves are escaped. -/
def runeEscape (escape : Char → List Char) : Rune → List Char
  | .char c => escape c
  | .half n => unitEscape (Rune.half n).code

/-- A text between double quotes, given what a character becomes. -/
def textWith (escape : Char → List Char) (t : Text) : List Char :=
  '"' :: (t.runes.flatMap (runeEscape escape) ++ ['"'])

/-- A text between double quotes. -/
def text (t : Text) : List Char := textWith escape t

/-- A floating-point number; those that are not finite have names. -/
def number : Decimal.Binary64 → List Char
  | .notANumber => "NaN".toList
  | .infinite negative => (if negative then ['-'] else []) ++ "Infinity".toList
  | x => x.render

/-- A new line at a level. -/
def newline (level : Nat) : List Char := '\n' :: List.replicate (2 * level) ' '

mutual
/-- A document whose inner lines are indented past `level`. -/
def write (level : Nat) : Json → List Char
  | .null => "null".toList
  | .bool b => if b then "true".toList else "false".toList
  | .int n => Text.integer n
  | .float x => number x
  | .str s => text s
  | .arr [] => ['[', ']']
  | .arr (j :: js) =>
    '[' :: (newline (level + 1) ++ write (level + 1) j ++ writeItems (level + 1) js
      ++ newline level ++ [']'])
  | .obj [] => ['{', '}']
  | .obj ((k, j) :: js) =>
    '{' :: (newline (level + 1) ++ text k ++ [':', ' '] ++ write (level + 1) j
      ++ writeFields (level + 1) js ++ newline level ++ ['}'])

/-- The items after the first, each after a comma. -/
def writeItems (level : Nat) : List Json → List Char
  | [] => []
  | j :: js => ',' :: (newline level ++ write level j ++ writeItems level js)

/-- The fields after the first, each after a comma. -/
def writeFields (level : Nat) : List (Text × Json) → List Char
  | [] => []
  | (k, j) :: js =>
    ',' :: (newline level ++ text k ++ [':', ' '] ++ write level j ++ writeFields level js)
end

/-- The text of a document. -/
def render (j : Json) : String := String.ofList (write 0 j)

/-! ## Documents that can be encoded -/

mutual
/-- Whether a text or a key of a document holds half of a pair. -/
def hasHalf : Json → Bool
  | .str s => s.hasHalf
  | .arr items => anyHalf items
  | .obj fields => anyFieldHalf fields
  | _ => false

def anyHalf : List Json → Bool
  | [] => false
  | j :: js => j.hasHalf || anyHalf js

def anyFieldHalf : List (Text × Json) → Bool
  | [] => false
  | (k, j) :: fields => k.hasHalf || j.hasHalf || anyFieldHalf fields
end

/-- The text of a document; one that holds half of a pair cannot be encoded. -/
def encode? (j : Json) : Option String := if j.hasHalf then none else some j.render

end CallAtlas.Json
