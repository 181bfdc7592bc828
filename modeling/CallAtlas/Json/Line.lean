import CallAtlas.Json.Writer

/-! # Documents on one line

The shortest layout of a document, with a blank after every comma and colon. Characters outside
printable ASCII are written as escapes of their sixteen-bit units. -/

namespace CallAtlas.Json

/-- A character inside a text on one line; beyond the first plane it is two units. -/
def lineEscape (c : Char) : List Char :=
  let n := c.toNat
  if n < 127 then escape c
  else if n < 0x10000 then unitEscape n
  else unitEscape (0xD800 + (n - 0x10000) / 0x400) ++ unitEscape (0xDC00 + (n - 0x10000) % 0x400)

def lineText (t : Text) : List Char := textWith lineEscape t

mutual
def writeLine : Json → List Char
  | .null => "null".toList
  | .bool b => if b then "true".toList else "false".toList
  | .int n => Text.integer n
  | .float x => number x
  | .str s => lineText s
  | .arr [] => ['[', ']']
  | .arr (j :: js) => '[' :: (writeLine j ++ lineItems js)
  | .obj [] => ['{', '}']
  | .obj ((k, j) :: js) => '{' :: (lineText k ++ [':', ' '] ++ writeLine j ++ lineFields js)
/-- The items after the first, with the end of the list. -/
def lineItems : List Json → List Char
  | [] => [']']
  | j :: js => ',' :: ' ' :: (writeLine j ++ lineItems js)
/-- The fields after the first, with the end of the object. -/
def lineFields : List (Text × Json) → List Char
  | [] => ['}']
  | (k, j) :: js => ',' :: ' ' :: (lineText k ++ [':', ' '] ++ writeLine j ++ lineFields js)
end

/-- The text of a document on one line. -/
def line (j : Json) : String := String.ofList (writeLine j)

end CallAtlas.Json
