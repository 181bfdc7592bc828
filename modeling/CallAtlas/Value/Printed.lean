import CallAtlas.Text.Quoted
import CallAtlas.Value.Basic

/-! # Printed forms of values -/

namespace CallAtlas.Value

/-- A byte between quotes. -/
def byteText (quote : Char) (b : UInt8) : List Char :=
  let c := Char.ofNat b.toNat
  if c = quote || c = '\\' then ['\\', c]
  else if c = '\t' then ['\\', 't']
  else if c = '\n' then ['\\', 'n']
  else if c = '\r' then ['\\', 'r']
  else if 32 ≤ b.toNat && b.toNat < 127 then [c]
  else '\\' :: 'x' :: Text.Quoted.hex 2 b.toNat

/-- Bytes between quotes. -/
def bytesText (data : List UInt8) : Text :=
  let quote := Text.Quoted.quoteFor (data.map fun b => .char (Char.ofNat b.toNat))
  Text.ofChars ('b' :: quote :: (data.flatMap (byteText quote) ++ [quote]))

/-- Texts with commas between them. -/
def commas (texts : List Text) : Text := Text.join ", " texts

mutual
/-- The printed form of a value inside another. -/
def quoted : Value → Text
  | .null => "None"
  | .bool b => if b then "True" else "False"
  | .int n => Text.ofInt n
  | .float x => Text.ofChars x.render
  | .text s => s.quoted
  | .bytes data => bytesText data
  | .path p => "PosixPath(" ++ p.toText.quoted ++ ")"
  | .location l => l.toText
  | .list items => "[" ++ commas (quotedAll items) ++ "]"
  | .tuple [v] => "(" ++ quoted v ++ ",)"
  | .tuple items => "(" ++ commas (quotedAll items) ++ ")"
  | .set [] => "set()"
  | .set items => "\x7b" ++ commas (quotedAll items) ++ "\x7d"
  | .table entries => "\x7b" ++ commas (quotedEntries entries) ++ "\x7d"
  | .record k fields => k ++ "(" ++ commas (quotedFields fields) ++ ")"
  | .thing k => "<" ++ k ++ " object>"
  | .kind k => "<class '" ++ k ++ "'>"
def quotedAll : List Value → List Text
  | [] => []
  | v :: vs => quoted v :: quotedAll vs
def quotedEntries : List (Value × Value) → List Text
  | [] => []
  | (k, v) :: rest => (quoted k ++ ": " ++ quoted v) :: quotedEntries rest
def quotedFields : List (Text × Value) → List Text
  | [] => []
  | (k, v) :: rest => (k ++ "=" ++ quoted v) :: quotedFields rest
end

/-- The printed form of a value that stands alone: a text stands for itself. -/
def toText : Value → Text
  | .text s => s
  | .path p => p.toText
  | v => quoted v

/-- How the type of a value is called. -/
def typeName : Value → Text
  | .null => "NoneType"
  | .bool _ => "bool"
  | .int _ => "int"
  | .float _ => "float"
  | .text _ => "str"
  | .bytes _ => "bytes"
  | .path _ => "PosixPath"
  | .location _ => "CodeLocation"
  | .list _ => "list"
  | .tuple _ => "tuple"
  | .set _ => "set"
  | .table _ => "dict"
  | .record k _ => k
  | .thing k => k
  | .kind _ => "type"

end CallAtlas.Value
