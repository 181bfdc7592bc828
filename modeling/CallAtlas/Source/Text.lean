import CallAtlas.Location
import CallAtlas.Source.Tree
import CallAtlas.Window

/-! # Source files

The bytes of a source file, the text that nodes of its tree cover, and the places where they
stand. -/

namespace CallAtlas

/-- A source file: the name under which it is recorded, and its bytes. -/
structure Source where
  file : Path
  bytes : ByteArray

/-- Gives every source a tree. -/
abbrev Parser := ByteArray → Tree

/-- The parser that knows the trees of some sources; any other source is a bare node. -/
def Parser.ofTrees (trees : List (ByteArray × Tree)) : Parser := fun data =>
  match trees.find? fun e => e.1.data == data.data with
  | some e => e.2
  | none => .node "" 0 (Int.ofNat data.size) none []

namespace Source

/-- The bytes from one position to another. -/
def slice (s : Source) (start stop : Int) : ByteArray :=
  s.bytes.extract (cut s.bytes.size start) (cut s.bytes.size stop)

/-- The text that a node covers, unless its bytes are no text. -/
def text? (s : Source) (t : Tree) : Option Text := Text.ofUTF8? (s.slice t.start t.stop)

/-- Goes past a byte, where lines that ended and bytes since then are counted. -/
def pass (count : Nat × Nat) (byte : UInt8) : Nat × Nat :=
  if byte = 10 then (count.1 + 1, 0) else (count.1, count.2 + 1)

/-- The number of lines that end before a byte, and the number of bytes from the start of its line
to it. -/
def point (s : Source) (offset : Int) : Int × Int :=
  let before := (s.slice 0 offset).data
  let (row, column) := before.foldl pass (0, 0)
  (Int.ofNat row, offset - Int.ofNat (before.size - column))

/-- The place where a node stands. -/
def place (s : Source) (t : Tree) : Location :=
  let (startRow, startColumn) := s.point t.start
  let (endRow, endColumn) := s.point t.stop
  ⟨s.file, startRow + 1, startColumn, endRow + 1, endColumn, t.start, t.stop⟩

end Source

end CallAtlas
