import CallAtlas.Path
import CallAtlas.Text.Numeral

/-! # Places in source files -/

namespace CallAtlas

/-- A stretch of a source file: lines count from one, columns and bytes from zero, and the end is
not part of it. -/
structure Location where
  file : Path
  startLine : Int
  startColumn : Int
  endLine : Int
  endColumn : Int
  startByte : Int
  endByte : Int
  deriving DecidableEq, Repr

/-- The printed form of a location. -/
def Location.toText (l : Location) : Text :=
  "CodeLocation(" ++ l.file.toText ++ ", " ++ Text.ofInt l.startLine ++ ":"
    ++ Text.ofInt l.startColumn ++ "-" ++ Text.ofInt l.endLine ++ ":" ++ Text.ofInt l.endColumn
    ++ ", " ++ Text.ofInt l.startByte ++ "-" ++ Text.ofInt l.endByte ++ ")"

instance : Inhabited Location := ⟨⟨default, 0, 0, 0, 0, 0, 0⟩⟩

end CallAtlas
