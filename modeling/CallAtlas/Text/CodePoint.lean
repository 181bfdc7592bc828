import CallAtlas.Text.Basic

/-! # Classes of code points given by ranges -/

namespace CallAtlas.Text

/-- Whether a code point lies in one of the ranges, both ends included. -/
def CodePoint.within (ranges : List (Nat × Nat)) (r : Rune) : Bool :=
  ranges.any fun range => decide (range.1 ≤ r.code) && decide (r.code ≤ range.2)

theorem CodePoint.within_iff {ranges : List (Nat × Nat)} {r : Rune} :
    CodePoint.within ranges r = true ↔ ∃ range ∈ ranges, range.1 ≤ r.code ∧ r.code ≤ range.2 := by
  simp [CodePoint.within]

end CallAtlas.Text
