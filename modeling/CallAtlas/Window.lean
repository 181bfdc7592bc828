/-! # Windows of lists

The part of a list from one position to another. A negative position counts from the end, and a
position outside the list stands for the nearer end. -/

namespace CallAtlas

/-- Where a position cuts a list of length `n`. -/
def cut (n : Nat) (i : Int) : Nat := if i < 0 then (i + n).toNat else min i.toNat n

/-- The items between two positions; without one, from the start or to the end. -/
def window {α : Type} (items : List α) (start stop : Option Int) : List α :=
  let n := items.length
  (items.take (stop.elim n (cut n))).drop (start.elim 0 (cut n))

theorem cut_le (n : Nat) (i : Int) : cut n i ≤ n := by
  unfold cut
  split
  · omega
  · exact Nat.min_le_right _ _

@[simp]
theorem cut_ofNat (n i : Nat) : cut n (Int.ofNat i) = min i n := by
  unfold cut
  have : ¬ Int.ofNat i < 0 := by simp
  rw [if_neg this]
  rfl

@[simp]
theorem window_none_none {α : Type} (items : List α) : window items none none = items := by
  simp [window]

end CallAtlas
