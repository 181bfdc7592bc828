import CallAtlas.Text.Basic

/-! # Decimal numerals

Natural numbers and integers as decimal digits, most significant first. Main statement:
`value_numeral`, the digits of a number read back as that number. -/

namespace CallAtlas.Text

/-- Whether a character is one of the digits `0` to `9`. -/
def isDigit (c : Char) : Bool := decide (48 ≤ c.toNat) && decide (c.toNat ≤ 57)

/-- The character of a digit below ten. -/
def digitChar (d : Nat) : Char := Char.ofNat (48 + d)

/-- The number a digit stands for. -/
def digitValue (c : Char) : Nat := c.toNat - 48

/-- The decimal digits of a number. -/
def numeral (n : Nat) : List Char :=
  if n < 10 then [digitChar n] else numeral (n / 10) ++ [digitChar (n % 10)]

/-- The number of digits that a numeral may have where numbers are read and written. -/
def digitLimit : Nat := 4300

/-- The number that digits following the digits of `acc` stand for. -/
def valueFrom (acc : Nat) (ds : List Char) : Nat :=
  ds.foldl (fun n c => 10 * n + digitValue c) acc

/-- The number that digits stand for. -/
def value (ds : List Char) : Nat := valueFrom 0 ds

/-- An integer: its digits, after a minus sign if it is negative. -/
def integer : Int → List Char
  | .ofNat n => numeral n
  | .negSucc n => '-' :: numeral (n + 1)

/-- The text of a natural number. -/
def ofNat (n : Nat) : Text := ofChars (numeral n)

/-- The text of an integer. -/
def ofInt (n : Int) : Text := ofChars (integer n)

/-! ## Reading back -/

theorem digitValue_digitChar : ∀ d < 10, digitValue (digitChar d) = d := by decide

theorem isDigit_digitChar : ∀ d < 10, isDigit (digitChar d) = true := by decide

@[simp]
theorem value_append_singleton (ds : List Char) (c : Char) :
    value (ds ++ [c]) = 10 * value ds + digitValue c := by
  simp [value, valueFrom]

theorem value_numeral (n : Nat) : value (numeral n) = n := by
  induction n using Nat.strongRecOn with
  | ind n ih =>
    rw [numeral]
    split
    · next h => simp [value, valueFrom, digitValue_digitChar n h]
    · next h =>
      rw [value_append_singleton, ih (n / 10) (by omega), digitValue_digitChar _ (by omega)]
      omega

theorem isDigit_of_mem_numeral {n : Nat} {c : Char} (h : c ∈ numeral n) : isDigit c = true := by
  induction n using Nat.strongRecOn with
  | ind n ih =>
    rw [numeral] at h
    split at h
    · next hn => rw [List.mem_singleton.1 h]; exact isDigit_digitChar n hn
    · next hn =>
      rcases List.mem_append.1 h with h | h
      · exact ih (n / 10) (by omega) h
      · rw [List.mem_singleton.1 h]; exact isDigit_digitChar _ (by omega)

theorem numeral_ne_nil (n : Nat) : numeral n ≠ [] := by
  rw [numeral]; split <;> simp

end CallAtlas.Text
