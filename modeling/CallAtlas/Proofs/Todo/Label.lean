import CallAtlas.Todo.Label
import Mathlib.Algebra.Order.Field.Power
import Mathlib.Data.Rat.Cast.Order
import Mathlib.Tactic.Linarith

/-! # Labels that are the same

Two labels are the same iff they stand for the same thing (`same_iff`), where a flag, an integer and a
finite floating-point number stand for a rational number. So sameness of labels is an equivalence, as
the identities of a to-do list need it. -/

namespace CallAtlas

/-- What a label that is a number stands for. -/
inductive Label.Amount where
  | rational (q : ℚ)
  | infinite (negative : Bool)
  | notANumber

namespace Decimal.Binary64

open Label (Amount)

/-! ## Finite numbers -/

/-- A finite number without its sign. -/
def magnitude (mantissa : Nat) (exponent : Int) : ℚ := mantissa * 2 ^ exponent

def amount : Binary64 → Amount
  | .finite negative m e => .rational (if negative then -magnitude m e else magnitude m e)
  | .infinite negative => .infinite negative
  | .notANumber => .notANumber

theorem magnitude_nonneg (m : Nat) (e : Int) : 0 ≤ magnitude m e :=
  mul_nonneg (Nat.cast_nonneg m) (zpow_nonneg rfl e)

theorem magnitude_eq_zero_iff {m : Nat} {e : Int} : magnitude m e = 0 ↔ m = 0 := by
  simp [magnitude, zpow_ne_zero]

theorem den_scaled_pos (m : Nat) (e : Int) : 0 < (Ratio.scaled m 2 e).den := by
  cases e with
  | ofNat e => exact Nat.one_pos
  | negSucc e => exact Nat.pow_pos (by decide)

theorem num_scaled (m : Nat) (e : Int) :
    ((Ratio.scaled m 2 e).num : ℚ) = magnitude m e * (Ratio.scaled m 2 e).den := by
  cases e with
  | ofNat e => simp [Ratio.scaled, magnitude]
  | negSucc e => simp [Ratio.scaled, magnitude]

/-- Quotients are compared across. -/
theorem num_scaled_eq_iff {m n : Nat} {e : Int} :
    (Ratio.scaled m 2 e).num = n * (Ratio.scaled m 2 e).den ↔ magnitude m e = n := by
  have hden : ((Ratio.scaled m 2 e).den : ℚ) ≠ 0 := by exact_mod_cast (den_scaled_pos m e).ne'
  rw [← Nat.cast_inj (R := ℚ), num_scaled, Nat.cast_mul, mul_left_inj' hden]

theorem scaled_eq_iff {m m' : Nat} {e e' : Int} :
    (Ratio.scaled m 2 e).num * (Ratio.scaled m' 2 e').den =
      (Ratio.scaled m' 2 e').num * (Ratio.scaled m 2 e).den ↔ magnitude m e = magnitude m' e' := by
  have hden : ((Ratio.scaled m 2 e).den : ℚ) ≠ 0 := by exact_mod_cast (den_scaled_pos m e).ne'
  have hden' : ((Ratio.scaled m' 2 e').den : ℚ) ≠ 0 := by
    exact_mod_cast (den_scaled_pos m' e').ne'
  rw [← Nat.cast_inj (R := ℚ), Nat.cast_mul, Nat.cast_mul, num_scaled, num_scaled, mul_right_comm,
    mul_left_inj' hden, mul_left_inj' hden']

/-- A sign and a size are those of an integer, unless it is zero, which has no sign. -/
theorem signed_eq_int_iff {a : ℚ} (ha : 0 ≤ a) (negative : Bool) (n : Int) :
    (a = |(n : ℚ)| ∧ (n = 0 ∨ negative = decide (n < 0))) ↔
      (if negative then -a else a) = n := by
  rcases lt_trichotomy n 0 with hn | rfl | hn
  · have hq : (n : ℚ) < 0 := by exact_mod_cast hn
    cases negative with
    | false =>
      refine iff_of_false (fun h => ?_) (fun h : a = n => by linarith)
      simp [hn, hn.ne] at h
    | true => simp [hn, abs_of_neg hq, neg_eq_iff_eq_neg]
  · cases negative <;> simp
  · have hq : (0 : ℚ) < n := by exact_mod_cast hn
    cases negative with
    | false => simp [hn.le, abs_of_pos hq]
    | true =>
      refine iff_of_false (fun h => ?_) (fun h : -a = n => by linarith)
      simp [hn.not_gt, hn.ne'] at h

theorem signed_eq_iff {a b : ℚ} (ha : 0 ≤ a) (hb : 0 ≤ b) (negative negative' : Bool) :
    (a = b ∧ (a = 0 ∨ negative = negative')) ↔
      (if negative then -a else a) = (if negative' then -b else b) := by
  by_cases hsign : negative = negative'
  · subst hsign
    cases negative <;> simp
  · constructor
    · rintro ⟨rfl, rfl | hsame⟩
      · simp
      · exact absurd hsame hsign
    · intro h
      have hzero : a = 0 ∧ b = 0 := by
        cases negative <;> cases negative' <;> simp at hsign h
        all_goals constructor <;> linarith
      exact ⟨hzero.1.trans hzero.2.symm, .inl hzero.1⟩

theorem eqInt_iff (x : Binary64) (n : Int) : x.eqInt n = true ↔ x.amount = .rational n := by
  cases x with
  | infinite => simp [eqInt, amount]
  | notANumber => simp [eqInt, amount]
  | finite negative m e =>
    have habs : ((n.natAbs : Nat) : ℚ) = |(n : ℚ)| := by
      rw [← Int.cast_natCast, Int.natCast_natAbs, Int.cast_abs]
    rw [amount, Amount.rational.injEq, ← signed_eq_int_iff (magnitude_nonneg m e)]
    simp only [eqInt, Bool.and_eq_true, beq_iff_eq, num_scaled_eq_iff, habs, Bool.or_eq_true,
      decide_eq_true_eq]

theorem sameValue_finite_iff {negative negative' : Bool} {m m' : Nat} {e e' : Int} :
    (finite negative m e).sameValue (finite negative' m' e') = true ↔
      (finite negative m e).amount = (finite negative' m' e').amount := by
  rw [amount, amount, Amount.rational.injEq,
    ← signed_eq_iff (magnitude_nonneg m e) (magnitude_nonneg m' e'), magnitude_eq_zero_iff]
  simp only [sameValue, Bool.and_eq_true, beq_iff_eq, scaled_eq_iff, Bool.or_eq_true]

/-- What is no number is the same as itself here. -/
theorem amount_eq_iff (x y : Binary64) :
    (x = y ∨ x.sameValue y = true) ↔ x.amount = y.amount := by
  match x, y with
  | finite .., finite .. =>
    rw [sameValue_finite_iff]
    exact or_iff_right_of_imp fun h => congrArg amount h
  | infinite _, infinite _ => simp [sameValue, amount]
  | notANumber, notANumber => simp
  | finite .., infinite _ | finite .., notANumber | infinite _, finite .. | infinite _, notANumber
  | notANumber, finite .. | notANumber, infinite _ => simp [sameValue, amount]

end Decimal.Binary64

namespace Label

/-! ## Labels -/

/-- What a label stands for. -/
inductive Meaning where
  | nothing
  | amount (a : Amount)
  | text (s : Text)
  | list (items : List Meaning)

mutual
def meaning : Label → Meaning
  | nothing => .nothing
  | flag b => .amount (.rational ((if b then 1 else 0 : Int) : ℚ))
  | number n => .amount (.rational n)
  | float x => .amount x.amount
  | text s => .text s
  | list items => .list (meanings items)
def meanings : List Label → List Meaning
  | [] => []
  | a :: as => a.meaning :: meanings as
end

theorem eqInt_iff_eq_amount (x : Decimal.Binary64) (n : Int) :
    x.eqInt n = true ↔ .rational n = x.amount := by
  rw [x.eqInt_iff, eq_comm]

/-- Two labels of which one is a number are the same iff both are and they are equal. -/
theorem sameNumber_iff {a : Label} {x : Amount} (ha : a.meaning = .amount x) (b : Label) :
    sameNumber a b = true ↔ .amount x = b.meaning := by
  rw [← ha]
  cases a with
  | nothing | text | list => cases ha
  | flag c =>
    cases b <;> simp [sameNumber, number?, meaning, eqInt_iff_eq_amount, -Int.cast_ite]
  | number n =>
    cases b <;> simp [sameNumber, number?, meaning, eqInt_iff_eq_amount, -Int.cast_ite]
  | float y =>
    cases b <;> simp [sameNumber, number?, meaning, y.eqInt_iff, y.amount_eq_iff, -Int.cast_ite]

mutual
/-- Two labels are the same iff they stand for the same thing. -/
theorem same_iff : ∀ a b : Label, same a b = true ↔ a.meaning = b.meaning
  | nothing, b => by cases b <;> simp [same, sameNumber, number?, meaning]
  | flag _, b | number _, b | float _, b => by
    rw [same]
    · exact sameNumber_iff rfl b
    all_goals nofun
  | text s, b => by cases b <;> simp [same, sameNumber, number?, meaning]
  | list as, b => by cases b <;> simp [same, sameNumber, number?, meaning, sameAll_iff]
theorem sameAll_iff : ∀ as bs : List Label, sameAll as bs = true ↔ meanings as = meanings bs
  | [], [] => by simp [sameAll]
  | [], _ :: _ => by simp [sameAll, meanings]
  | _ :: _, [] => by simp [sameAll, meanings]
  | a :: as, b :: bs => by simp [sameAll, meanings, same_iff a b, sameAll_iff as bs]
end

theorem beq_iff (a b : Label) : (a == b) = true ↔ a.meaning = b.meaning := same_iff a b

instance : EquivBEq Label where
  rfl {a} := (beq_iff a a).2 rfl
  symm {a b} h := (beq_iff b a).2 ((beq_iff a b).1 h).symm
  trans {a b c} h h' := (beq_iff a c).2 (((beq_iff a b).1 h).trans ((beq_iff b c).1 h'))

end Label

end CallAtlas
