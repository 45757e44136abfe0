import Mathlib
import Formulary.Operator.Arithmetic

/-! # Remainders of integers

A remainder belongs to a division that is rounded towards zero: it is less than the divisor and has
the sign of the dividend. Every divisor but zero has one, and it is an integer of sixty-four bits.
One of them is not answered all the same: the least integer is a multiple of minus one, but as
often as that goes is one more than the greatest integer.
-/

namespace Formulary

/-- What is left of `l` after taking `r` away as often as it goes. -/
structure IsRemainder (l r m : ℤ) : Prop where
  dvd_sub : r ∣ l - m
  abs_lt : |m| < |r|
  sign_eq : m = 0 ∨ m.sign = l.sign

theorem isRemainder_tmod (l : ℤ) {r : ℤ} (h : r ≠ 0) : IsRemainder l r (l.tmod r) where
  dvd_sub := Int.dvd_self_sub_tmod
  abs_lt := by
    rw [Int.abs_eq_natAbs, Int.abs_eq_natAbs, Int.natAbs_tmod, Nat.cast_lt]
    exact Nat.mod_lt _ (Int.natAbs_pos.mpr h)
  sign_eq := by
    by_cases hdvd : r ∣ l
    · exact Or.inl (Int.tmod_eq_zero_of_dvd hdvd)
    · refine Or.inr ?_
      rw [Int.sign_tmod, if_neg hdvd]

namespace Value

variable {i j : Int64}

theorem isRemainder_mod (h : j ≠ 0) : IsRemainder i.toInt j.toInt (i % j).toInt := by
  rw [Int64.toInt_mod]
  apply isRemainder_tmod
  rwa [Ne, ← Int64.toInt_zero, Int64.toInt_inj]

theorem checkedRemainder_eq_unknown (h : j = 0 ∨ i = Int64.minValue ∧ j = -1) :
    checkedRemainder i j = unknown := if_pos h

theorem checkedRemainder_eq_int (h : ¬(j = 0 ∨ i = Int64.minValue ∧ j = -1)) :
    checkedRemainder i j = int (i % j) := if_neg h

end Value

namespace Operator

open Value

/-- `%` answers the remainder of two integers, unless the divisor is zero or the quotient does not
fit into sixty-four bits. -/
theorem modulo_answers_remainder (i j : Int64) :
    (modulo.evaluateBinary (int i) (int j) = unknown ↔
      j = 0 ∨ i = Int64.minValue ∧ j = -1) ∧
    (modulo.evaluateBinary (int i) (int j) = unknown ∨
      ∃ m : Int64, modulo.evaluateBinary (int i) (int j) = int m ∧
        IsRemainder i.toInt j.toInt m.toInt) := by
  show (checkedRemainder i j = unknown ↔ _) ∧
    (checkedRemainder i j = unknown ∨ ∃ m, checkedRemainder i j = int m ∧ _)
  by_cases h : j = 0 ∨ i = Int64.minValue ∧ j = -1
  · rw [checkedRemainder_eq_unknown h]
    exact ⟨iff_of_true rfl h, Or.inl rfl⟩
  · rw [checkedRemainder_eq_int h]
    exact ⟨iff_of_false Value.noConfusion h,
      Or.inr ⟨i % j, rfl, isRemainder_mod fun hzero => h (Or.inl hzero)⟩⟩

/-- The remainder of the least integer by minus one is zero, but it is not answered. -/
theorem modulo_of_least_unknown :
    (-1 : Int64) ≠ 0 ∧ IsRemainder Int64.minValue.toInt (-1 : Int64).toInt (0 : Int64).toInt ∧
      modulo.evaluateBinary (int Int64.minValue) (int (-1)) = unknown :=
  ⟨by decide, ⟨by decide, by decide, Or.inl rfl⟩, rfl⟩

end Operator

end Formulary
