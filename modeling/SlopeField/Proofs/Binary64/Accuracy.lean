import SlopeField.Proofs.Binary64

/-!
# The accuracy of a mantissa

A mantissa with its accuracy says where a number lies between two whole numbers
(`Accurate`). Shifting by a place halves the number and keeps what is said of
it, and rounding goes to the nearest whole number, an exact half to the even one.
-/

namespace SlopeField.Binary64

open Float.Model (Format UnpackedFloat totalExponent)
open Float.Model.UnpackedFloat

/-- The number lies from `m` on and below `m + 1`, on the side of the middle that
the accuracy gives. -/
def Accurate (r : ℚ) (m : Nat) : Accuracy → Prop
  | .exact => r = m
  | .inexact .lt => m < r ∧ r < m + 1 / 2
  | .inexact .eq => r = m + 1 / 2
  | .inexact .gt => m + 1 / 2 < r ∧ r < m + 1

variable {r : ℚ} {m k : Nat} {a : Accuracy}

theorem Accurate.bounds (h : Accurate r m a) : m ≤ r ∧ r < m + 1 := by
  obtain _ | ⟨_ | _ | _⟩ := a <;> simp only [Accurate] at h <;> constructor <;> linarith

-- ---------------------------------------------------------------------------
-- Shifts
-- ---------------------------------------------------------------------------

theorem accurate_shiftRightOne {em : ExtendedMantissa} (h : Accurate r em.mantissa em.accuracy) :
    Accurate (r / 2) em.shiftRightOne.mantissa em.shiftRightOne.accuracy := by
  obtain ⟨m, round, sticky⟩ := em
  have hm : (m : ℚ) = 2 * (m / 2 : Nat) + (m % 2 : Nat) := by
    exact_mod_cast (Nat.div_add_mod m 2).symm
  simp only [ExtendedMantissa.shiftRightOne]
  -- The last place becomes the round bit, and what was below it the sticky bit.
  obtain hmod | hmod := Nat.mod_two_eq_zero_or_one m <;> rw [hmod] at hm ⊢ <;>
    cases round <;> cases sticky <;>
    simp only [ExtendedMantissa.accuracy, Accurate, bne_self_eq_false, Bool.or_false,
      Bool.or_true, Nat.cast_zero, Nat.cast_one, show (1 != 0) = true from rfl] at h hm ⊢ <;>
    first | linarith | (constructor <;> linarith)

theorem accurate_shiftRight {em : ExtendedMantissa} (h : Accurate r em.mantissa em.accuracy)
    (n : Nat) : Accurate (r / 2 ^ n) (em >>> n).mantissa (em >>> n).accuracy := by
  induction n with
  | zero =>
    rw [pow_zero, div_one]
    exact h
  | succ n ih =>
    rw [pow_succ, ← div_div]
    exact accurate_shiftRightOne ih

theorem Accurate.shiftRight (h : Accurate r m a) (n : Nat) :
    Accurate (r / 2 ^ n) (ExtendedMantissa.ofMantissaAndAccuracy m a >>> n).mantissa
      (ExtendedMantissa.ofMantissaAndAccuracy m a >>> n).accuracy := by
  refine accurate_shiftRight ?_ n
  obtain _ | ⟨_ | _ | _⟩ := a <;> exact h

theorem log2_le_of_lt {n k : Nat} (h : n < 2 ^ (k + 1)) : n.log2 ≤ k := by
  by_cases hn : n = 0
  · simp [hn]
  · exact Nat.le_of_lt_succ ((Nat.log2_lt hn).mpr h)

theorem log2_shiftLeft {m : Nat} (hm : m ≠ 0) (k : Nat) : (m <<< k).log2 = m.log2 + k := by
  rw [Nat.shiftLeft_eq, Nat.log2_eq_iff (by positivity), pow_add, add_right_comm, pow_add _ _ k]
  exact ⟨Nat.mul_le_mul_right _ (Nat.log2_self_le hm),
    Nat.mul_lt_mul_of_pos_right Nat.lt_log2_self (by positivity)⟩

theorem targetExponent_eq (m : Nat) (e : Int) :
    Format.targetExponent .binary64 (totalExponent m e) = max (m.log2 + 1 + e - 53) (-1074) := rfl

theorem shiftToTargetExponent_eq {e t : Int} (het : e ≤ t)
    (ht : max (m.log2 + 1 + e - 53) (-1074) = t) :
    shiftToTargetExponent .binary64 m e a =
      (ExtendedMantissa.ofMantissaAndAccuracy m a >>> (t - e).toNat, t) := by
  simp only [shiftToTargetExponent, shiftToExponent, targetExponent_eq, ht]
  rw [Int.toNat_of_nonneg (by omega), add_sub_cancel]

-- ---------------------------------------------------------------------------
-- Rounding
-- ---------------------------------------------------------------------------

theorem Accurate.round_le (h : Accurate r m a) (hk : r ≤ k + 1 / 2)
    (hodd : k % 2 = 1 → r < k + 1 / 2) : a.roundToNearestEven m ≤ k := by
  obtain _ | ⟨_ | _ | _⟩ := a <;> simp only [Accurate] at h <;>
    simp only [Accuracy.roundToNearestEven]
  · have hle : 2 * m ≤ 2 * k + 1 := by exact_mod_cast (by linarith : (2 * m : ℚ) ≤ 2 * k + 1)
    omega
  · have hle : 2 * m ≤ 2 * k + 1 := by exact_mod_cast (by linarith : (2 * m : ℚ) ≤ 2 * k + 1)
    omega
  · have hle : m ≤ k := by exact_mod_cast (by linarith : (m : ℚ) ≤ k)
    have hlt (hk : k % 2 = 1) : m < k := by
      have := hodd hk
      exact_mod_cast (by linarith : (m : ℚ) < k)
    omega
  · exact_mod_cast (by linarith : (m : ℚ) < k)

theorem Accurate.le_round (h : Accurate r m a) (hk : k - 1 / 2 ≤ r)
    (hodd : k % 2 = 1 → k - 1 / 2 < r) : k ≤ a.roundToNearestEven m := by
  obtain _ | ⟨_ | _ | _⟩ := a <;> simp only [Accurate] at h <;>
    simp only [Accuracy.roundToNearestEven]
  · have hle : 2 * k ≤ 2 * m + 1 := by exact_mod_cast (by linarith : (2 * k : ℚ) ≤ 2 * m + 1)
    omega
  · have hlt : k < m + 1 := by exact_mod_cast (by linarith : (k : ℚ) < m + 1)
    omega
  · have hle : k ≤ m + 1 := by exact_mod_cast (by linarith : (k : ℚ) ≤ m + 1)
    have hlt (hk : k % 2 = 1) : k < m + 1 := by
      have := hodd hk
      exact_mod_cast (by linarith : (k : ℚ) < m + 1)
    omega
  · have hle : 2 * k ≤ 2 * m + 3 := by exact_mod_cast (by linarith : (2 * k : ℚ) ≤ 2 * m + 3)
    omega

end SlopeField.Binary64
