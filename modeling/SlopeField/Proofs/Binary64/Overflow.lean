import SlopeField.Proofs.Binary64.Accuracy

/-!
# Sums that do not overflow

A number below the overflow threshold, which is half a unit above the largest
finite float, is rounded to a finite float (`fits_round`). The sum of a finite
float and one is below it.
-/

namespace SlopeField.Binary64

open Float.Model (Format UnpackedFloat totalExponent)
open Float.Model.UnpackedFloat

/-- A zero, or a number whose exponent is not above that of the largest finite
float. -/
inductive Fits : UnpackedFloat → Prop
  | zero (s : Sign) : Fits (.zero s)
  | finite (s : Sign) (m : Nat) {e : Int} (h : 0 < m) : e ≤ 971 → Fits (.finite s m e h)

theorem isFinite_pack {u : UnpackedFloat} (h : Fits u) :
    (Float.ofModel (.pack u)).isFinite = true := by
  have hfields {s : Sign} {e : BitVec 11} {m : BitVec 52} (he : e ≠ -1#11)
      (hu : pack .binary64 u = packComponents .binary64 s e m) :
      (Float.ofModel (.pack u)).isFinite = true := by
    have heq : Float.ofModel (.pack u) = ofFields s e m he := ofFields_of_bits hu
    rw [heq]
    exact status_ofFields.1
  cases h with
  | zero s => exact hfields (by decide) rfl
  | @finite s m e hm he =>
    have hbias : (Format.exponentBias .binary64 : Int) = 1023 := rfl
    have htop : ¬2 ^ 11 ≤ (e + Format.exponentBias .binary64 + (52 : Nat)).toNat + 1 := by omega
    by_cases hlog : m.log2 + 1 = Format.mantissaBits .binary64
    · refine hfields ?_ (by rw [pack, if_neg htop, if_pos hlog])
      intro h
      have h : (e + Format.exponentBias .binary64 + (52 : Nat)).toNat % 2 ^ 11 = 2047 := by
        simpa using congrArg BitVec.toNat h
      omega
    · have hlow : pack .binary64 (.finite s m e hm) =
          packComponents .binary64 s 0#11 (BitVec.ofNat 52 m) := by
        rw [pack, if_neg htop, if_neg hlog]
      exact hfields (by decide) hlow

theorem magnitude_bounds {e : BitVec 11} (he : e ≠ -1#11) (m : BitVec 52) :
    (magnitude e m).mantissa < 2 ^ 53 ∧ (magnitude e m).exponent ≤ 971 := by
  have hm := m.isLt
  have he' := e.isLt
  have htop : e.toNat ≠ 2047 := fun h => he (BitVec.eq_of_toNat_eq h)
  unfold magnitude
  split <;> constructor <;> simp <;> omega

-- ---------------------------------------------------------------------------
-- Rounding
-- ---------------------------------------------------------------------------

theorem fits_roundWithAccuracy {s : Sign} {m : Nat} {e t : Int} (het : e ≤ t)
    (ht : max (m.log2 + 1 + e - 53) (-1074) = t)
    (h : (ExtendedMantissa.ofMantissaAndAccuracy m .exact >>> (t - e).toNat).roundedMantissa.log2 +
      t ≤ 1023)
    (htop : t ≤ 971) : Fits (roundWithAccuracy .binary64 s m e .exact) := by
  simp only [roundWithAccuracy, shiftToTargetExponent_eq (a := .exact) het ht]
  split
  · exact .zero s
  · refine .finite _ _ _ ?_
    simp only [shiftToTargetExponent, shiftToExponent, targetExponent_eq]
    omega

theorem roundedMantissa_shiftRight_le {m n k : Nat} (h : 2 * m < (2 * k + 1) * 2 ^ n) :
    (ExtendedMantissa.ofMantissaAndAccuracy m .exact >>> n).roundedMantissa ≤ k := by
  have hexact : Accurate m m .exact := rfl
  have hlt : (m : ℚ) / 2 ^ n < k + 1 / 2 := by
    have h : (2 * m : ℚ) < (2 * k + 1) * 2 ^ n := by exact_mod_cast h
    rw [div_lt_iff₀ (by positivity)]
    linarith
  exact (hexact.shiftRight n).round_le hlt.le fun _ => hlt

/-- A number below the overflow threshold fits after rounding. -/
theorem fits_round {s : Sign} {m : Nat} {e : Int} (hm : m ≠ 0) (he : e ≤ 971)
    (h : 2 * m < (2 ^ 54 - 1) * 2 ^ (971 - e).toNat) :
    Fits (UnpackedFloat.round .binary64 s m e) := by
  have hlog : m.log2 + e ≤ 1023 := by
    have hlt : m < 2 ^ (53 + (971 - e).toNat) := by
      rw [pow_add]
      omega
    have := (Nat.log2_lt hm).mpr hlt
    omega
  simp only [UnpackedFloat.round, decreaseExponent, targetExponent_eq]
  generalize ht : max (m.log2 + 1 + e - 53) (-1074) = t
  generalize hk : (e - t).toNat = k
  have hlog' := log2_shiftLeft hm k
  refine fits_roundWithAccuracy (t := t) (by omega) (by omega) ?_ (by omega)
  generalize hn : (t - (e - k)).toNat = n
  by_cases htop : t = 971
  · -- At the largest exponent the threshold leaves no room for a carry.
    obtain rfl : k = 0 := by omega
    obtain rfl : n = (971 - e).toNat := by omega
    have hle := roundedMantissa_shiftRight_le (m := m <<< 0) (k := 2 ^ 53 - 1) h
    have := log2_le_of_lt (k := 52) (Nat.lt_of_le_of_lt hle (by decide))
    omega
  · have hlt : m <<< k < 2 ^ 53 * 2 ^ n := by
      rw [← pow_add]
      exact Nat.lt_of_lt_of_le Nat.lt_log2_self (Nat.pow_le_pow_right (by decide) (by omega))
    have hle := roundedMantissa_shiftRight_le (m := m <<< k) (n := n) (k := 2 ^ 53) (by omega)
    have := log2_le_of_lt (k := 53) (Nat.lt_of_le_of_lt hle (by decide))
    omega

-- ---------------------------------------------------------------------------
-- Adding one
-- ---------------------------------------------------------------------------

theorem fits_normalize {m : Int} {e : Int} {s : Sign} (he : e ≤ 971)
    (h : 2 * m.natAbs < (2 ^ 54 - 1) * 2 ^ (971 - e).toNat) :
    Fits (UnpackedFloat.normalize .binary64 m e s) := by
  unfold UnpackedFloat.normalize
  split
  · rename_i hlt
    have hlt : m < 0 := Int.compare_eq_lt.mp hlt
    exact fits_round (by omega) he (by rwa [show (-m).toNat = m.natAbs by omega])
  · exact .zero s
  · rename_i hgt
    have hgt : 0 < m := Int.compare_eq_gt.mp hgt
    exact fits_round (by omega) he (by rwa [show m.toNat = m.natAbs by omega])

theorem isFinite_add_one {v : Float} (h : v.isFinite = true) : (v + 1.0).isFinite = true := by
  obtain ⟨s, e, m, he, rfl⟩ := exists_fields h
  obtain ⟨u, hu, hfields⟩ := unpack_packComponents he m
  refine isFinite_pack (u := UnpackedFloat.add .binary64 (ofFields s e m he).toModel.unpack _) ?_
  rw [unpack_one, unpack_ofFields, hfields]
  obtain ⟨-, rfl⟩ | ⟨-, hpos, rfl⟩ := hu
  · exact .finite _ _ _ (by decide)
  · obtain ⟨hmantissa, hexponent⟩ := magnitude_bounds he m
    generalize (magnitude e m).mantissa = n at *
    generalize (magnitude e m).exponent = x at *
    refine fits_normalize (by omega) ?_
    show 2 * (s.apply (n <<< (x - min x (-52)).toNat : Nat) +
      Sign.positive.apply (2 ^ 52 <<< (-52 - min x (-52)).toNat : Nat)).natAbs < _
    generalize hd : min x (-52) = d
    have hone : 2 * (2 ^ 52 <<< (-52 - d).toNat) < 2 ^ (971 - d).toNat := by
      rw [Nat.shiftLeft_eq, ← mul_assoc, ← pow_succ', ← pow_add]
      exact Nat.pow_lt_pow_right (by decide) (by omega)
    have hself : n <<< (x - d).toNat ≤ (2 ^ 53 - 1) * 2 ^ (971 - d).toNat := by
      rw [Nat.shiftLeft_eq]
      exact Nat.mul_le_mul (by omega) (Nat.pow_le_pow_right (by decide) (by omega))
    have habs (a b : Nat) : (s.apply a + Sign.positive.apply b).natAbs ≤ a + b := by
      cases s <;> simp only [Sign.apply] <;> omega
    have hsum := habs (n <<< (x - d).toNat) (2 ^ 52 <<< (-52 - d).toNat)
    omega

end SlopeField.Binary64
