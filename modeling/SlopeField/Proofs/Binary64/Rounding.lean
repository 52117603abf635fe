import SlopeField.Proofs.Binary64.Accuracy
import SlopeField.Proofs.Decimal.Shortest

/-!
# Rounding to the nearest float

Rounding gives the magnitude whose interval covers the number
(`roundWithAccuracy_eq`); products and quotients of floats are rounded so.
-/

namespace SlopeField.Binary64

open Float.Model (Format UnpackedFloat totalExponent)
open Float.Model.UnpackedFloat

variable {q : ℚ} {m : Nat} {e t : Int} {a : Accuracy}

-- ---------------------------------------------------------------------------
-- The exponent
-- ---------------------------------------------------------------------------

theorem shiftToTargetExponent_self (ht : max (m.log2 + 1 + e - 53) (-1074) ≤ e) :
    shiftToTargetExponent .binary64 m e .exact = (⟨m, false, false⟩, e) := by
  simp only [shiftToTargetExponent, shiftToExponent, targetExponent_eq,
    Int.toNat_of_nonpos (by omega : max (m.log2 + 1 + e - 53) (-1074) - e ≤ 0)]
  simp
  rfl

/-- A number of 53 places at the exponent, or fewer at the least exponent. -/
def FitsAt (q : ℚ) (t : Int) : Prop :=
  q < 2 ^ 53 * 2 ^ t ∧ (t = -1074 ∨ 2 ^ 52 * 2 ^ t ≤ q)

theorem Accurate.fitsAt (h : Accurate (q / 2 ^ e) m a) (hfine : e ≤ -1074 ∨ 52 ≤ m.log2)
    (ht : max (m.log2 + 1 + e - 53) (-1074) = t) : FitsAt q t := by
  obtain ⟨hlow, hhigh⟩ := h.bounds
  have hunit : (0 : ℚ) < 2 ^ e := by positivity
  rw [le_div_iff₀ hunit] at hlow
  rw [div_lt_iff₀ hunit] at hhigh
  have htwo : (2 : ℚ) ≠ 0 := by norm_num
  constructor
  · have hsucc : m + 1 ≤ 2 ^ (m.log2 + 1) := Nat.lt_log2_self
    have hsucc : (m + 1 : ℚ) ≤ 2 ^ (m.log2 + 1) := by exact_mod_cast hsucc
    calc q < (m + 1) * 2 ^ e := hhigh
      _ ≤ 2 ^ (m.log2 + 1) * 2 ^ e := by gcongr
      _ = 2 ^ (m.log2 + 1 + e : Int) := by rw [zpow_add₀ htwo]; norm_cast
      _ ≤ 2 ^ (53 + t) := zpow_le_zpow_right₀ (by norm_num) (by omega)
      _ = 2 ^ 53 * 2 ^ t := by rw [zpow_add₀ htwo]; norm_cast
  · by_cases hleast : t = -1074
    · exact .inl hleast
    · right
      have hm : m ≠ 0 := by
        rintro rfl
        simp at hfine ht
        omega
      have hself : (2 ^ m.log2 : ℚ) ≤ m := by exact_mod_cast Nat.log2_self_le hm
      calc (2 : ℚ) ^ 52 * 2 ^ t = 2 ^ (52 + t) := by rw [zpow_add₀ htwo]; norm_cast
        _ = 2 ^ (m.log2 + e : Int) := by congr 1; omega
        _ = 2 ^ m.log2 * 2 ^ e := by rw [zpow_add₀ htwo]; norm_cast
        _ ≤ m * 2 ^ e := by gcongr
        _ ≤ q := hlow

variable {b : Binary}

theorem half_below_le_low (b : Binary) : (b.mantissa - 1 / 2 : ℚ) * 2 ^ b.exponent ≤ b.low := by
  refine mul_le_mul_of_nonneg_right ?_ (by positivity)
  split <;> linarith

/-- A number has the exponent of the magnitude that it rounds to, or the one
below if it rounds up to a power of two. -/
theorem FitsAt.exponent (hb : b.Canonical) (hq : b.Covers q) (ht : -1074 ≤ t) (h : FitsAt q t) :
    b.exponent = t ∨ b.exponent = t + 1 ∧ b.mantissa = 2 ^ 52 := by
  obtain ⟨hlow, hhigh⟩ := hq.bounds
  obtain ⟨hlt, hge⟩ := h
  have hunit : (0 : ℚ) < 2 ^ t := by positivity
  have htwo : (2 : ℚ) ≠ 0 := by norm_num
  have hfull (hexp : t < b.exponent) : 2 ^ 52 ≤ b.mantissa := hb.full.resolve_right (by omega)
  have hlow := (half_below_le_low b).trans hlow
  obtain hexp | hexp | hexp | hexp :
      b.exponent < t ∨ b.exponent = t ∨ b.exponent = t + 1 ∨ t + 2 ≤ b.exponent := by omega
  · -- Below the exponent the magnitude is too small.
    have hge := hge.resolve_left (by have := hb.least; omega)
    have hm : (b.mantissa : ℚ) ≤ 2 ^ 53 - 1 := by
      have := hb.lt
      exact_mod_cast (by omega : (b.mantissa : ℤ) ≤ 2 ^ 53 - 1)
    have hhalf : (2 : ℚ) ^ b.exponent ≤ 2 ^ t / 2 := by
      have hle : (2 : ℚ) ^ b.exponent ≤ 2 ^ (t - 1) :=
        zpow_le_zpow_right₀ (by norm_num) (by omega)
      rwa [zpow_sub_one₀ htwo, ← div_eq_mul_inv] at hle
    have : b.high ≤ (2 ^ 53 - 1 / 2) * (2 ^ t / 2) :=
      mul_le_mul (by linarith) hhalf (by positivity) (by norm_num)
    linarith
  · exact .inl hexp
  · -- One above, only a power of two is reached from below.
    refine .inr ⟨hexp, ?_⟩
    by_contra hne
    have hm : 2 ^ 52 + 1 ≤ b.mantissa := by
      have := hfull (by omega)
      omega
    have hm : (2 ^ 52 + 1 : ℚ) ≤ b.mantissa := by exact_mod_cast hm
    have hunit' : (2 : ℚ) ^ b.exponent = 2 ^ t * 2 := by rw [hexp, zpow_add_one₀ htwo]
    have : (2 ^ 52 + 1 - 1 / 2 : ℚ) * 2 ^ b.exponent ≤ q :=
      le_trans (by gcongr) hlow
    rw [hunit'] at this
    linarith
  · -- Above the next exponent it is too large.
    have hm : (2 ^ 52 : ℚ) ≤ b.mantissa := by exact_mod_cast hfull (by omega)
    have hunit' : (2 : ℚ) ^ t * 4 ≤ 2 ^ b.exponent := by
      have hle : (2 : ℚ) ^ (t + 2) ≤ 2 ^ b.exponent :=
        zpow_le_zpow_right₀ (by norm_num) hexp
      rw [zpow_add₀ htwo] at hle
      norm_num at hle ⊢
      exact hle
    have : (2 ^ 52 - 1 / 2 : ℚ) * (2 ^ t * 4) ≤ q :=
      le_trans (mul_le_mul (by linarith) hunit' (by positivity) (by linarith)) hlow
    linarith

/-- At its exponent, a number rounds to the mantissa of the magnitude, or carries
to the next power of two. -/
theorem Accurate.rounded (hb : b.Canonical) (hq : b.Covers q) (ht : -1074 ≤ t) (hfits : FitsAt q t)
    (h : Accurate (q / 2 ^ t) m a) :
    a.roundToNearestEven m = b.mantissa ∧ b.exponent = t ∨
      a.roundToNearestEven m = 2 ^ 53 ∧ b.mantissa = 2 ^ 52 ∧ b.exponent = t + 1 := by
  have hunit : (0 : ℚ) < 2 ^ t := by positivity
  obtain ⟨hlow, hhigh⟩ := hq.bounds
  obtain rfl | ⟨hexp, hmantissa⟩ := hfits.exponent hb hq ht
  · have hstrict (hodd : b.mantissa % 2 = 1) : b.low < q ∧ q < b.high := by
      rwa [Binary.Covers, if_neg (by omega)] at hq
    refine .inl ⟨le_antisymm (h.round_le ?_ fun hodd => ?_) (h.le_round ?_ fun hodd => ?_), rfl⟩
    · rw [div_le_iff₀ hunit]
      exact hhigh
    · rw [div_lt_iff₀ hunit]
      exact (hstrict hodd).2
    · rw [le_div_iff₀ hunit]
      exact (half_below_le_low b).trans hlow
    · rw [lt_div_iff₀ hunit]
      exact (half_below_le_low b).trans_lt (hstrict hodd).1
  · refine .inr ⟨le_antisymm (h.round_le ?_ (absurd · (by decide)))
      (h.le_round ?_ (absurd · (by decide))), hmantissa, hexp⟩
    · rw [div_le_iff₀ hunit]
      push_cast
      linarith [hfits.1]
    · -- Below a power of two the interval reaches down half a unit of the finer exponent.
      have hnarrow : b.narrow = true := hb.narrow.mpr ⟨hmantissa, by omega⟩
      rw [Binary.low, hnarrow, hmantissa, hexp, zpow_add_one₀ (by norm_num)] at hlow
      rw [le_div_iff₀ hunit]
      push_cast at hlow ⊢
      simp only [if_true] at hlow
      linarith

theorem roundWithAccuracy_eq (hb : b.Canonical) (hq : b.Covers q) (s : Sign)
    (ha : Accurate (q / 2 ^ e) m a) (hfine : e ≤ -1074 ∨ 52 ≤ m.log2) :
    roundWithAccuracy .binary64 s m e a = .finite s b.mantissa b.exponent hb.pos := by
  generalize ht : max (m.log2 + 1 + e - 53) (-1074) = t
  have hem := ha.shiftRight (t - e).toNat
  rw [div_div, ← zpow_natCast, Int.toNat_of_nonneg (by omega), ← zpow_add₀ (by norm_num),
    add_sub_cancel] at hem
  have hpos := hb.pos
  simp only [roundWithAccuracy, shiftToTargetExponent_eq (a := a) (by omega) ht,
    ExtendedMantissa.roundedMantissa]
  obtain ⟨hround, rfl⟩ | ⟨hround, hmantissa, hexp⟩ :=
    hem.rounded hb hq (by omega) (ha.fitsAt hfine ht)
  · have hlog := log2_le_of_lt (k := 52) hb.lt
    simp only [hround, shiftToTargetExponent_self (m := b.mantissa) (e := b.exponent) (by omega)]
    rw [dif_neg hpos.ne']
  · -- The carry leaves 54 places, and the second shift drops a zero.
    have hlog : Nat.log2 (2 ^ 53) = 53 := Nat.log2_two_pow
    have hcarry : shiftToTargetExponent .binary64 (2 ^ 53) t .exact =
        ((⟨2 ^ 53, false, false⟩ : ExtendedMantissa) >>> 1, t + 1) := by
      rw [shiftToTargetExponent_eq (t := t + 1) (by omega) (by omega), add_sub_cancel_left]
      rfl
    simp only [hround, hcarry, hexp, hmantissa]
    rfl

-- ---------------------------------------------------------------------------
-- Products and quotients
-- ---------------------------------------------------------------------------

variable {s₁ s₂ : Sign} {m₁ m₂ : Nat} {e₁ e₂ : Int} {h₁ : 0 < m₁} {h₂ : 0 < m₂}

theorem mul_eq (hb : b.Canonical) (hq : b.Covers (m₁ * 2 ^ e₁ * (m₂ * 2 ^ e₂)))
    (hfine : 52 ≤ (m₁ * m₂).log2) :
    UnpackedFloat.mul .binary64 (.finite s₁ m₁ e₁ h₁) (.finite s₂ m₂ e₂ h₂) =
      .finite (s₁ * s₂) b.mantissa b.exponent hb.pos := by
  refine roundWithAccuracy_eq hb hq _ ?_ (.inr hfine)
  show _ = ((m₁ * m₂ : Nat) : ℚ)
  rw [div_eq_iff (by positivity), zpow_add₀ (by norm_num)]
  push_cast
  ring

theorem accurate_div (n : Nat) {d : Nat} (hd : 0 < d) :
    Accurate (n / d) (n / d : Nat) (accuracyOfFraction (n % d) d) := by
  have hdq : (0 : ℚ) < d := by exact_mod_cast hd
  have hn : (n : ℚ) / d = (n / d : Nat) + (n % d : Nat) / d := by
    rw [div_eq_iff hdq.ne', add_mul, div_mul_cancel₀ _ hdq.ne']
    exact_mod_cast (Nat.div_add_mod' n d).symm
  have hlt : ((n % d : Nat) : ℚ) / d < 1 := by
    rw [div_lt_one hdq]
    exact_mod_cast Nat.mod_lt n hd
  unfold accuracyOfFraction
  split
  · rename_i hzero
    rw [hn, hzero]
    simp [Accurate]
  · rename_i hne
    have hpos : 0 < ((n % d : Nat) : ℚ) / d :=
      div_pos (by exact_mod_cast Nat.pos_of_ne_zero hne) hdq
    rw [hn]
    cases hcmp : compare (2 * (n % d)) d with
    | lt =>
      have hhalf : ((n % d : Nat) : ℚ) / d < 1 / 2 := by
        rw [div_lt_div_iff₀ hdq (by norm_num)]
        exact_mod_cast (by have := Nat.compare_eq_lt.mp hcmp; omega : n % d * 2 < 1 * d)
      exact ⟨by linarith, by linarith⟩
    | eq =>
      have hhalf : ((n % d : Nat) : ℚ) / d = 1 / 2 := by
        rw [div_eq_div_iff hdq.ne' (by norm_num)]
        exact_mod_cast (by have := Nat.compare_eq_eq.mp hcmp; omega : n % d * 2 = 1 * d)
      rw [hhalf]
      rfl
    | gt =>
      have hhalf : 1 / 2 < ((n % d : Nat) : ℚ) / d := by
        rw [div_lt_div_iff₀ (by norm_num) hdq]
        exact_mod_cast (by have := Nat.compare_eq_gt.mp hcmp; omega : 1 * d < n % d * 2)
      exact ⟨by linarith, by linarith⟩

theorem le_log2_div {k : Nat} (h₁ : 0 < m₁) (h₂ : 0 < m₂) (h : m₂.log2 + 53 ≤ m₁.log2 + k) :
    52 ≤ (m₁ <<< k / m₂).log2 := by
  have hquot : 2 ^ 52 * m₂ ≤ m₁ <<< k := by
    calc 2 ^ 52 * m₂ ≤ 2 ^ 52 * 2 ^ (m₂.log2 + 1) := Nat.mul_le_mul_left _ Nat.lt_log2_self.le
      _ = 2 ^ (m₂.log2 + 53) := by rw [← pow_add]; congr 1; omega
      _ ≤ 2 ^ (m₁.log2 + k) := Nat.pow_le_pow_right (by decide) h
      _ = 2 ^ m₁.log2 * 2 ^ k := pow_add _ _ _
      _ ≤ m₁ <<< k := by
        rw [Nat.shiftLeft_eq]
        exact Nat.mul_le_mul_right _ (Nat.log2_self_le h₁.ne')
  have hle := (Nat.le_div_iff_mul_le h₂).mpr hquot
  exact (Nat.le_log2 (by omega)).mpr hle

theorem accurate_divCore (e₁ e₂ : Int) (h₁ : 0 < m₁) (h₂ : 0 < m₂) {n : Nat} {t : Int}
    (h : divCore .binary64 m₁ e₁ m₂ e₂ = (n, t, a)) :
    Accurate (m₁ * 2 ^ e₁ / (m₂ * 2 ^ e₂) / 2 ^ t) n a ∧ (t ≤ -1074 ∨ 52 ≤ n.log2) := by
  simp only [divCore, Prod.mk.injEq] at h
  obtain ⟨rfl, ht, rfl⟩ := h
  rw [ht]
  generalize hk : (e₁ - e₂ - t).toNat = k
  constructor
  · have hscale : (m₁ * 2 ^ e₁ / (m₂ * 2 ^ e₂) / 2 ^ t : ℚ) = (m₁ <<< k : Nat) / m₂ := by
      have hexp : (2 : ℚ) ^ e₁ = 2 ^ k * 2 ^ e₂ * 2 ^ t := by
        rw [← zpow_natCast, ← zpow_add₀ (by norm_num), ← zpow_add₀ (by norm_num)]
        congr 1
        omega
      rw [hexp, Nat.shiftLeft_eq]
      have hm : (m₂ : ℚ) ≠ 0 := by exact_mod_cast h₂.ne'
      push_cast
      field_simp
    rw [hscale]
    exact accurate_div _ h₂
  · have htarget : Format.targetExponent .binary64 (totalExponent m₁ e₁ - totalExponent m₂ e₂) =
        max ((m₁.log2 + 1 + e₁) - (m₂.log2 + 1 + e₂) - 53) (-1074) := rfl
    by_cases hleast : t ≤ -1074
    · exact .inl hleast
    · exact .inr (le_log2_div h₁ h₂ (by omega))

theorem div_eq (hb : b.Canonical) (hq : b.Covers (m₁ * 2 ^ e₁ / (m₂ * 2 ^ e₂))) :
    UnpackedFloat.div .binary64 (.finite s₁ m₁ e₁ h₁) (.finite s₂ m₂ e₂ h₂) =
      .finite (s₁ / s₂) b.mantissa b.exponent hb.pos := by
  obtain ⟨ha, hfine⟩ := accurate_divCore e₁ e₂ h₁ h₂ rfl
  exact roundWithAccuracy_eq hb hq _ ha hfine

end SlopeField.Binary64
