import SlopeField.Decimal.Binary
import SlopeField.Proofs.Decimal.Positional

/-!
# The shortest decimal rounds to its float

The numbers that round to a magnitude form an interval (`Binary.Covers`), closed
where the mantissa is even. It is wider than the unit of a decimal with
seventeen digits, so it contains one (`covers_shortest`).
-/

namespace SlopeField

theorem pow_toNat_div (a : ℚ) (x : Int) : a ^ x.toNat / a ^ (-x).toNat = a ^ x := by
  obtain ⟨n, rfl | rfl⟩ := x.eq_nat_or_neg <;> simp

namespace Binary

/-- The ends of the interval of numbers that round to a magnitude. -/
def low (b : Binary) : ℚ := (b.mantissa - if b.narrow then 1 / 4 else 1 / 2) * 2 ^ b.exponent

def high (b : Binary) : ℚ := (b.mantissa + 1 / 2) * 2 ^ b.exponent

/-- The number rounds to the magnitude, an exact half to the even neighbour. -/
def Covers (b : Binary) (q : ℚ) : Prop :=
  if b.mantissa % 2 = 0 then b.low ≤ q ∧ q ≤ b.high else b.low < q ∧ q < b.high

/-- What a float holds: the mantissa is full unless the exponent is least, and
the next smaller float is nearer where both change. -/
structure Canonical (b : Binary) : Prop where
  pos : 0 < b.mantissa
  lt : b.mantissa < 2 ^ 53
  least : -1074 ≤ b.exponent
  greatest : b.exponent ≤ 971
  full : 2 ^ 52 ≤ b.mantissa ∨ b.exponent = -1074
  narrow : b.narrow = true ↔ b.mantissa = 2 ^ 52 ∧ -1074 < b.exponent

variable {b : Binary} {q : ℚ}

theorem Covers.bounds (h : b.Covers q) : b.low ≤ q ∧ q ≤ b.high := by
  unfold Covers at h
  split at h
  · exact h
  · exact ⟨h.1.le, h.2.le⟩

theorem covers_of_lt (h : b.low < q) (h' : q < b.high) : b.Covers q := by
  unfold Covers
  split
  · exact ⟨h.le, h'.le⟩
  · exact ⟨h, h'⟩

theorem covers_self (b : Binary) : b.Covers (b.mantissa * 2 ^ b.exponent) := by
  refine covers_of_lt ?_ ?_
  · refine mul_lt_mul_of_pos_right ?_ (by positivity)
    split <;> linarith
  · exact mul_lt_mul_of_pos_right (by linarith) (by positivity)

-- ---------------------------------------------------------------------------
-- Whole numbers in the interval
-- ---------------------------------------------------------------------------

namespace Scaled

variable {s : Scaled} {k : Nat}

theorem range_fst_le (hden : 0 < s.den) :
    s.range.1 ≤ k ↔ if s.closed then s.low ≤ k * s.den else s.low < k * s.den := by
  unfold range
  split
  · rw [Nat.div_le_iff_le_mul_add_pred hden, mul_comm k]
    omega
  · exact Nat.div_lt_iff_lt_mul hden

theorem le_range_snd (hden : 0 < s.den) (hhigh : 0 < s.high) :
    k ≤ s.range.2 ↔ if s.closed then k * s.den ≤ s.high else k * s.den < s.high := by
  unfold range
  split
  · exact Nat.le_div_iff_mul_le hden
  · rw [Nat.le_div_iff_mul_le hden]
    omega

theorem nearest_mem (hden : 0 < s.den) (hlow : s.low < s.value) (hhigh : s.value < s.high)
    (hne : s.range.1 ≤ s.range.2) : s.range.1 ≤ s.nearest ∧ s.nearest ≤ s.range.2 := by
  have hbelow : s.value / s.den * s.den ≤ s.value := Nat.div_mul_le_self _ _
  have habove : s.value < (s.value / s.den + 1) * s.den := by
    rw [mul_comm]
    exact Nat.lt_mul_div_succ _ hden
  have hle : s.value / s.den ≤ s.range.2 := by
    rw [le_range_snd hden (by omega)]
    split <;> omega
  have hge : s.range.1 ≤ s.value / s.den + 1 := by
    rw [range_fst_le hden]
    split <;> omega
  simp only [nearest, Bool.and_eq_true, Bool.or_eq_true, decide_eq_true_eq]
  split <;> omega

end Scaled

theorem scaled_den_pos (b : Binary) (e : Int) : 0 < (b.scaled e).den :=
  Nat.mul_pos (Nat.pow_pos (by decide)) (Nat.pow_pos (by decide))

theorem quarter_div (b : Binary) (e : Int) :
    ((b.quarter.1 * Nat.pow 10 (-e).toNat : Nat) : ℚ) / (b.scaled e).den =
      2 ^ b.exponent / 4 / 10 ^ e := by
  have htwo := pow_toNat_div 2 (b.exponent - 2)
  have hten := pow_toNat_div 10 (-e)
  rw [neg_sub, zpow_sub₀ (by norm_num)] at htwo
  rw [neg_neg, zpow_neg] at hten
  simp only [quarter, scaled, Nat.pow_eq, Nat.cast_mul, Nat.cast_pow, Nat.cast_ofNat]
  rw [mul_div_mul_comm, htwo, hten]
  norm_num [div_eq_mul_inv]

theorem scaled_ends (hb : 0 < b.mantissa) (e : Int) :
    ((b.scaled e).low : ℚ) / (b.scaled e).den = b.low / 10 ^ e ∧
      ((b.scaled e).high : ℚ) / (b.scaled e).den = b.high / 10 ^ e := by
  have hquarter := quarter_div b e
  constructor
  · have hlow : ((b.scaled e).low : ℚ) = (4 * b.mantissa - if b.narrow then 1 else 2) *
        (b.quarter.1 * Nat.pow 10 (-e).toNat : Nat) := by
      simp only [scaled, Nat.cast_mul]
      rw [Nat.cast_sub (by split <;> omega)]
      push_cast
      split <;> simp
    rw [hlow, mul_div_assoc, hquarter, low]
    split <;> ring
  · have hhigh : ((b.scaled e).high : ℚ) =
        (4 * b.mantissa + 2) * (b.quarter.1 * Nat.pow 10 (-e).toNat : Nat) := by
      simp only [scaled]
      push_cast
      ring
    rw [hhigh, mul_div_assoc, hquarter, high]
    ring

theorem scaled_lt (hb : 0 < b.mantissa) (e : Int) :
    (b.scaled e).low < (b.scaled e).value ∧ (b.scaled e).value < (b.scaled e).high := by
  have hnum : 0 < b.quarter.1 * Nat.pow 10 (-e).toNat :=
    Nat.mul_pos (Nat.pow_pos (by decide)) (Nat.pow_pos (by decide))
  simp only [scaled]
  exact ⟨Nat.mul_lt_mul_of_pos_right (by split <;> omega) hnum,
    Nat.mul_lt_mul_of_pos_right (by omega) hnum⟩

theorem mem_range_scaled (hb : 0 < b.mantissa) {e : Int} {k : Nat} :
    (b.scaled e).range.1 ≤ k ∧ k ≤ (b.scaled e).range.2 ↔ b.Covers (Decimal.value ⟨k, e⟩) := by
  have hden := scaled_den_pos b e
  have hdenq : (0 : ℚ) < (b.scaled e).den := by exact_mod_cast hden
  have hten : (0 : ℚ) < 10 ^ e := by positivity
  obtain ⟨hlow, hhigh⟩ := scaled_ends hb e
  have hge : (b.scaled e).low ≤ k * (b.scaled e).den ↔ b.low ≤ k * 10 ^ e := by
    rw [← div_le_iff₀ hten, ← hlow, div_le_iff₀ hdenq]
    exact_mod_cast Iff.rfl
  have hle : k * (b.scaled e).den ≤ (b.scaled e).high ↔ k * 10 ^ e ≤ b.high := by
    rw [← le_div_iff₀ hten, ← hhigh, le_div_iff₀ hdenq]
    exact_mod_cast Iff.rfl
  have hgt : (b.scaled e).low < k * (b.scaled e).den ↔ b.low < k * 10 ^ e := by
    rw [← div_lt_iff₀ hten, ← hlow, div_lt_iff₀ hdenq]
    exact_mod_cast Iff.rfl
  have hlt : k * (b.scaled e).den < (b.scaled e).high ↔ k * 10 ^ e < b.high := by
    rw [← lt_div_iff₀ hten, ← hhigh, lt_div_iff₀ hdenq]
    exact_mod_cast Iff.rfl
  have hclosed : (b.scaled e).closed = true ↔ b.mantissa % 2 = 0 := beq_iff_eq
  rw [Scaled.range_fst_le hden, Scaled.le_range_snd hden (Nat.zero_lt_of_lt (scaled_lt hb e).2),
    hge, hle, hgt, hlt, Covers, Decimal.value]
  simp only [hclosed]
  split <;> rfl

-- ---------------------------------------------------------------------------
-- Enough digits
-- ---------------------------------------------------------------------------

theorem pow_leading_le {num den : Nat} (hnum : 0 < num) (hden : 0 < den) :
    (10 : ℚ) ^ leading num den ≤ num / den := by
  have hdenq : (0 : ℚ) < den := by exact_mod_cast hden
  rw [le_div_iff₀ hdenq, leading]
  split
  · rename_i hle
    have hpow := Decimal.pow_width_le (Nat.div_pos hle hden).ne'
    have hwidth := Decimal.width_pos (num / den)
    have hmul : 10 ^ (Decimal.width (num / den) - 1) * den ≤ num :=
      (Nat.mul_le_mul_right den hpow).trans (Nat.div_mul_le_self num den)
    rw [← Nat.cast_one, ← Nat.cast_sub hwidth, zpow_natCast]
    exact_mod_cast hmul
  · have hlt := Decimal.lt_pow_width ((den - 1) / num)
    rw [Nat.div_lt_iff_lt_mul hnum] at hlt
    have hmul : den ≤ 10 ^ Decimal.width ((den - 1) / num) * num := by omega
    rw [zpow_neg, zpow_natCast, inv_mul_le_iff₀ (by positivity)]
    exact_mod_cast hmul

/-- As many digits are dropped as leave a multiple of the power of ten between
the ends. -/
theorem exists_mul_pow_droppable {least greatest : Nat} (h : least ≤ greatest) (n : Nat) :
    ∃ k, least ≤ k * 10 ^ droppable least greatest n ∧
      k * 10 ^ droppable least greatest n ≤ greatest := by
  induction n generalizing least greatest with
  | zero => exact ⟨least, by simp [droppable], by simpa [droppable] using h⟩
  | succ n ih =>
    simp only [droppable]
    split
    · rename_i hle
      obtain ⟨k, hk, hk'⟩ := ih hle
      refine ⟨k, ?_, ?_⟩ <;> rw [pow_succ, ← mul_assoc] <;> omega
    · exact ⟨least, by simp, by simpa using h⟩

theorem Canonical.pow_lt (hb : b.Canonical) :
    (10 : ℚ) ^ (leading (4 * b.mantissa * b.quarter.1) b.quarter.2 - 16) < b.high - b.low := by
  have hquarter : (b.quarter.1 : ℚ) / b.quarter.2 = 2 ^ b.exponent / 4 := by
    simpa [scaled] using quarter_div b 0
  have hvalue : (10 : ℚ) ^ leading (4 * b.mantissa * b.quarter.1) b.quarter.2 ≤
      b.mantissa * 2 ^ b.exponent := by
    have hnum : 0 < b.quarter.1 := Nat.pow_pos (by decide)
    have hden : 0 < b.quarter.2 := Nat.pow_pos (by decide)
    refine (pow_leading_le ?_ hden).trans_eq ?_
    · exact Nat.mul_pos (Nat.mul_pos (by decide) hb.pos) hnum
    · push_cast
      rw [mul_div_assoc, hquarter]
      ring
  have hlt : (b.mantissa : ℚ) < 2 ^ 53 := by exact_mod_cast hb.lt
  have hunit : (0 : ℚ) < 2 ^ b.exponent := by positivity
  rw [zpow_sub₀ (by norm_num), div_lt_iff₀ (by positivity)]
  refine hvalue.trans_lt ?_
  have hwidth : b.high - b.low = (if b.narrow then 3 / 4 else 1) * 2 ^ b.exponent := by
    rw [high, low]
    split <;> ring
  rw [hwidth, mul_right_comm]
  refine mul_lt_mul_of_pos_right ?_ hunit
  split
  · -- The narrow interval belongs to the least full mantissa, whose unit is larger.
    rename_i hnarrow
    rw [(hb.narrow.mp hnarrow).1]
    norm_num
  · exact hlt.trans (by norm_num)

theorem exists_covers (hb : 0 < b.mantissa) {e : Int} (h : (10 : ℚ) ^ e < b.high - b.low) :
    ∃ k, b.Covers (Decimal.value ⟨k, e⟩) := by
  have hten : (0 : ℚ) < 10 ^ e := by positivity
  have hlow : 0 ≤ b.low := by
    have : (1 : ℚ) ≤ b.mantissa := by exact_mod_cast hb
    exact mul_nonneg (by split <;> linarith) (by positivity)
  have hfloor := Nat.floor_le (div_nonneg hlow hten.le)
  have hsucc := Nat.lt_floor_add_one (b.low / 10 ^ e)
  rw [le_div_iff₀ hten] at hfloor
  rw [div_lt_iff₀ hten] at hsucc
  refine ⟨⌊b.low / 10 ^ e⌋₊ + 1, covers_of_lt ?_ ?_⟩
  · simpa [Decimal.value] using hsucc
  · simp only [Decimal.value, Nat.cast_add, Nat.cast_one]
    linarith

theorem value_mul_pow (k n : Nat) (e : Int) :
    Decimal.value ⟨k * 10 ^ n, e⟩ = Decimal.value ⟨k, e + n⟩ := by
  simp only [Decimal.value, zpow_add₀ (by norm_num : (10 : ℚ) ≠ 0), zpow_natCast]
  push_cast
  ring

theorem covers_shortest (hb : b.Canonical) : b.Covers b.shortest.value := by
  simp only [shortest]
  generalize hfine : leading (4 * b.mantissa * b.quarter.1) b.quarter.2 - 16 = fine
  -- Some multiple of the seventeenth digit is in the interval, so some multiple of
  -- the digit that is left is, and then the nearest one.
  obtain ⟨k, hk⟩ := exists_covers hb.pos (hfine ▸ hb.pow_lt)
  have hk := (mem_range_scaled hb.pos).mpr hk
  obtain ⟨j, hj⟩ := exists_mul_pow_droppable (hk.1.trans hk.2) 17
  have hj := (mem_range_scaled hb.pos).mp hj
  rw [value_mul_pow] at hj
  have hj := (mem_range_scaled hb.pos).mpr hj
  obtain ⟨hlow, hhigh⟩ := scaled_lt hb.pos
    (fine + droppable (b.scaled fine).range.1 (b.scaled fine).range.2 17)
  exact (mem_range_scaled hb.pos).mp
    (Scaled.nearest_mem (scaled_den_pos _ _) hlow hhigh (hj.1.trans hj.2))

end Binary

end SlopeField
