import SlopeField.Proofs.Binary64.Rounding

/-!
# The text of a float reads back

A decimal is read as the float whose interval covers it (`Decimal.toFloat_eq`),
so that the text of a finite float, a decimal in its interval, reads back to the
float itself (`read?_text`).
-/

namespace SlopeField.Binary64

open Float.Model (Format UnpackedFloat)
open Float.Model.UnpackedFloat

-- ---------------------------------------------------------------------------
-- Fields
-- ---------------------------------------------------------------------------

variable {b : Binary} {s : Sign} {e : BitVec 11} {m : BitVec 52} {he : e ≠ -1#11} {v : Float}

theorem canonical_magnitude (he : e ≠ -1#11) (hz : ¬(e = 0 ∧ m = 0)) :
    (magnitude e m).Canonical := by
  have hm := m.isLt
  have he' := e.isLt
  have htop : e.toNat ≠ 2047 := fun h => he (BitVec.eq_of_toNat_eq h)
  have hne : e.toNat = 0 → m.toNat ≠ 0 := fun h h' =>
    hz ⟨BitVec.eq_of_toNat_eq h, BitVec.eq_of_toNat_eq h'⟩
  unfold magnitude
  split <;> constructor <;> simp <;> omega

theorem exists_magnitude_eq (hb : b.Canonical) :
    ∃ e m, e ≠ -1#11 ∧ ¬(e = 0 ∧ m = 0) ∧ magnitude e m = b := by
  obtain ⟨n, x, narrow⟩ := b
  obtain ⟨hpos, hlt, hleast, hgreatest, hfull, hnarrow⟩ := hb
  simp only at hpos hlt hleast hgreatest hfull hnarrow
  by_cases hn : n < 2 ^ 52
  · obtain rfl : x = -1074 := hfull.resolve_left (by omega)
    obtain rfl : narrow = false := Bool.eq_false_iff.mpr fun h => by have := hnarrow.mp h; omega
    have hm : (BitVec.ofNat 52 n).toNat = n := by
      rw [BitVec.toNat_ofNat, Nat.mod_eq_of_lt hn]
    refine ⟨0, BitVec.ofNat 52 n, by decide, fun h => ?_, ?_⟩
    · rw [h.2] at hm
      simp at hm
      omega
    · simp [magnitude, hm]
  · have he : (BitVec.ofNat 11 (x + 1075).toNat).toNat = (x + 1075).toNat := by
      rw [BitVec.toNat_ofNat, Nat.mod_eq_of_lt (by omega)]
    have hm : (BitVec.ofNat 52 (n - 2 ^ 52)).toNat = n - 2 ^ 52 := by
      rw [BitVec.toNat_ofNat, Nat.mod_eq_of_lt (by omega)]
    refine ⟨BitVec.ofNat 11 (x + 1075).toNat, BitVec.ofNat 52 (n - 2 ^ 52), fun h => ?_,
      fun h => ?_, ?_⟩
    · rw [h] at he
      simp at he
      omega
    · rw [h.1] at he
      simp at he
      omega
    · rw [magnitude, he, hm, if_neg (by omega), Binary.mk.injEq]
      refine ⟨by omega, by omega, ?_⟩
      rw [Bool.eq_iff_iff, hnarrow]
      simp
      omega

theorem unpack_ofFields_of_ne (he : e ≠ -1#11) (hz : ¬(e = 0 ∧ m = 0)) :
    (ofFields s e m he).toModel.unpack =
      .finite s (magnitude e m).mantissa (magnitude e m).exponent
        (canonical_magnitude he hz).pos := by
  obtain ⟨u, ⟨hn, -⟩ | ⟨-, hpos, rfl⟩, hfields⟩ := unpack_packComponents he m
  · exact (hz hn).elim
  · exact hfields s

theorem unpack_pack (hb : b.Canonical) (s : Sign) :
    unpack .binary64 (pack .binary64 (.finite s b.mantissa b.exponent hb.pos)) =
      .finite s b.mantissa b.exponent hb.pos := by
  obtain ⟨e, m, he, hz, rfl⟩ := exists_magnitude_eq hb
  rw [← unpack_ofFields_of_ne he hz, unpack_ofFields,
    pack_unpack_of_valid (valid_packComponents he s m)]

-- ---------------------------------------------------------------------------
-- Decimals that are read exactly
-- ---------------------------------------------------------------------------

def Holds (v : Float) (q : ℚ) : Prop :=
  ∃ m e h, v.toModel.unpack = .finite .positive m e h ∧ 2 ^ 52 ≤ m ∧ (m : ℚ) * 2 ^ e = q

theorem holds_round {n i : Nat} (hn : 0 < n) (h : n < 2 ^ 53) (hi : i ≤ 971) :
    Holds (.ofModel (.pack (.round .binary64 .positive n i))) (n * 2 ^ i) := by
  have hlog : n.log2 ≤ 52 := log2_le_of_lt h
  obtain ⟨k, hk⟩ := Nat.exists_eq_add_of_le hlog
  have hshift : (n <<< k).log2 = 52 := by rw [log2_shiftLeft hn.ne', ← hk]
  obtain ⟨hlow, hhigh⟩ := (Nat.log2_eq_iff (by rintro h; simp [h] at hshift)).mp hshift
  have hb : (⟨n <<< k, i - k, decide (n <<< k = 2 ^ 52)⟩ : Binary).Canonical := by
    constructor <;> simp <;> omega
  have hround : UnpackedFloat.round .binary64 .positive n i =
      .finite .positive (n <<< k) (i - k) hb.pos := by
    have htarget : ((i : Int) - max ((n.log2 : Int) + 1 + i - 53) (-1074)).toNat = k := by omega
    simp only [UnpackedFloat.round, decreaseExponent, targetExponent_eq, htarget]
    refine roundWithAccuracy_eq hb (Binary.covers_self _) .positive ?_ (.inr hshift.ge)
    exact mul_div_cancel_right₀ ((n <<< k : Nat) : ℚ) (by positivity)
  refine ⟨n <<< k, i - k, hb.pos, ?_, hlow, ?_⟩
  · show unpack .binary64 (pack .binary64 (.round .binary64 .positive n i)) = _
    rw [hround]
    exact unpack_pack hb .positive
  · rw [Nat.shiftLeft_eq, zpow_sub₀ (by norm_num), zpow_natCast, zpow_natCast]
    push_cast
    field_simp

theorem holds_toFloat {n : Nat} (hn : 0 < n) (h : n < 2 ^ 53) : Holds n.toUInt64.toFloat n := by
  have hnat : n.toUInt64.toNat = n := UInt64.toNat_ofNat_of_lt' (Nat.lt_trans h (by decide))
  have hround : UnpackedFloat.ofUInt64 .binary64 n.toUInt64 = .round .binary64 .positive n 0 := by
    simp only [ofUInt64, ofNat, hnat, ofInt, UnpackedFloat.normalize]
    rw [Int.compare_eq_gt.mpr (by omega)]
    rfl
  have hholds := holds_round (i := 0) hn h (by decide)
  simp only [pow_zero, mul_one, Nat.cast_zero] at hholds
  rwa [← hround] at hholds

theorem powersOfTen_eq : ∀ i : Fin 23,
    Float.exactlyRepresentablePowersOfTen[i] =
      .ofModel (.pack (.round .binary64 .positive (5 ^ i.val) i.val)) := by
  decide +kernel

theorem holds_powersOfTen {i : Nat} (h : i < Float.exactlyRepresentablePowersOfTen.size) :
    Holds Float.exactlyRepresentablePowersOfTen[i] (10 ^ i) := by
  have hi : i < 23 := h
  have hpow : 5 ^ i < 2 ^ 53 :=
    (Nat.pow_le_pow_right (by decide) (Nat.le_of_lt_succ hi)).trans_lt (by decide)
  have hholds := holds_round (i := i) (Nat.pow_pos (by decide)) hpow (by omega)
  have hten : ((5 ^ i : Nat) : ℚ) * 2 ^ i = 10 ^ i := by
    push_cast
    rw [← mul_pow]
    norm_num
  rw [hten, ← powersOfTen_eq ⟨i, h⟩] at hholds
  exact hholds

-- ---------------------------------------------------------------------------
-- Reading a decimal
-- ---------------------------------------------------------------------------

theorem two_pow_lt_ten_pow : (2 : ℚ) ^ (1075 : Int) < 10 ^ (330 : Int) := by
  have hnat : 2 ^ 1075 < 10 ^ 330 := by decide +kernel
  exact_mod_cast hnat

section
variable {n : Nat} {x : Int} {d : Decimal} (hb : b.Canonical)
include hb

theorem covers_bounds {q : ℚ} (hq : b.Covers q) : 10 ^ (-330 : Int) < q ∧ q < 10 ^ (330 : Int) := by
  obtain ⟨hlow, hhigh⟩ := hq.bounds
  have hpos : (1 : ℚ) ≤ b.mantissa := by exact_mod_cast hb.pos
  have hlt : (b.mantissa : ℚ) + 1 ≤ 2 ^ (53 : Int) := by exact_mod_cast hb.lt
  constructor
  · calc (10 : ℚ) ^ (-330 : Int) < 2 ^ (-1075 : Int) := by
          rw [zpow_neg, zpow_neg]
          exact inv_strictAnti₀ (by positivity) two_pow_lt_ten_pow
      _ = 1 / 2 * 2 ^ (-1074 : Int) := by
        rw [show (-1075 : Int) = -1074 - 1 from rfl, zpow_sub_one₀ (by norm_num)]
        ring
      _ ≤ (b.mantissa - 1 / 2) * 2 ^ b.exponent :=
        mul_le_mul (by linarith) (zpow_le_zpow_right₀ (by norm_num) hb.least) (by positivity)
          (by linarith)
      _ ≤ q := (half_below_le_low b).trans hlow
  · calc q ≤ (b.mantissa + 1 / 2) * 2 ^ b.exponent := hhigh
      _ ≤ 2 ^ (53 : Int) * 2 ^ (971 : Int) :=
        mul_le_mul (by linarith) (zpow_le_zpow_right₀ (by norm_num) hb.greatest) (by positivity)
          (by positivity)
      _ = 2 ^ (1024 : Int) := (zpow_add₀ (by norm_num) _ _).symm
      _ ≤ 2 ^ (1075 : Int) := zpow_le_zpow_right₀ (by norm_num) (by norm_num)
      _ < 10 ^ (330 : Int) := two_pow_lt_ten_pow

theorem digits_bounds (hq : b.Covers d.value) : d.digits ≠ 0 ∧
    -330 ≤ d.exponent + Decimal.width d.digits ∧ d.exponent + Decimal.width d.digits ≤ 330 := by
  obtain ⟨hlow, hhigh⟩ := covers_bounds hb hq
  have hzero : d.digits ≠ 0 := by
    intro h
    have hvalue : d.value = 0 := by simp [Decimal.value, h]
    exact (hvalue ▸ hlow).not_gt (by positivity)
  have hwidth := Decimal.width_pos d.digits
  have hten : (10 : ℚ) ≠ 0 := by norm_num
  have hlt : d.value < 10 ^ (d.exponent + Decimal.width d.digits) := by
    rw [zpow_add₀ hten, mul_comm, zpow_natCast]
    exact mul_lt_mul_of_pos_right (by exact_mod_cast Decimal.lt_pow_width d.digits) (by positivity)
  have hge : (10 : ℚ) ^ (d.exponent + Decimal.width d.digits - 1) ≤ d.value := by
    have hpow : ((10 ^ (Decimal.width d.digits - 1) : Nat) : ℚ) ≤ d.digits := by
      exact_mod_cast Decimal.pow_width_le hzero
    rw [add_sub_assoc, zpow_add₀ hten, mul_comm, ← Nat.cast_one, ← Nat.cast_sub hwidth,
      zpow_natCast]
    push_cast at hpow
    exact mul_le_mul_of_nonneg_right hpow (by positivity)
  refine ⟨hzero, ?_, ?_⟩
  · have hexp := (zpow_lt_zpow_iff_right₀ (by norm_num)).mp (hlow.trans hlt)
    omega
  · have hexp := (zpow_lt_zpow_iff_right₀ (by norm_num)).mp (hge.trans_lt hhigh)
    omega

variable (hv : v.toModel.unpack = .finite .positive b.mantissa b.exponent hb.pos)
include hv

theorem ofModel_pack_eq :
    .ofModel (.pack (.finite .positive b.mantissa b.exponent hb.pos)) = v := by
  rw [← hv, ofModel_pack_unpack]

theorem mul_eq_of_holds {u w : Float} {p q : ℚ} (hu : Holds u p) (hw : Holds w q)
    (hq : b.Covers (p * q)) : u * w = v := by
  obtain ⟨m₁, e₁, h₁, hu, hfull, rfl⟩ := hu
  obtain ⟨m₂, e₂, h₂, hw, -, rfl⟩ := hw
  have hlog : 52 ≤ (m₁ * m₂).log2 :=
    (Nat.le_log2 (by positivity)).mpr (hfull.trans (Nat.le_mul_of_pos_right m₁ h₂))
  show Float.ofModel (.pack (UnpackedFloat.mul .binary64 u.toModel.unpack w.toModel.unpack)) = v
  rw [hu, hw, mul_eq hb hq hlog]
  exact ofModel_pack_eq hb hv

theorem div_eq_of_holds {u w : Float} {p q : ℚ} (hu : Holds u p) (hw : Holds w q)
    (hq : b.Covers (p / q)) : u / w = v := by
  obtain ⟨m₁, e₁, h₁, hu, -, rfl⟩ := hu
  obtain ⟨m₂, e₂, h₂, hw, -, rfl⟩ := hw
  show Float.ofModel (.pack (UnpackedFloat.div .binary64 u.toModel.unpack w.toModel.unpack)) = v
  rw [hu, hw, div_eq hb hq]
  exact ofModel_pack_eq hb hv

theorem ofModel_ofScientific (hq : b.Covers d.value) :
    Float.ofModel (.ofScientific d.digits d.exponent) = v := by
  obtain ⟨hn, hlow, hhigh⟩ := digits_bounds hb hq
  have hwidth : Decimal.width d.digits ≤ d.digits.log2 + 1 :=
    (Nat.length_toDigits_le_iff (by decide) (by omega)).mpr
      (Nat.lt_log2_self.trans_le (Nat.pow_le_pow_left (by decide) _))
  rw [← ofModel_pack_eq hb hv]
  show Float.ofModel (.pack (UnpackedFloat.ofScientific .binary64 d.digits d.exponent)) = _
  congr 2
  rw [UnpackedFloat.ofScientific, dif_neg hn, if_neg (by simp; omega), if_neg (by simp; omega)]
  split
  · rename_i hexp
    refine mul_eq hb ?_ ?_
    · have hvalue : ((d.digits <<< 53 : Nat) : ℚ) * 2 ^ (-(53 : Nat) : Int) *
          ((10 ^ d.exponent.toNat : Nat) * 2 ^ (0 : Int)) = d.value := by
        rw [Decimal.value_of_nonneg hexp, Nat.shiftLeft_eq, zpow_neg, zpow_natCast, zpow_zero,
          mul_one, Nat.cast_mul, Nat.cast_pow, Nat.cast_pow, Nat.cast_ofNat, Nat.cast_ofNat,
          mul_inv_cancel_right₀ (by norm_num)]
      exact hvalue ▸ hq
    · have hge : 2 ^ 52 ≤ d.digits <<< 53 * 10 ^ d.exponent.toNat := by
        rw [Nat.shiftLeft_eq]
        exact Nat.le_mul_of_pos_right _ (by positivity) |>.trans' (by omega)
      exact (Nat.le_log2 (Nat.lt_of_lt_of_le (by decide) hge).ne').mpr hge
  · rename_i hexp
    refine div_eq hb ?_
    have hvalue : (d.digits : ℚ) * 2 ^ (0 : Int) /
        ((10 ^ (-d.exponent).toNat : Nat) * 2 ^ (0 : Int)) = d.value := by
      rw [Decimal.value_of_nonpos (by omega)]
      simp
    exact hvalue ▸ hq

theorem toFloat_eq (hq : b.Covers d.value) : d.toFloat = v := by
  obtain ⟨hn, hlow, hhigh⟩ := digits_bounds hb hq
  have hslow := ofModel_ofScientific hb hv hq
  simp only [Decimal.toFloat]
  rw [if_neg (by omega), if_neg (by omega)]
  split
  · rename_i hexp
    simp only [Float.ofScientific, Bool.false_eq_true, if_false]
    split
    · -- Both factors are exact, so that only the product is rounded.
      rename_i hfast
      rw [Decimal.value_of_nonneg hexp] at hq
      exact mul_eq_of_holds hb hv (holds_toFloat (by omega) hfast.1) (holds_powersOfTen _) hq
    · rw [Int.ofNat_eq_natCast, Int.toNat_of_nonneg hexp]
      exact hslow
  · rename_i hexp
    simp only [Float.ofScientific, if_true]
    split
    · rename_i hfast
      rw [Decimal.value_of_nonpos (by omega)] at hq
      exact div_eq_of_holds hb hv (holds_toFloat (by omega) hfast.1) (holds_powersOfTen _) hq
    · rw [Int.negOfNat_eq, Int.ofNat_eq_natCast, Int.toNat_of_nonneg (by omega), neg_neg]
      exact hslow

end

-- ---------------------------------------------------------------------------
-- Text
-- ---------------------------------------------------------------------------

section
variable {cs : List Char}

theorem readSpecial?_eq_none (h : ∀ c ∈ cs, c.isDigit = true ∨ c = '.') :
    readSpecial? cs = none := by
  have hlower {c : Char} (hc : c.isDigit = true ∨ c = '.') : c.toLower ≠ 'n' := by
    intro heq
    have halpha : c.isAlpha = true := by rw [← Char.isAlpha_toLower_eq_isAlpha, heq]; rfl
    obtain hc | rfl := hc
    · simp [Char.isAlpha, Char.isUpper, Char.isLower, Char.isDigit, UInt32.le_iff_toNat_le]
        at halpha hc
      omega
    · cases halpha
  -- Each of the names has an `n` in it.
  have hn : 'n' ∉ (String.ofList (cs.map Char.toLower)).toList := by
    rw [String.toList_ofList, List.mem_map]
    rintro ⟨c, hc, heq⟩
    exact hlower (h c hc) heq
  unfold readSpecial?
  simp only
  rw [if_neg, if_neg]
  · intro heq
    exact hn (heq ▸ by decide)
  · rintro (heq | heq) <;> exact hn (heq ▸ by decide)

theorem splitSign_eq (h : ∀ c ∈ cs, c.isDigit = true ∨ c = '.') :
    Decimal.splitSign cs = (false, cs) := by
  cases cs with
  | nil => rfl
  | cons c cs =>
    have hc := h c (by simp)
    unfold Decimal.splitSign
    split
    · rename_i heq
      cases heq
      exact absurd hc (by decide)
    · rename_i heq
      cases heq
      exact absurd hc (by decide)
    · rfl

end

/-- The text of a finite float reads back to the float. -/
theorem read?_text (h : v.isFinite = true) : read? (text v) = some v := by
  obtain ⟨s, e, m, he, rfl⟩ := exists_fields h
  by_cases hz : e = 0 ∧ m = 0
  · obtain ⟨rfl, rfl⟩ := hz
    revert he
    cases s <;> decide
  · have hb := canonical_magnitude he hz
    obtain ⟨d, hread, hvalue⟩ := Decimal.exists_read?_positional (magnitude e m).shortest
    have hfloat : d.toFloat = ofFields .positive e m he :=
      toFloat_eq hb (unpack_ofFields_of_ne he hz) (hvalue ▸ Binary.covers_shortest hb)
    have hchars := fun c => Decimal.mem_positional (d := (magnitude e m).shortest) (c := c)
    rw [text_ofFields hz, sign_ofFields, ofFloat_ofFields]
    cases s with
    | positive =>
      simp [read?, splitSign_eq hchars, readSpecial?_eq_none hchars, hread, hfloat]
    | negative =>
      simp [read?, Decimal.splitSign, readSpecial?_eq_none hchars, hread, hfloat, neg_ofFields]
      rfl

end SlopeField.Binary64
