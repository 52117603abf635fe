import SlopeField.Proofs.Binary64.Text

/-!
# The order of floats

The floats that are numbers stand in a row, with the infinities at its ends
(`place`), and are compared by their places (`le_iff_place`). Rounding never
passes a float (`RoundsTo.rank_le`, `RoundsTo.le_rank`), so a sum lies on that
side of its first operand to which the second one points (`place_add`,
`le_add_and_add_le`).
-/

namespace SlopeField.Binary64

open Float.Model (Format UnpackedFloat)
open Float.Model.UnpackedFloat

variable {q : ℚ} {p : Int} {m m₁ m₂ : Nat} {e e₁ e₂ : Int} {s : Sign} {a : Accuracy}

-- ---------------------------------------------------------------------------
-- Magnitudes in a row
-- ---------------------------------------------------------------------------

/-- The mantissa is full unless the exponent is least, as for zero. -/
structure Aligned (m : Nat) (e : Int) : Prop where
  lt : m < 2 ^ 53
  least : -1074 ≤ e
  full : 2 ^ 52 ≤ m ∨ e = -1074

/-- The number of magnitudes below this one. -/
def rank (m : Nat) (e : Int) : Int := (e + 1074) * 2 ^ 52 + m

theorem Aligned.rank_nonneg (h : Aligned m e) : 0 ≤ rank m e := by
  have := h.least
  unfold rank
  omega

theorem Aligned.compare_rank (h₁ : Aligned m₁ e₁) (h₂ : Aligned m₂ e₂) :
    (compare e₁ e₂).then (compare m₁ m₂) = compare (rank m₁ e₁) (rank m₂ e₂) := by
  obtain ⟨hlt₁, hleast₁, hfull₁⟩ := h₁
  obtain ⟨hlt₂, hleast₂, hfull₂⟩ := h₂
  unfold rank
  obtain h | rfl | h := lt_trichotomy e₁ e₂
  · rw [Int.compare_eq_lt.mpr h, Int.compare_eq_lt.mpr (by omega)]
    rfl
  · rw [Int.compare_eq_eq.mpr rfl]
    obtain h | rfl | h := lt_trichotomy m₁ m₂
    · rw [Nat.compare_eq_lt.mpr h, Int.compare_eq_lt.mpr (by omega)]
      rfl
    · rw [Nat.compare_eq_eq.mpr rfl, Int.compare_eq_eq.mpr rfl]
      rfl
    · rw [Nat.compare_eq_gt.mpr h, Int.compare_eq_gt.mpr (by omega)]
      rfl
  · rw [Int.compare_eq_gt.mpr h, Int.compare_eq_gt.mpr (by omega)]
    rfl

def RoundsTo (q : ℚ) (p : Int) : Prop :=
  ∃ t m a, -1074 ≤ t ∧ FitsAt q t ∧ Accurate (q / 2 ^ t) m a ∧
    p = rank (a.roundToNearestEven m) t

theorem Aligned.value_lt (h : Aligned m e) {t : Int} (het : e < t) :
    (m * 2 ^ e : ℚ) < 2 ^ 52 * 2 ^ t := by
  have hm : (m : ℚ) < 2 ^ 53 := by exact_mod_cast h.lt
  calc (m * 2 ^ e : ℚ) < 2 ^ 53 * 2 ^ e := by gcongr
    _ = 2 ^ 52 * 2 ^ (e + 1) := by rw [zpow_add_one₀ (by norm_num)]; ring
    _ ≤ 2 ^ 52 * 2 ^ t := by gcongr; exacts [by norm_num, het]

theorem Aligned.le_value (h : Aligned m e) {t : Int} (ht : -1074 ≤ t) (hte : t < e) :
    2 ^ 52 ≤ m ∧ (2 ^ 53 * 2 ^ t : ℚ) ≤ m * 2 ^ e := by
  have hfull : 2 ^ 52 ≤ m := h.full.resolve_right (by omega)
  have hm : (2 ^ 52 : ℚ) ≤ m := by exact_mod_cast hfull
  refine ⟨hfull, ?_⟩
  calc (2 ^ 53 * 2 ^ t : ℚ) = 2 ^ 52 * 2 ^ (t + 1) := by rw [zpow_add_one₀ (by norm_num)]; ring
    _ ≤ 2 ^ 52 * 2 ^ e := by gcongr; exacts [by norm_num, hte]
    _ ≤ m * 2 ^ e := by gcongr

theorem FitsAt.round_le {t : Int} (h : FitsAt q t) (ha : Accurate (q / 2 ^ t) m a) :
    a.roundToNearestEven m ≤ 2 ^ 53 := by
  have hlt : q / 2 ^ t < 2 ^ 53 := (div_lt_iff₀ (by positivity)).mpr h.1
  exact ha.round_le (by push_cast; linarith) (absurd · (by decide))

theorem FitsAt.le_round {t : Int} (h : FitsAt q t) (ha : Accurate (q / 2 ^ t) m a) :
    2 ^ 52 ≤ a.roundToNearestEven m ∨ t = -1074 := by
  refine h.2.symm.imp_left fun hge => ?_
  have hge : (2 ^ 52 : ℚ) ≤ q / 2 ^ t := (le_div_iff₀ (by positivity)).mpr hge
  exact ha.le_round (by push_cast; linarith) (absurd · (by decide))

theorem RoundsTo.rank_le (h : RoundsTo q p) (hm : Aligned m e) (hle : m * 2 ^ e ≤ q) :
    rank m e ≤ p := by
  obtain ⟨t, c, a, ht, hfits, hacc, rfl⟩ := h
  have hunit : (0 : ℚ) < 2 ^ t := by positivity
  unfold rank
  obtain het | rfl | hte := lt_trichotomy e t
  · have := hfits.le_round hacc
    have := hm.lt
    have := hm.least
    omega
  · have hle : (m : ℚ) ≤ q / 2 ^ e := (le_div_iff₀ hunit).mpr hle
    have hround := hacc.le_round (k := m) (by linarith) fun _ => by linarith
    omega
  · have := (hm.le_value ht hte).2
    have := hfits.1
    linarith

theorem RoundsTo.le_rank (h : RoundsTo q p) (hm : Aligned m e) (hle : q ≤ m * 2 ^ e) :
    p ≤ rank m e := by
  obtain ⟨t, c, a, ht, hfits, hacc, rfl⟩ := h
  have hunit : (0 : ℚ) < 2 ^ t := by positivity
  unfold rank
  obtain het | rfl | hte := lt_trichotomy e t
  · have := hm.value_lt het
    have := hfits.2.resolve_left (by have := hm.least; omega)
    linarith
  · have hle : q / 2 ^ e ≤ m := (div_le_iff₀ hunit).mpr hle
    have hround := hacc.round_le (k := m) (by linarith) fun _ => by linarith
    omega
  · have := hfits.round_le hacc
    have := (hm.le_value ht hte).1
    omega

theorem RoundsTo.nonneg (h : RoundsTo q p) (hq : 0 ≤ q) : 0 ≤ p := by
  have hzero : Aligned 0 (-1074) := ⟨by decide, by decide, .inr rfl⟩
  simpa [rank] using h.rank_le hzero (by simpa using hq)

-- ---------------------------------------------------------------------------
-- Places
-- ---------------------------------------------------------------------------

/-- The place in the row, zero in the middle. What is not a number has none. -/
def place : UnpackedFloat → Int
  | .notANumber => 0
  | .infinity s => s.apply (2047 * 2 ^ 52)
  | .zero _ => 0
  | .finite s m e _ => s.apply (rank m e)

theorem place_infinity (s : Sign) : place (.infinity s) = s.apply (2047 * 2 ^ 52) := rfl

inductive Rounded : UnpackedFloat → Prop
  | zero (s : Sign) : Rounded (.zero s)
  | finite (s : Sign) {m : Nat} {e : Int} (h : 0 < m) : Aligned m e → Rounded (.finite s m e h)

theorem Aligned.rank_pos (h : Aligned m e) (hm : 0 < m) : 0 < rank m e := by
  have := h.least
  unfold rank
  omega

theorem Rounded.le_iff {u w : UnpackedFloat} (hu : Rounded u) (hw : Rounded w) :
    u.le w = true ↔ place u ≤ place w := by
  unfold UnpackedFloat.le
  cases hu with
  | zero s =>
    cases hw with
    | zero s' => simp [UnpackedFloat.compare, place]
    | finite s' hm' h' =>
      have := h'.rank_pos hm'
      cases s' <;> simp [UnpackedFloat.compare, place, Sign.apply] <;> omega
  | finite s hm h =>
    have := h.rank_pos hm
    cases hw with
    | zero s' => cases s <;> simp [UnpackedFloat.compare, place, Sign.apply] <;> omega
    | finite s' hm' h' =>
      have := h'.rank_pos hm'
      cases s <;> cases s' <;>
        simp only [UnpackedFloat.compare, place, Sign.apply, h.compare_rank h', Option.any_some]
      · rw [Int.compare_swap, Int.isLE_compare, neg_le_neg_iff]
      · simp; omega
      · simp; omega
      · exact Int.isLE_compare

def Placed (u : UnpackedFloat) : Prop :=
  (∃ s, u = .infinity s) ∨ Rounded u ∧ |place u| < 2047 * 2 ^ 52

theorem Placed.le_iff {u w : UnpackedFloat} (hu : Placed u) (hw : Placed w) :
    u.le w = true ↔ place u ≤ place w := by
  obtain ⟨s, rfl⟩ | ⟨hu, hlt⟩ := hu
  · obtain ⟨s', rfl⟩ | ⟨hw, hlt⟩ := hw
    · cases s <;> cases s' <;> decide
    · rw [abs_lt] at hlt
      have hcompare : (UnpackedFloat.infinity s).le w = true ↔ s = .negative := by
        cases s <;> cases hw <;> simp [UnpackedFloat.le, UnpackedFloat.compare]
      rw [hcompare, place_infinity]
      cases s <;> simp [Sign.apply] <;> omega
  · obtain ⟨s', rfl⟩ | ⟨hw, -⟩ := hw
    · rw [abs_lt] at hlt
      have hcompare : u.le (.infinity s') = true ↔ s' = .positive := by
        cases s' <;> cases hu <;> simp [UnpackedFloat.le, UnpackedFloat.compare]
      rw [hcompare, place_infinity]
      cases s' <;> simp [Sign.apply] <;> omega
    · exact hu.le_iff hw

theorem rounded_of_isFinite {v : Float} (h : v.isFinite = true) :
    Rounded v.toModel.unpack ∧ |place v.toModel.unpack| < 2047 * 2 ^ 52 := by
  obtain ⟨s, x, f, hx, rfl⟩ := exists_fields h
  obtain ⟨u, hu, hfields⟩ := unpack_packComponents hx f
  rw [unpack_ofFields, hfields s]
  obtain ⟨-, rfl⟩ | ⟨hz, hpos, rfl⟩ := hu
  · exact ⟨.zero s, by simp [place]⟩
  · obtain ⟨hm, hlt, hleast, hgreatest, hfull, -⟩ := canonical_magnitude hx hz
    refine ⟨.finite s _ ⟨hlt, hleast, hfull⟩, ?_⟩
    rw [abs_lt]
    cases s <;> simp only [place, Sign.apply, rank] <;> omega

theorem placed {v : Float} (h : v.isNaN = false) : Placed v.toModel.unpack := by
  by_cases hv : v.isFinite = true
  · exact .inr (rounded_of_isFinite hv)
  · rw [Float.isFinite, Float.Model.isFinite] at hv
    rw [Float.isNaN, Float.Model.isNaN] at h
    generalize v.toModel.unpack = u at h hv ⊢
    cases u with
    | notANumber => cases h
    | infinity s => exact .inl ⟨s, rfl⟩
    | zero | finite => exact (hv rfl).elim

/-- Floats are compared by their places. -/
theorem le_iff_place {v w : Float} (hv : v.isNaN = false) (hw : w.isNaN = false) :
    v ≤ w ↔ place v.toModel.unpack ≤ place w.toModel.unpack :=
  decide_eq_true_iff.trans ((placed hv).le_iff (placed hw))

-- ---------------------------------------------------------------------------
-- Rounding
-- ---------------------------------------------------------------------------

theorem aligned_shiftToTargetExponent {k : Nat} {t : Int} (hk : k ≤ 2 ^ 53) (ht : -1074 ≤ t)
    (hfull : 2 ^ 52 ≤ k ∨ t = -1074) :
    Aligned (shiftToTargetExponent .binary64 k t .exact).1.mantissa
        (shiftToTargetExponent .binary64 k t .exact).2 ∧
      rank (shiftToTargetExponent .binary64 k t .exact).1.mantissa
        (shiftToTargetExponent .binary64 k t .exact).2 = rank k t := by
  obtain hlt | rfl := Nat.lt_or_eq_of_le hk
  · have hlog := log2_le_of_lt (k := 52) hlt
    rw [shiftToTargetExponent_self (by omega)]
    exact ⟨⟨hlt, ht, hfull⟩, rfl⟩
  · have hlog : Nat.log2 (2 ^ 53) = 53 := Nat.log2_two_pow
    have hhalf : (ExtendedMantissa.ofMantissaAndAccuracy (2 ^ 53) .exact >>> 1).mantissa =
      2 ^ 52 := rfl
    rw [shiftToTargetExponent_eq (t := t + 1) (by omega) (by omega), add_sub_cancel_left]
    simp only [Int.toNat_one, hhalf]
    refine ⟨⟨by decide, by omega, .inl le_rfl⟩, ?_⟩
    unfold rank
    omega

/-- The result of rounding lies where the number is rounded to, on the side of
the sign. -/
theorem roundsTo_roundWithAccuracy (s : Sign) (ha : Accurate (q / 2 ^ e) m a)
    (hfine : e ≤ -1074 ∨ 52 ≤ m.log2) :
    ∃ p, RoundsTo q p ∧ place (roundWithAccuracy .binary64 s m e a) = s.apply p ∧
      Rounded (roundWithAccuracy .binary64 s m e a) := by
  generalize ht : max (m.log2 + 1 + e - 53) (-1074) = t
  have hfits := ha.fitsAt hfine ht
  have hem := ha.shiftRight (t - e).toNat
  rw [div_div, ← zpow_natCast, Int.toNat_of_nonneg (by omega), ← zpow_add₀ (by norm_num),
    add_sub_cancel] at hem
  refine ⟨_, ⟨t, _, _, by omega, hfits, hem, rfl⟩, ?_⟩
  simp only [roundWithAccuracy, shiftToTargetExponent_eq (a := a) (by omega) ht,
    ExtendedMantissa.roundedMantissa]
  obtain ⟨haligned, hrank⟩ := aligned_shiftToTargetExponent (hfits.round_le hem) (by omega)
    (hfits.le_round hem)
  split
  · rename_i hzero
    rw [hzero] at haligned hrank
    have hexp := haligned.full.resolve_left (by decide)
    rw [hexp] at hrank
    rw [← hrank]
    cases s <;> exact ⟨rfl, .zero _⟩
  · rename_i hne
    exact ⟨by rw [place, hrank], .finite s _ haligned⟩

theorem roundsTo_round (s : Sign) (hm : m ≠ 0) :
    ∃ p, RoundsTo (m * 2 ^ e) p ∧ place (UnpackedFloat.round .binary64 s m e) = s.apply p ∧
      Rounded (UnpackedFloat.round .binary64 s m e) := by
  simp only [UnpackedFloat.round, decreaseExponent, targetExponent_eq]
  generalize hk : (e - max ((m.log2 : Int) + 1 + e - 53) (-1074)).toNat = k
  have hlog := log2_shiftLeft hm k
  refine roundsTo_roundWithAccuracy s (a := .exact) ?_ (by omega)
  show (m * 2 ^ e / 2 ^ (e - k) : ℚ) = (m <<< k : Nat)
  rw [zpow_sub₀ (by norm_num), zpow_natCast, Nat.shiftLeft_eq]
  push_cast
  field_simp

theorem roundsTo_zero : RoundsTo 0 0 :=
  ⟨-1074, 0, .exact, le_rfl, ⟨by positivity, .inl rfl⟩, by simp [Accurate], rfl⟩

theorem roundsTo_normalize (n e : Int) (z : Sign) :
    ∃ (s : Sign) (m : Nat) (p : Int), n = s.apply m ∧ RoundsTo (m * 2 ^ e) p ∧
      place (UnpackedFloat.normalize .binary64 n e z) = s.apply p ∧
      Rounded (UnpackedFloat.normalize .binary64 n e z) := by
  unfold UnpackedFloat.normalize
  obtain hlt | rfl | hgt := lt_trichotomy n 0
  · rw [Int.compare_eq_lt.mpr hlt]
    obtain ⟨p, h⟩ := roundsTo_round (e := e) .negative (by omega : (-n).toNat ≠ 0)
    exact ⟨.negative, (-n).toNat, p, by simp only [Sign.apply]; omega, h⟩
  · exact ⟨.positive, 0, 0, rfl, by simpa using roundsTo_zero, rfl, .zero z⟩
  · rw [Int.compare_eq_gt.mpr hgt]
    obtain ⟨p, h⟩ := roundsTo_round (e := e) .positive (by omega : n.toNat ≠ 0)
    exact ⟨.positive, n.toNat, p, by simp only [Sign.apply]; omega, h⟩

theorem apply_neg (s : Sign) (n : Int) : (-s).apply n = -s.apply n := by
  cases s
  · exact (neg_neg n).symm
  · rfl

section
variable {s' : Sign} {n : Nat} {x : Int}

theorem RoundsTo.apply_rank_le (h : RoundsTo (n * 2 ^ x) p) (hm : Aligned m e)
    (hle : (s.apply m : ℚ) * 2 ^ e ≤ s'.apply n * 2 ^ x) : s.apply (rank m e) ≤ s'.apply p := by
  have hrank := hm.rank_nonneg
  have hvalue : (0 : ℚ) ≤ m * 2 ^ e := by positivity
  have hnumber : (0 : ℚ) ≤ n * 2 ^ x := by positivity
  have hp := h.nonneg hnumber
  cases s <;> cases s' <;> simp only [Sign.apply] at hle ⊢ <;> push_cast at hle
  · exact neg_le_neg (h.le_rank hm (by linarith))
  · omega
  · -- Both numbers are zero.
    have hzero : p ≤ rank 0 (-1074) :=
      h.le_rank ⟨by decide, by decide, .inr rfl⟩ (by simp; linarith)
    have := h.rank_le hm (by linarith)
    simp only [rank] at hzero
    omega
  · exact h.rank_le hm hle

theorem RoundsTo.le_apply_rank (h : RoundsTo (n * 2 ^ x) p) (hm : Aligned m e)
    (hle : s'.apply n * 2 ^ x ≤ (s.apply m : ℚ) * 2 ^ e) : s'.apply p ≤ s.apply (rank m e) := by
  have hneg : (-s).apply (rank m e) ≤ (-s').apply p := by
    refine h.apply_rank_le hm ?_
    simp only [apply_neg]
    push_cast
    linarith
  simpa only [apply_neg, neg_le_neg_iff] using hneg

end

-- ---------------------------------------------------------------------------
-- Sums
-- ---------------------------------------------------------------------------

theorem value_shiftLeft (s : Sign) (m : Nat) {d : Int} (h : d ≤ e) :
    (s.apply (m <<< (e - d).toNat : Nat) : ℚ) * 2 ^ d = s.apply m * 2 ^ e := by
  have hexp : (2 : ℚ) ^ e = 2 ^ (e - d).toNat * 2 ^ d := by
    rw [← zpow_natCast, ← zpow_add₀ (by norm_num)]
    congr 1
    omega
  cases s <;> simp only [Sign.apply, Nat.shiftLeft_eq] <;> push_cast <;> rw [hexp] <;> ring

theorem roundsTo_add (s s' : Sign) (h₁ : 0 < m₁) (h₂ : 0 < m₂) (e₁ e₂ : Int) :
    ∃ (s'' : Sign) (n : Nat) (d p : Int), RoundsTo (n * 2 ^ d) p ∧
      (s''.apply n * 2 ^ d : ℚ) = s.apply m₁ * 2 ^ e₁ + s'.apply m₂ * 2 ^ e₂ ∧
      place (UnpackedFloat.add .binary64 (.finite s m₁ e₁ h₁) (.finite s' m₂ e₂ h₂)) =
        s''.apply p ∧
      Rounded (UnpackedFloat.add .binary64 (.finite s m₁ e₁ h₁) (.finite s' m₂ e₂ h₂)) := by
  simp only [UnpackedFloat.add, decreaseExponent]
  generalize hd : min e₁ e₂ = d
  obtain ⟨s'', n, p, hn, hround, hresult⟩ := roundsTo_normalize
    (s.apply (m₁ <<< (e₁ - d).toNat : Nat) + s'.apply (m₂ <<< (e₂ - d).toNat : Nat)) d .positive
  refine ⟨s'', n, d, p, hround, ?_, hresult⟩
  rw [← value_shiftLeft s m₁ (by omega : d ≤ e₁), ← value_shiftLeft s' m₂ (by omega : d ≤ e₂),
    ← add_mul]
  congr 1
  exact_mod_cast hn.symm

/-- A sum of two finite numbers that are not zero is rounded, and lies on that
side of the first to which the second points. -/
theorem add_finite (s s' : Sign) (h₁ : 0 < m₁) (h₂ : 0 < m₂) (e₂ : Int) (hm : Aligned m₁ e₁) :
    Rounded (UnpackedFloat.add .binary64 (.finite s m₁ e₁ h₁) (.finite s' m₂ e₂ h₂)) ∧
    (s' = .positive → s.apply (rank m₁ e₁) ≤
      place (UnpackedFloat.add .binary64 (.finite s m₁ e₁ h₁) (.finite s' m₂ e₂ h₂))) ∧
    (s' = .negative → place (UnpackedFloat.add .binary64 (.finite s m₁ e₁ h₁)
      (.finite s' m₂ e₂ h₂)) ≤ s.apply (rank m₁ e₁)) := by
  obtain ⟨s'', n, d, p, hround, hsum, hplace, hrounded⟩ := roundsTo_add s s' h₁ h₂ e₁ e₂
  have hpos : (0 : ℚ) < m₂ * 2 ^ e₂ := by positivity
  rw [hplace]
  refine ⟨hrounded, ?_, ?_⟩
  · rintro rfl
    refine hround.apply_rank_le hm ?_
    rw [hsum]
    exact le_add_of_nonneg_right hpos.le
  · rintro rfl
    refine hround.le_apply_rank hm ?_
    rw [hsum]
    simp only [Sign.apply]
    push_cast
    linarith

theorem place_add {u x : UnpackedFloat} (hu : Rounded u) (hx : Rounded x) :
    Rounded (UnpackedFloat.add .binary64 u x) ∧
    (0 ≤ place x → place u ≤ place (UnpackedFloat.add .binary64 u x)) ∧
    (place x ≤ 0 → place (UnpackedFloat.add .binary64 u x) ≤ place u) := by
  cases hu with
  | zero s =>
    cases hx with
    | zero s' => cases s <;> cases s' <;> exact ⟨.zero _, fun _ => le_rfl, fun _ => le_rfl⟩
    | finite s' hm' h' => exact ⟨.finite s' hm' h', id, id⟩
  | finite s hm h =>
    cases hx with
    | zero s' => exact ⟨.finite s hm h, fun _ => le_rfl, fun _ => le_rfl⟩
    | @finite s' m' e' hm' h' =>
      obtain ⟨hrounded, hle, hge⟩ := add_finite s s' hm hm' e' h
      have hpos := h'.rank_pos hm'
      refine ⟨hrounded, fun hs => hle ?_, fun hs => hge ?_⟩ <;> cases s' <;>
        simp only [place, Sign.apply] at hs <;> first | rfl | omega

theorem place_unpack_pack {u : UnpackedFloat} (h : Rounded u) :
    (unpack .binary64 (pack .binary64 u)).isNaN = false ∧
      place (unpack .binary64 (pack .binary64 u)) =
        max (-(2047 * 2 ^ 52)) (min (place u) (2047 * 2 ^ 52)) := by
  cases h with
  | zero s => cases s <;> exact ⟨by decide, by decide⟩
  | @finite s m e hm h =>
    have hrank := h.rank_nonneg
    obtain ⟨hlt, hleast, hfull⟩ := h
    by_cases he : e ≤ 971
    · have hb : (⟨m, e, decide (m = 2 ^ 52 ∧ -1074 < e)⟩ : Binary).Canonical :=
        ⟨hm, hlt, hleast, he, hfull, by simp⟩
      rw [unpack_pack hb s]
      refine ⟨rfl, ?_⟩
      cases s <;> simp only [place, Sign.apply, rank] at hrank ⊢ <;> omega
    · have hinf : pack .binary64 (.finite s m e hm) = packedInfinity .binary64 s := by
        have hbias : (Format.exponentBias .binary64 : Int) = 1023 := rfl
        rw [pack, if_pos]
        show 2 ^ 11 ≤ (e + Format.exponentBias .binary64 + (52 : Nat)).toNat + 1
        omega
      have hunpack : unpack .binary64 (packedInfinity .binary64 s) = .infinity s := by
        cases s <;> rfl
      rw [hinf, hunpack]
      refine ⟨rfl, ?_⟩
      cases s <;> simp only [place, Sign.apply, rank] at hrank ⊢ <;> omega

section
variable {v w : Float}

theorem add_eq_of_unpack {x : Float} (h : UnpackedFloat.add .binary64 v.toModel.unpack
    w.toModel.unpack = x.toModel.unpack) : v + w = x := by
  rw [← ofModel_pack_unpack x, ← h]
  rfl

theorem isNaN_of_isFinite (h : v.isFinite = true) : v.isNaN = false := by
  obtain ⟨s, x, f, hx, rfl⟩ := exists_fields h
  exact status_ofFields.2.1

theorem place_zero : (0 : Float).isNaN = false ∧ place (0 : Float).toModel.unpack = 0 := by
  decide

theorem nonneg_iff_place (h : v.isNaN = false) : 0 ≤ v ↔ 0 ≤ place v.toModel.unpack := by
  rw [le_iff_place place_zero.1 h, place_zero.2]

theorem nonpos_iff_place (h : v.isNaN = false) : v ≤ 0 ↔ place v.toModel.unpack ≤ 0 := by
  rw [le_iff_place h place_zero.1, place_zero.2]

/-- A sum lies on that side of its first operand to which the second points. -/
theorem le_add_and_add_le (hv : v.isNaN = false) (hw : w.isFinite = true) :
    (v + w).isNaN = false ∧ (0 ≤ w → v ≤ v + w) ∧ (w ≤ 0 → v + w ≤ v) := by
  have hw' := isNaN_of_isFinite hw
  rw [nonneg_iff_place hw', nonpos_iff_place hw']
  have hwr := (rounded_of_isFinite hw).1
  obtain ⟨s, hinf⟩ | ⟨hvr, hlt⟩ := placed hv
  · have hsum : v + w = v := by
      refine add_eq_of_unpack ?_
      rw [hinf]
      generalize w.toModel.unpack = x at hwr ⊢
      cases hwr <;> rfl
    rw [hsum]
    have hself : v ≤ v := (le_iff_place hv hv).mpr le_rfl
    exact ⟨hv, fun _ => hself, fun _ => hself⟩
  · obtain ⟨hrounded, hle, hge⟩ := place_add hvr hwr
    obtain ⟨hnan, hplace⟩ := place_unpack_pack hrounded
    have hnan : (v + w).isNaN = false := hnan
    have hplace : place (v + w).toModel.unpack = _ := hplace
    rw [abs_lt] at hlt
    rw [le_iff_place hv hnan, le_iff_place hnan hv, hplace]
    exact ⟨hnan, fun h => by have := hle h; omega, fun h => by have := hge h; omega⟩

end

end SlopeField.Binary64
