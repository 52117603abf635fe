import SlopeField.Proofs.Binary64.Order

/-!
# What operations on floats keep

Negation turns the order around, division by a positive number keeps the side
of zero, and a result is finite only if the operands that it is scaled or
shifted by are.
-/

namespace SlopeField.Binary64

open Float.Model (Format UnpackedFloat)
open Float.Model.UnpackedFloat

variable {v w : Float}

-- ---------------------------------------------------------------------------
-- Values that are not finite
-- ---------------------------------------------------------------------------

theorem isFinite_of_pack {u : UnpackedFloat} (h : (Float.ofModel (.pack u)).isFinite = true) :
    u.isFinite = true := by
  cases u with
  | notANumber => exact absurd h (by decide)
  | infinity s => cases s <;> exact absurd h (by decide)
  | zero | finite => rfl

theorem isFinite_of_add (h : (v + w).isFinite = true) : w.isFinite = true := by
  have h := isFinite_of_pack h
  show w.toModel.unpack.isFinite = true
  generalize v.toModel.unpack = u at h
  generalize w.toModel.unpack = x at h ⊢
  cases x with
  | zero | finite => rfl
  | notANumber => cases u <;> cases h
  | infinity s =>
    cases u with
    | infinity s' => cases s <;> cases s' <;> cases h
    | notANumber | zero | finite => cases h

/-- An operation that gives nothing finite for a first operand that is not. -/
theorem isFinite_left (op : UnpackedFloat → UnpackedFloat → UnpackedFloat)
    (hnan : ∀ x, (op .notANumber x).isFinite = false)
    (hinf : ∀ s x, (op (.infinity s) x).isFinite = false)
    (h : (Float.ofModel (.pack (op v.toModel.unpack w.toModel.unpack))).isFinite = true) :
    v.isFinite = true := by
  have h := isFinite_of_pack h
  show v.toModel.unpack.isFinite = true
  generalize v.toModel.unpack = u at h ⊢
  cases u with
  | zero | finite => rfl
  | notANumber => exact absurd h (Bool.eq_false_iff.mp (hnan _))
  | infinity s => exact absurd h (Bool.eq_false_iff.mp (hinf s _))

theorem isFinite_left_of_add (h : (v + w).isFinite = true) : v.isFinite = true :=
  isFinite_left (UnpackedFloat.add .binary64) (fun x => by cases x <;> rfl)
    (fun s x => by
      cases x with
      | infinity s' => cases s <;> cases s' <;> rfl
      | notANumber | zero | finite => rfl) h

theorem isFinite_of_mul (h : (v * w).isFinite = true) : v.isFinite = true :=
  isFinite_left (UnpackedFloat.mul .binary64) (fun x => by cases x <;> rfl)
    (fun _ x => by cases x <;> rfl) h

theorem isFinite_of_div (h : (v / w).isFinite = true) : v.isFinite = true :=
  isFinite_left (UnpackedFloat.div .binary64) (fun x => by cases x <;> rfl)
    (fun _ x => by cases x <;> rfl) h

theorem isFinite_of_neg (h : (-v).isFinite = true) : v.isFinite = true := by
  have h := isFinite_of_pack h
  show v.toModel.unpack.isFinite = true
  generalize v.toModel.unpack = u at h ⊢
  cases u with
  | zero | finite => rfl
  | notANumber | infinity => cases h

theorem isNaN_add (h : v.isNaN = true) : (v + w).isNaN = true := by
  have hu : v.toModel.unpack = .notANumber := by
    rw [Float.isNaN, Float.Model.isNaN] at h
    generalize v.toModel.unpack = u at h ⊢
    cases u with
    | notANumber => rfl
    | infinity | zero | finite => cases h
  have hsum : v + w = .ofModel (.pack .notANumber) := by
    show Float.ofModel (.pack (UnpackedFloat.add .binary64 v.toModel.unpack _)) = _
    rw [hu]
    rfl
  rw [hsum]
  decide

-- ---------------------------------------------------------------------------
-- The side of zero
-- ---------------------------------------------------------------------------

theorem place_neg (h : v.isFinite = true) :
    (-v).isFinite = true ∧ place (-v).toModel.unpack = -place v.toModel.unpack := by
  obtain ⟨s, x, f, hx, rfl⟩ := exists_fields h
  obtain ⟨u, hu, hfields⟩ := unpack_packComponents hx f
  rw [neg_ofFields, unpack_ofFields, unpack_ofFields, hfields, hfields]
  refine ⟨status_ofFields.1, ?_⟩
  obtain ⟨-, rfl⟩ | ⟨-, hpos, rfl⟩ := hu
  · rfl
  · exact apply_neg s _

theorem neg_nonpos_and_nonneg (h : v.isFinite = true) :
    (-v).isFinite = true ∧ (0 ≤ v → -v ≤ 0) ∧ (v ≤ 0 → 0 ≤ -v) := by
  obtain ⟨hfinite, hplace⟩ := place_neg h
  have hv := isNaN_of_isFinite h
  have hneg := isNaN_of_isFinite hfinite
  rw [nonneg_iff_place hv, nonpos_iff_place hv, nonneg_iff_place hneg, nonpos_iff_place hneg,
    hplace]
  exact ⟨hfinite, neg_nonpos.mpr, neg_nonneg.mpr⟩

theorem place_div {u : UnpackedFloat} {n : Nat} (e : Int) (hn : 0 < n) (hu : Rounded u) :
    Rounded (UnpackedFloat.div .binary64 u (.finite .positive n e hn)) ∧
    (0 ≤ place u → 0 ≤ place (UnpackedFloat.div .binary64 u (.finite .positive n e hn))) ∧
    (place u ≤ 0 → place (UnpackedFloat.div .binary64 u (.finite .positive n e hn)) ≤ 0) := by
  cases hu with
  | zero s => exact ⟨.zero _, id, id⟩
  | @finite s m x hm h =>
    obtain ⟨ha, hfine⟩ := accurate_divCore x e hm hn rfl
    obtain ⟨p, hround, hplace, hrounded⟩ := roundsTo_roundWithAccuracy (s / .positive) ha hfine
    have hp := hround.nonneg (by positivity)
    have hrank := h.rank_pos hm
    refine ⟨hrounded, fun hs => hplace.symm ▸ ?_, fun hs => hplace.symm ▸ ?_⟩ <;>
      cases s <;> simp only [place, Sign.apply] at hs <;>
      first | omega | exact hp | exact neg_nonpos.mpr hp

theorem div_nonneg_and_nonpos {n : Nat} {e : Int} {hn : 0 < n}
    (hw : w.toModel.unpack = .finite .positive n e hn) (hv : v.isFinite = true) :
    (v / w).isNaN = false ∧ (0 ≤ v → 0 ≤ v / w) ∧ (v ≤ 0 → v / w ≤ 0) := by
  obtain ⟨hrounded, hnonneg, hnonpos⟩ := place_div e hn (rounded_of_isFinite hv).1
  obtain ⟨hnan, hplace⟩ := place_unpack_pack hrounded
  rw [← hw] at hnan hplace hnonneg hnonpos
  have hnan : (v / w).isNaN = false := hnan
  have hplace : place (v / w).toModel.unpack = _ := hplace
  rw [nonneg_iff_place hnan, nonpos_iff_place hnan, nonneg_iff_place (isNaN_of_isFinite hv),
    nonpos_iff_place (isNaN_of_isFinite hv), hplace]
  exact ⟨hnan, fun h => by have := hnonneg h; omega, fun h => by have := hnonpos h; omega⟩

theorem exists_canonical {s : Sign} {n : Nat} {e : Int} {hn : 0 < n}
    (h : v.toModel.unpack = .finite s n e hn) :
    ∃ b : Binary, b.Canonical ∧ b.mantissa = n ∧ b.exponent = e := by
  have hfinite : v.isFinite = true := by
    rw [Float.isFinite, Float.Model.isFinite, h]
    rfl
  obtain ⟨s', x, f, hx, rfl⟩ := exists_fields hfinite
  obtain ⟨u, ⟨-, rfl⟩ | ⟨hz, hpos, rfl⟩, hfields⟩ := unpack_packComponents hx f
  · rw [unpack_ofFields, hfields] at h
    cases h
  · rw [unpack_ofFields, hfields] at h
    cases h
    exact ⟨magnitude x f, canonical_magnitude hx hz, rfl, rfl⟩

theorem unpack_ofNat {n : Nat} (hn : 0 < n) (h : n < 2 ^ 53) :
    ∃ m e hm, (Float.ofNat n).toModel.unpack = .finite .positive m e hm := by
  obtain ⟨m, e, hm, hv, -, hvalue⟩ := holds_toFloat hn h
  obtain ⟨b, hb, rfl, rfl⟩ := exists_canonical hv
  have hone : Holds Float.exactlyRepresentablePowersOfTen[0] 1 := by
    simpa using holds_powersOfTen (i := 0) (by decide)
  have hproduct : Float.ofNat n = n.toUInt64.toFloat := by
    have hfast : Float.ofNat n = n.toUInt64.toFloat * Float.exactlyRepresentablePowersOfTen[0] := by
      show Float.ofScientific n false 0 = _
      rw [Float.ofScientific, dif_pos ⟨h, by decide⟩]
      rfl
    rw [hfast]
    refine mul_eq_of_holds hb hv (holds_toFloat hn h) hone ?_
    rw [mul_one, ← hvalue]
    exact b.covers_self
  exact ⟨_, _, hm, by rw [hproduct, hv]⟩

end SlopeField.Binary64
