import Mathlib
import SlopeField.Binary64

/-!
# The sign of a float

A finite float is made of a sign, an exponent field and a fraction field
(`ofFields`). Negation and the absolute value change the sign and nothing else,
so the text of a negative number is a minus and the text of its absolute value.
-/

namespace SlopeField

theorem Decimal.mem_positional {d : Decimal} {c : Char} (h : c ∈ d.positional.toList) :
    c.isDigit = true ∨ c = '.' := by
  have hdigits (c : Char) (hc : c ∈ Nat.toDigits 10 d.digits) : c.isDigit = true :=
    Nat.isDigit_of_mem_toDigits (by decide) (by decide) hc
  have hzeros {n : Nat} (hc : c ∈ List.replicate n '0') : c.isDigit = true := by
    rw [List.eq_of_mem_replicate hc]
    decide
  simp only [positional] at h
  split at h
  · simp only [String.toList_ofList, List.mem_append] at h
    exact .inl (h.elim (hdigits c) hzeros)
  · simp only [String.toList_ofList, List.mem_append, List.mem_cons] at h
    have hpadded {k : Nat} (hc : c ∈ List.replicate k '0' ++ Nat.toDigits 10 d.digits) :
        c.isDigit = true := (List.mem_append.mp hc).elim hzeros (hdigits c)
    obtain h | rfl | h := h
    · exact .inl (hpadded (List.mem_of_mem_take h))
    · exact .inr rfl
    · exact .inl (hpadded (List.mem_of_mem_drop h))

namespace Binary64

open Float.Model (Format UnpackedFloat)
open Float.Model.UnpackedFloat

theorem toNat_packComponents (s : Sign) (e : BitVec 11) (m : BitVec 52) :
    (packComponents .binary64 s e m).toNat =
      s.toBitVec.toNat * 2 ^ 63 + e.toNat * 2 ^ 52 + m.toNat := by
  have hm := m.isLt
  have he := e.isLt
  simp only [packComponents, BitVec.toNat_append]
  rw [← Nat.shiftLeft_add_eq_or_of_lt he, ← Nat.shiftLeft_add_eq_or_of_lt hm,
    Nat.shiftLeft_eq, Nat.shiftLeft_eq]
  omega

theorem valid_packComponents {e : BitVec 11} (he : e ≠ -1#11) (s : Sign) (m : BitVec 52) :
    Format.binary64.Valid (packComponents .binary64 s e m) :=
  ⟨fun h => (he (by simpa using h)).elim⟩

def magnitude (e : BitVec 11) (m : BitVec 52) : Binary :=
  if e.toNat = 0 then ⟨m.toNat, -1074, false⟩
  else ⟨2 ^ 52 + m.toNat, (e.toNat : Int) - 1075, m.toNat == 0 && 1 < e.toNat⟩

theorem unpack_packComponents {e : BitVec 11} (he : e ≠ -1#11) (m : BitVec 52) :
    ∃ u : Sign → UnpackedFloat,
      ((e = 0 ∧ m = 0) ∧ u = .zero ∨ ¬(e = 0 ∧ m = 0) ∧
        ∃ h, u = fun s => .finite s (magnitude e m).mantissa (magnitude e m).exponent h) ∧
      ∀ s, unpack .binary64 (packComponents .binary64 s e m) = u s := by
  by_cases hz : e = 0#11
  · subst hz
    by_cases hm : m = 0#52
    · subst hm
      exact ⟨.zero, .inl ⟨⟨rfl, rfl⟩, rfl⟩, fun s => by simp [unpack]⟩
    · have hpos : 0 < m.toNat := Nat.pos_of_ne_zero fun h => hm (BitVec.eq_of_toNat_eq h)
      refine ⟨_, .inr ⟨fun h => hm h.2, hpos, rfl⟩, fun s => ?_⟩
      simp [unpack, hm, Format.exponentBias, magnitude]
  · have htop : ¬e = 2047#11 := he
    have hnat : e.toNat ≠ 0 := fun h => hz (BitVec.eq_of_toNat_eq h)
    have hone : (1#1 ++ m).toNat = 2 ^ 52 + m.toNat := by
      rw [BitVec.toNat_append, ← Nat.shiftLeft_add_eq_or_of_lt m.isLt]
      rfl
    have hmagnitude : (magnitude e m).mantissa = 2 ^ 52 + m.toNat ∧
        (magnitude e m).exponent = e.toNat - 1075 := by
      rw [magnitude, if_neg hnat]
      exact ⟨rfl, rfl⟩
    refine ⟨_, .inr ⟨fun h => hz h.1, by omega, rfl⟩, fun s => ?_⟩
    simp [unpack, hz, htop, Format.exponentBias, hone, hmagnitude]

def ofFields (s : Sign) (e : BitVec 11) (m : BitVec 52) (he : e ≠ -1#11) : Float :=
  .ofModel ⟨.ofBitVec (packComponents .binary64 s e m), valid_packComponents he s m⟩

variable {s : Sign} {e : BitVec 11} {m : BitVec 52} {he : e ≠ -1#11} {v : Float}

theorem ofFields_of_bits (h : v.toModel.toBits.toBitVec = packComponents .binary64 s e m) :
    v = ofFields s e m he := by
  obtain ⟨⟨bits, valid⟩⟩ := v
  obtain rfl : bits = .ofBitVec (packComponents .binary64 s e m) := UInt64.toBitVec_inj.mp h
  rfl

theorem exists_fields (h : v.isFinite = true) : ∃ s e m he, v = ofFields s e m he := by
  have he : @unpackExponent .binary64 v.toModel.toBits.toBitVec ≠ -1#11 := by
    intro he
    have hnot : v.toModel.unpack.isFinite = false := by
      rw [Float.Model.unpack, unpack, if_pos he]
      split <;> rfl
    rw [Float.isFinite, Float.Model.isFinite, hnot] at h
    cases h
  have hbits := @packComponents_unpackSign_unpackExponent_unpackMantissa
    .binary64 v.toModel.toBits.toBitVec
  exact ⟨_, _, _, he, ofFields_of_bits hbits.symm⟩

theorem neg_ofFields : -ofFields s e m he = ofFields (-s) e m he := by
  obtain ⟨u, hu, hfields⟩ := unpack_packComponents he m
  have hneg : (u s).neg = u (-s) := by
    obtain ⟨-, rfl⟩ | ⟨-, h, rfl⟩ := hu <;> rfl
  refine ofFields_of_bits ?_
  show pack .binary64 (unpack .binary64 (packComponents .binary64 s e m)).neg = _
  rw [hfields s, hneg, ← hfields (-s), pack_unpack_of_valid (valid_packComponents he _ _)]

theorem abs_ofFields : (ofFields s e m he).abs = ofFields .positive e m he := by
  obtain ⟨u, hu, hfields⟩ := unpack_packComponents he m
  have habs : (u s).abs = u .positive := by
    obtain ⟨-, rfl⟩ | ⟨-, h, rfl⟩ := hu <;> rfl
  refine ofFields_of_bits ?_
  show pack .binary64 (unpack .binary64 (packComponents .binary64 s e m)).abs = _
  rw [hfields s, habs, ← hfields .positive, pack_unpack_of_valid (valid_packComponents he _ _)]

theorem unpack_zero : (0.0 : Float).toModel.unpack = .zero .positive := rfl

theorem ofModel_pack_unpack (v : Float) : .ofModel (.pack v.toModel.unpack) = v := by
  obtain ⟨⟨bits, valid⟩⟩ := v
  simp [Float.Model.pack, Float.Model.unpack, pack_unpack_of_valid valid]

theorem eq_of_unpack_eq {v w : Float} (h : v.toModel.unpack = w.toModel.unpack) : v = w := by
  rw [← ofModel_pack_unpack v, h, ofModel_pack_unpack]

theorem unpack_one : (1.0 : Float).toModel.unpack = .finite .positive (2 ^ 52) (-52) (by decide) :=
  rfl

theorem eq_one_of_beq (h : (v == 1.0) = true) : v = 1.0 := by
  refine eq_of_unpack_eq ?_
  have h : (v.toModel.unpack.compare (1.0 : Float).toModel.unpack == some .eq) = true := h
  rw [unpack_one] at h ⊢
  generalize v.toModel.unpack = u at h ⊢
  cases u with
  | infinity s => cases s <;> cases h
  | notANumber | zero => cases h
  | finite s n x hn =>
    cases s with
    | negative => cases h
    | positive =>
      obtain ⟨rfl, rfl⟩ : x = -52 ∧ n = 2 ^ 52 := by simpa [UnpackedFloat.compare] using h
      rfl

theorem unpack_ofFields : (ofFields s e m he).toModel.unpack =
    unpack .binary64 (packComponents .binary64 s e m) := rfl

theorem beq_zero_ofFields : (ofFields s e m he == 0.0) = decide (e = 0 ∧ m = 0) := by
  obtain ⟨u, hu, hfields⟩ := unpack_packComponents he m
  have hbeq : (ofFields s e m he == 0.0) = (u s).beq (.zero .positive) := by
    rw [← hfields s, ← unpack_ofFields, ← unpack_zero]
    rfl
  rw [hbeq]
  obtain ⟨hz, rfl⟩ | ⟨hz, h, rfl⟩ := hu
  · simp [UnpackedFloat.beq, UnpackedFloat.compare, hz]
  · rw [decide_eq_false hz]
    cases s <;> rfl

theorem lt_zero_ofFields : ofFields s e m he < 0.0 ↔ s = .negative ∧ ¬(e = 0 ∧ m = 0) := by
  obtain ⟨u, hu, hfields⟩ := unpack_packComponents he m
  have hlt : ofFields s e m he < 0.0 ↔ (u s).lt (.zero .positive) = true := by
    rw [← hfields s, ← unpack_ofFields, ← unpack_zero]
    exact decide_eq_true_iff
  rw [hlt]
  obtain ⟨hz, rfl⟩ | ⟨hz, h, rfl⟩ := hu
  · simp [UnpackedFloat.lt, UnpackedFloat.compare, hz]
  · rw [and_iff_left hz]
    cases s <;> simp [UnpackedFloat.lt, UnpackedFloat.compare]

theorem toNat_toBits_ofFields : (ofFields s e m he).toBits.toNat =
    s.toBitVec.toNat * 2 ^ 63 + e.toNat * 2 ^ 52 + m.toNat :=
  toNat_packComponents s e m

theorem sign_ofFields :
    sign (ofFields s e m he) = match s with | .negative => "-" | .positive => "" := by
  have hm := m.isLt
  have he' := e.isLt
  have h : (ofFields s e m he).toBits >>> 63 = 1 ↔ s = .negative := by
    rw [← UInt64.toNat_inj]
    simp [toNat_toBits_ofFields, Nat.shiftRight_eq_div_pow]
    cases s <;> simp [Sign.toBitVec] <;> omega
  cases s <;> simp [sign, h]

theorem ofFloat_ofFields : Binary.ofFloat (ofFields s e m he) = magnitude e m := by
  have hm := m.isLt
  have he' := e.isLt
  have hexp : ((ofFields s e m he).toBits >>> 52 &&& 0x7FF).toNat = e.toNat := by
    have hmask := Nat.and_two_pow_sub_one_eq_mod ((ofFields s e m he).toBits.toNat / 2 ^ 52) 11
    simp [Nat.shiftRight_eq_div_pow] at hmask ⊢
    rw [hmask, toNat_toBits_ofFields]
    omega
  have hfrac : ((ofFields s e m he).toBits &&& 0xFFFFFFFFFFFFF).toNat = m.toNat := by
    have hmask := Nat.and_two_pow_sub_one_eq_mod (ofFields s e m he).toBits.toNat 52
    simp at hmask ⊢
    rw [hmask, toNat_toBits_ofFields]
    omega
  simp only [Binary.ofFloat, hexp, hfrac]
  rfl

theorem status_ofFields : (ofFields s e m he).isFinite = true ∧
    (ofFields s e m he).isNaN = false ∧ (ofFields s e m he).isInf = false := by
  obtain ⟨u, hu, hfields⟩ := unpack_packComponents he m
  simp only [Float.isFinite, Float.isNaN, Float.isInf, Float.Model.isFinite, Float.Model.isNaN,
    Float.Model.isInf, unpack_ofFields, hfields s]
  obtain ⟨-, rfl⟩ | ⟨-, h, rfl⟩ := hu <;> exact ⟨rfl, rfl, rfl⟩

theorem text_ofFields (hz : ¬(e = 0 ∧ m = 0)) : text (ofFields s e m he) =
    sign (ofFields s e m he) ++ (Binary.ofFloat (ofFields s e m he)).shortest.positional := by
  obtain ⟨-, hnan, hinf⟩ := @status_ofFields s e m he
  have hbeq : (ofFields s e m he == 0.0) = false := by rw [beq_zero_ofFields, decide_eq_false hz]
  rw [text, hnan, hinf, hbeq]
  rfl

-- ---------------------------------------------------------------------------
-- Signs
-- ---------------------------------------------------------------------------

variable (hv : v.isFinite = true)
include hv

theorem abs_of_neg (h : v < 0.0) : v.abs = -v := by
  obtain ⟨s, e, m, he, rfl⟩ := exists_fields hv
  obtain ⟨rfl, -⟩ := lt_zero_ofFields.mp h
  rw [abs_ofFields, neg_ofFields]
  rfl

theorem abs_of_pos (hz : (v == 0.0) = false) (h : ¬v < 0.0) : v.abs = v := by
  obtain ⟨s, e, m, he, rfl⟩ := exists_fields hv
  rw [beq_zero_ofFields, decide_eq_false_iff_not] at hz
  cases s with
  | negative => exact (h (lt_zero_ofFields.mpr ⟨rfl, hz⟩)).elim
  | positive => exact abs_ofFields

theorem isFinite_abs : v.abs.isFinite = true := by
  obtain ⟨s, e, m, he, rfl⟩ := exists_fields hv
  rw [abs_ofFields]
  exact status_ofFields.1

theorem text_of_neg (h : v < 0.0) : text v = "-" ++ text v.abs := by
  obtain ⟨s, e, m, he, rfl⟩ := exists_fields hv
  obtain ⟨rfl, hz⟩ := lt_zero_ofFields.mp h
  rw [abs_ofFields, text_ofFields hz, text_ofFields hz, sign_ofFields, sign_ofFields,
    ofFloat_ofFields, ofFloat_ofFields]
  simp

theorem text_abs (hz : (v == 0.0) = false) :
    text v.abs = (Binary.ofFloat v.abs).shortest.positional := by
  obtain ⟨s, e, m, he, rfl⟩ := exists_fields hv
  rw [beq_zero_ofFields, decide_eq_false_iff_not] at hz
  rw [abs_ofFields, text_ofFields hz, sign_ofFields]
  simp

end Binary64

end SlopeField
