import Mathlib
import SlopeField.Decimal.Basic

/-!
# Reading positional text

The positional form of a decimal is read as a decimal of the same value
(`read?_positional`): the zeros that fill up a whole number become digits, and
those before the first digit are lost.
-/

namespace SlopeField.Decimal

def value (d : Decimal) : ℚ := d.digits * 10 ^ d.exponent

theorem value_of_nonneg {d : Decimal} (h : 0 ≤ d.exponent) :
    d.value = d.digits * 10 ^ d.exponent.toNat := by
  rw [value, ← zpow_natCast, Int.toNat_of_nonneg h]

theorem value_of_nonpos {d : Decimal} (h : d.exponent ≤ 0) :
    d.value = d.digits / 10 ^ (-d.exponent).toNat := by
  rw [value, ← zpow_natCast, Int.toNat_of_nonneg (by omega), zpow_neg, div_inv_eq_mul]

theorem ofDigits_eq (cs : List Char) : ofDigits cs = Nat.ofDigitChars 10 cs 0 :=
  Nat.ofDigitChars_eq_foldl.symm

-- ---------------------------------------------------------------------------
-- The number of digits
-- ---------------------------------------------------------------------------

theorem width_pos (n : Nat) : 0 < width n := Nat.length_toDigits_pos

theorem lt_pow_width (n : Nat) : n < 10 ^ width n :=
  (Nat.length_toDigits_le_iff (by decide) (width_pos n)).mp le_rfl

theorem pow_width_le {n : Nat} (h : n ≠ 0) : 10 ^ (width n - 1) ≤ n := by
  by_contra hlt
  by_cases hw : width n - 1 = 0
  · simp [hw] at hlt
    exact h hlt
  · have hle : width n ≤ width n - 1 :=
      (Nat.length_toDigits_le_iff (by decide) (Nat.pos_of_ne_zero hw)).mpr (Nat.lt_of_not_le hlt)
    omega

-- ---------------------------------------------------------------------------
-- Text
-- ---------------------------------------------------------------------------

variable {whole fraction : List Char}

theorem read?_whole (hne : whole ≠ []) (h : ∀ c ∈ whole, c.isDigit = true) :
    read? whole = some ⟨ofDigits whole, 0⟩ := by
  simp [read?, List.takeWhile_eq_self_iff.mpr h, List.dropWhile_eq_nil_iff.mpr h, hne,
    readExponent?]

theorem read?_point (hne : whole ≠ []) (hw : ∀ c ∈ whole, c.isDigit = true)
    (hf : ∀ c ∈ fraction, c.isDigit = true) :
    read? (whole ++ '.' :: fraction) = some ⟨ofDigits (whole ++ fraction), -fraction.length⟩ := by
  have hpoint : ('.' : Char).isDigit = false := rfl
  have htake : (whole ++ '.' :: fraction).takeWhile Char.isDigit = whole := by
    rw [List.takeWhile_append_of_pos hw, List.takeWhile_cons, hpoint]
    simp
  have hdrop : (whole ++ '.' :: fraction).dropWhile Char.isDigit = '.' :: fraction := by
    rw [List.dropWhile_append_of_pos hw, List.dropWhile_cons, hpoint]
    simp
  simp [read?, htake, hdrop, List.takeWhile_eq_self_iff.mpr hf, List.dropWhile_eq_nil_iff.mpr hf,
    hne, readExponent?]

theorem read?_positional (d : Decimal) :
    read? d.positional.toList =
      some (if 0 ≤ d.exponent then ⟨d.digits * 10 ^ d.exponent.toNat, 0⟩ else d) := by
  have hdigits : ∀ c ∈ Nat.toDigits 10 d.digits, c.isDigit = true :=
    fun c hc => Nat.isDigit_of_mem_toDigits (by decide) (by decide) hc
  have hzeros (n : Nat) : ∀ c ∈ List.replicate n '0', c.isDigit = true := by
    intro c hc
    rw [List.eq_of_mem_replicate hc]
    rfl
  unfold positional
  split
  · rename_i hexp
    simp only [String.toList_ofList]
    rw [read?_whole (by simp [Nat.toDigits_ne_nil])
      fun c hc => (List.mem_append.mp hc).elim (hdigits c) (hzeros _ c)]
    rw [ofDigits_eq, Nat.ofDigitChars_append, Nat.ofDigitChars_ten_toDigits,
      Nat.ofDigitChars_replicate_zero, mul_comm]
  · rename_i hexp
    simp only [String.toList_ofList]
    generalize hplaces : (-d.exponent).toNat = places
    generalize hpadded :
      List.replicate (places + 1 - (Nat.toDigits 10 d.digits).length) '0' ++
        Nat.toDigits 10 d.digits = padded
    have hlength : places < padded.length := by
      rw [← hpadded, List.length_append, List.length_replicate]
      omega
    have hall : ∀ c ∈ padded, c.isDigit = true := by
      rw [← hpadded]
      exact fun c hc => (List.mem_append.mp hc).elim (hzeros _ c) (hdigits c)
    have hne : padded.take (padded.length - places) ≠ [] := by
      rw [← List.length_pos_iff, List.length_take]
      omega
    rw [read?_point hne (fun c hc => hall c (List.mem_of_mem_take hc))
      fun c hc => hall c (List.mem_of_mem_drop hc), List.take_append_drop, List.length_drop]
    have hvalue : ofDigits padded = d.digits := by
      rw [← hpadded, ofDigits_eq, Nat.ofDigitChars_append, Nat.ofDigitChars_replicate_zero]
      simp
    have hexponent : -((padded.length - (padded.length - places) : Nat) : Int) = d.exponent := by
      omega
    rw [hvalue, hexponent]

theorem exists_read?_positional (d : Decimal) :
    ∃ d', read? d.positional.toList = some d' ∧ d'.value = d.value := by
  refine ⟨_, read?_positional d, ?_⟩
  split
  · rename_i hexp
    rw [value_of_nonneg hexp, value]
    simp
  · rfl

end SlopeField.Decimal
