import SlopeField.Binary64
import SlopeField.Proofs.Expr.Mentions
import SlopeField.Proofs.Expr.Redex

/-!
# Antiderivatives without their variable

Integrating divides constants, by the next exponent of a power or by the slope
of an argument, and simplifying takes a constant within the tolerance of zero
for zero. A factor that is kept in the integrand may therefore be lost in the
antiderivative, and the variable with it. `Vanishes v e` says for which
integrands this happens; no other simplified integrand loses its variable
(`integrate_mentions_iff`).
-/

namespace SlopeField.Expr

open Arithmetic (isFinite)
open Scalar (negligible substantial)

section
variable {α : Type} [Scalar α]

/-- The factor `c` on the tree counts as zero, as it stands or after division by
the constants of the quotients that it moves into. -/
inductive Underflows : α → Expr α → Prop
  | here : negligible c = true → Underflows c e
  | quotient : ¬(const c).IsTrivial → substantial b = true → isFinite (c / b) = true →
      Underflows (c / b) e → Underflows c (.div e (.const b))

/-- The integrand is a product or quotient whose constant factor counts as zero
in the antiderivative, or is built from such trees alone. -/
inductive Vanishes (v : String) : Expr α → Prop
  | neg : Vanishes v e → Vanishes v (.neg e)
  | add : Vanishes v l → Vanishes v r → Vanishes v (.add l r)
  | sub : Vanishes v l → Vanishes v r → Vanishes v (.sub l r)
  | mulLeft : l.mentions v = false → Vanishes v r → Vanishes v (.mul l r)
  | mulRight : r.mentions v = false → Vanishes v l → Vanishes v (.mul l r)
  | div : r.mentions v = false → Vanishes v l → Vanishes v (.div l r)
  | factorLeft : r.mentions v = true → r.integrate v = .ok R → Underflows c R →
      Vanishes v (.mul (.const c) r)
  | factorRight : l.mentions v = true → l.integrate v = .ok L → Underflows c L →
      Vanishes v (.mul l (.const c))
  /-- A constant over an affine denominator, which gives its logarithm the factor
  `c / a`. -/
  | logarithm : (∀ name, r ≠ .var name) → r.mentions v = true → r.affineSlope? v = some a →
      isFinite (c / a) = true → negligible (c / a) = true → Vanishes v (.div (.const c) r)

variable {v : String} {e l r : Expr α} {a b c : α}

theorem Vanishes.mentions (h : Vanishes v e) : e.mentions v = true := by
  induction h with
  | neg _ ih => exact ih
  | add _ _ ih | sub _ _ ih | mulLeft _ _ ih | mulRight _ _ ih | div _ _ ih =>
    simp [Expr.mentions, ih]
  | factorLeft hm | factorRight hm | logarithm _ hm => simp [Expr.mentions, hm]

-- ---------------------------------------------------------------------------
-- Factors that take the variable away
-- ---------------------------------------------------------------------------

theorem not_underflows_of_isTrivial (h0 : ¬(const c).isZero = true) (h : (const c).IsTrivial) :
    ¬Underflows c e := by
  intro hu
  cases hu with
  | here hn => exact h0 hn
  | quotient ht => exact ht h

/-- A factor takes the variable away exactly by counting as zero. -/
theorem mentions_scale (h : e.mentions v = true) :
    (scale c e).mentions v = false ↔ Underflows c e := by
  have hkept := ne_false_of_eq_true h
  fun_induction scale c e with
  | case1 => cases h
  | case2 _ _ _ h0 | case7 _ _ _ _ h0 => exact iff_of_true rfl (.here h0)
  | case3 _ _ _ _ h0 h1 | case8 _ _ _ _ h0 h1 =>
    exact iff_of_false hkept (not_underflows_of_isTrivial h0 (.inr (.inl h1)))
  | case4 _ _ _ _ h0 _ h2 | case9 _ _ _ _ h0 _ h2 =>
    rw [mentions_simplifyNeg]
    exact iff_of_false hkept (not_underflows_of_isTrivial h0 (.inr (.inr h2)))
  | case5 c num b h0 h1 h2 d hq ih =>
    obtain ⟨⟨hb, hf⟩, rfl⟩ := quotientFactor?_eq_some.mp hq
    have hnum : num.mentions v = true := by simpa [mentions] using h
    refine (ih hnum (ne_false_of_eq_true hnum)).trans ⟨?_, ?_⟩
    · exact .quotient (fun ht => ht.absurd h0 h1 h2) hb hf
    · intro hu
      cases hu with
      | here hn => exact (h0 hn).elim
      | quotient _ _ _ hu => exact hu
  | case6 c num b _ h0 h1 h2 hq =>
    refine iff_of_false (fun hf => hkept (mentions_bin.mp hf).2) fun hu => ?_
    cases hu with
    | here hn => exact h0 hn
    | quotient _ hb hf => simp [quotientFactor?_eq_some.mpr ⟨⟨hb, hf⟩, rfl⟩] at hq
  | case10 c e _ hd h0 h1 h2 =>
    refine iff_of_false (fun hf => hkept (mentions_bin.mp hf).2) fun hu => ?_
    cases hu with
    | here hn => exact h0 hn
    | quotient => exact hd _ _ rfl

theorem mentions_simplifyMul (hl : l.mentions v = false) :
    (simplifyMul l r).mentions v = false ↔
      r.mentions v = false ∨ ∃ c, l = .const c ∧ Underflows c r := by
  cases hr : r.mentions v with
  | false =>
    refine iff_of_true ?_ (.inl rfl)
    rw [mentions_eq_false_iff] at hl hr ⊢
    exact LeavesIn.simplifyBin .trivial .mul hl hr
  | true =>
    cases l with
    | const c =>
      rw [simplifyMul, mentions_scale hr]
      simp
    | _ =>
      rw [simplifyMul_of_ne_const (by simp) (ne_const_of_mentions hr)]
      simp [mentions, hr]

theorem mentions_simplifyMul_of_ne_div (hl : l.mentions v = false) (hr : r.mentions v = true)
    (hd : ∀ n b, r ≠ .div n (.const b)) :
    (simplifyMul l r).mentions v = false ↔ l.isZero = true := by
  rw [mentions_simplifyMul hl, hr]
  constructor
  · rintro (h | ⟨c, rfl, hu⟩)
    · cases h
    · cases hu with
      | here hn => exact hn
      | quotient => exact (hd _ _ rfl).elim
  · intro h0
    cases l with
    | const c => exact .inr ⟨c, rfl, .here h0⟩
    | _ => cases h0

theorem mentions_power (h : negligible c = false) :
    (simplifyDiv (simplifyPow (.var v) (.const c)) (.const c)).mentions v = true := by
  rw [mentions_simplifyDiv rfl, simplifyPow_of_ne_const (by simp), if_neg (by simp [isZero, h])]
  split <;> simp [mentions]

-- ---------------------------------------------------------------------------
-- The rules of integration
-- ---------------------------------------------------------------------------

theorem functionRule_mentions {f : Fn} {F : Expr α} (hn : e.IsNormal)
    (hm : e.mentions v = true) (h : functionRule? f e v = some F) :
    F.simplify.mentions v = true := by
  obtain ⟨a, -, h⟩ := Option.bind_eq_some_iff.mp h
  have he := simplify_of_isNormal hn
  cases f with
  | exp | sin | cos | tan =>
    cases h
    simp only [simplify, simplifyBin, lnAbs, he]
    rw [mentions_simplifyDiv rfl]
    exact hm
  | _ => cases h

theorem powerRule_mentions {F : Expr α} (h : powerRule? l r v = some F) :
    F.simplify.mentions v = true := by
  unfold powerRule? at h
  split at h
  · split at h
    · rename_i name hname
      obtain ⟨p, -, rfl⟩ := Option.map_eq_some_iff.mp h
      obtain rfl : name = v := by simpa using hname
      simp only
      split
      · simp [lnAbs, simplify, mentions]
      · rename_i hp
        exact mentions_power (by simpa using hp)
    · cases h
  · cases h

theorem isZero_simplifyNeg (hn : e.IsNormal) (hc : ∀ c, e ≠ .const c) :
    (simplifyNeg e).isZero = false := by
  fun_cases simplifyNeg e with
  | case1 c => exact (hc _ rfl).elim
  | case2 e =>
    -- A negated constant is not normal.
    cases e with
    | const => cases hn.2
    | _ => rfl
  | case3 => rfl

theorem isZero_simplifyDiv (hn : l.IsNormal) (h0 : l.isZero = false) :
    (simplifyDiv l (.const a)).isZero = true ↔
      ∃ c, l = .const c ∧ isFinite (c / a) = true ∧ negligible (c / a) = true := by
  by_cases hc : ∃ c, l = .const c
  · obtain ⟨c, rfl⟩ := hc
    simp only [simplifyDiv, fold]
    split <;> rename_i hf <;> simp [isZero, hf]
  · have hc (c : α) : l ≠ .const c := fun h => hc ⟨c, h⟩
    have hkept : (simplifyDiv l (.const a)).isZero = false := by
      rw [simplifyDiv_of_not_const fun c _ h => (hc c h).elim]
      split
      · exact h0
      · split
        · exact isZero_simplifyNeg hn hc
        · rw [if_neg (by simp [h0])]
          rfl
    refine iff_of_false (by simp [hkept]) ?_
    rintro ⟨c, h, -⟩
    exact hc c h

-- ---------------------------------------------------------------------------
-- Integrands that vanish
-- ---------------------------------------------------------------------------

section
variable {F L R : Expr α}

theorem vanishes_neg : Vanishes v (.neg e) ↔ Vanishes v e := by
  constructor
  · intro h
    cases h with
    | neg h => exact h
  · exact .neg

theorem vanishes_add : Vanishes v (.add l r) ↔ Vanishes v l ∧ Vanishes v r := by
  constructor
  · intro h
    cases h with
    | add hl hr => exact ⟨hl, hr⟩
  · rintro ⟨hl, hr⟩
    exact .add hl hr

theorem vanishes_sub : Vanishes v (.sub l r) ↔ Vanishes v l ∧ Vanishes v r := by
  constructor
  · intro h
    cases h with
    | sub hl hr => exact ⟨hl, hr⟩
  · rintro ⟨hl, hr⟩
    exact .sub hl hr

theorem vanishes_mul_left (hl : l.mentions v = false) (hr : r.mentions v = true)
    (hR : r.antiderivative v = .ok R) :
    Vanishes v (.mul l r) ↔ Vanishes v r ∨ ∃ c, l = .const c ∧ Underflows c R.simplify := by
  constructor
  · intro h
    cases h with
    | mulLeft _ h => exact .inl h
    | mulRight hf => simp [hf] at hr
    | factorLeft _ hint hu =>
      obtain ⟨G, hG, rfl⟩ := integrate_eq_ok.mp hint
      cases hR.symm.trans hG
      exact .inr ⟨_, rfl, hu⟩
    | factorRight => cases hr
  · rintro (h | ⟨c, rfl, hu⟩)
    · exact .mulLeft hl h
    · exact .factorLeft hr (integrate_eq_ok.mpr ⟨R, hR, rfl⟩) hu

theorem vanishes_mul_right (hl : l.mentions v = true) (hr : r.mentions v = false)
    (hL : l.antiderivative v = .ok L) :
    Vanishes v (.mul l r) ↔ Vanishes v l ∨ ∃ c, r = .const c ∧ Underflows c L.simplify := by
  constructor
  · intro h
    cases h with
    | mulLeft hf => simp [hf] at hl
    | mulRight _ h => exact .inl h
    | factorLeft => cases hl
    | factorRight _ hint hu =>
      obtain ⟨G, hG, rfl⟩ := integrate_eq_ok.mp hint
      cases hL.symm.trans hG
      exact .inr ⟨_, rfl, hu⟩
  · rintro (h | ⟨c, rfl, hu⟩)
    · exact .mulRight hr h
    · exact .factorRight hl (integrate_eq_ok.mpr ⟨L, hL, rfl⟩) hu

theorem vanishes_div (hr : r.mentions v = false) : Vanishes v (.div l r) ↔ Vanishes v l := by
  constructor
  · intro h
    cases h with
    | div _ h => exact h
    | logarithm _ hm => simp [hr] at hm
  · exact .div hr

theorem IsNormal.isZero_numerator (hn : (div l r).IsNormal) (hr : r.mentions v = true) :
    l.isZero = false := by
  have hm : (div l r).mentions v = true := by simp [Expr.mentions, hr]
  refine Bool.eq_false_iff.mpr fun h0 => ?_
  exact hn.not_redex _ (self_mem_parts _) (.div (mixed_of_mentions hm) (.inl h0))

theorem IsNormal.isZero_terms {op : BinOp} (hop : op = .add ∨ op = .sub)
    (hn : (bin op l r).IsNormal) (hm : (bin op l r).mentions v = true) :
    l.isZero = false ∧ r.isZero = false := by
  have hz : ¬(l.isZero = true ∨ r.isZero = true) := by
    intro h
    refine hn.not_redex _ (self_mem_parts _) ?_
    rcases hop with rfl | rfl
    · exact .add (mixed_of_mentions hm) h
    · exact .sub (mixed_of_mentions hm) h
  simpa using hz

theorem vanishes_quotientRule (hn : (div l r).IsNormal) (hl : l.mentions v = false)
    (hr : r.mentions v = true) (h : quotientRule? l r v = some F) :
    F.simplify.mentions v = false ↔ Vanishes v (.div l r) := by
  have hz := hn.isZero_numerator hr
  have hlog : r.lnAbs.simplify = r.lnAbs := by
    simp [lnAbs, simplify, simplify_of_isNormal hn.2.1]
  have hm : r.lnAbs.mentions v = true := hr
  unfold quotientRule? at h
  split at h
  · cases h
    simp only [simplify, simplifyBin, simplify_of_isNormal hn.1, hlog]
    rw [mentions_simplifyMul_of_ne_div hl hm (by simp [lnAbs])]
    refine iff_of_false (by simp [hz]) fun h => ?_
    cases h with
    | div hf => simp [hf] at hr
    | logarithm hvar => exact hvar _ rfl
  · rename_i hvar
    obtain ⟨a, ha, rfl⟩ := Option.map_eq_some_iff.mp h
    simp only [simplify, simplifyBin, simplify_of_isNormal hn.1, hlog]
    have hq : (simplifyDiv l (.const a)).mentions v = false := (mentions_simplifyDiv rfl).trans hl
    rw [mentions_simplifyMul_of_ne_div hq hm (by simp [lnAbs]), isZero_simplifyDiv hn.1 hz]
    constructor
    · rintro ⟨c, rfl, hf, hc⟩
      exact .logarithm hvar hr ha hf hc
    · intro h
      cases h with
      | div hf => simp [hf] at hr
      | logarithm _ _ ha' hf hc =>
        cases ha.symm.trans ha'
        exact ⟨_, rfl, hf, hc⟩

/-- Where two, the next exponent of the variable itself, does not count as zero,
the variable is lost exactly in the integrands that vanish. -/
theorem mentions_antiderivative (h2 : negligible (Arithmetic.ofNat 2 : α) = false)
    (hn : e.IsNormal) (h0 : e.isZero = false) (hF : e.antiderivative v = .ok F) :
    F.simplify.mentions v = false ↔ Vanishes v e := by
  -- A term of a sum may be without the variable, so the induction asks of the
  -- integrand only that it does not count as zero.
  fun_induction antiderivative e v generalizing F with
  | case1 e hf =>
    cases hF
    have hf : e.mentions v = false := by simpa using hf
    simp only [simplify, simplifyBin, simplify_of_isNormal hn]
    rw [mentions_simplifyMul_of_ne_div hf (by simp [mentions]) (by simp)]
    refine iff_of_false (by simp [h0]) fun hv => ?_
    simp [hv.mentions] at hf
  | case2 =>
    cases hF
    refine iff_of_false (ne_false_of_eq_true (mentions_power h2)) ?_
    rintro ⟨⟩
  | case3 => simp [mentions] at *
  | case4 a hm ih =>
    obtain ⟨G, hG, h⟩ := bind_eq_ok.mp hF
    cases h
    have ha : a.mentions v = true := by simpa [mentions] using hm
    simp only [simplify, mentions_simplifyNeg, ih hn.1 (isZero_of_mentions ha) hG, vanishes_neg]
  | case5 f a =>
    rename_i hm
    have hn : a.IsNormal := hn
    have ha : a.mentions v = true := by simpa [mentions] using hm
    have hkept := functionRule_mentions hn ha (getD_error_eq_ok.mp hF)
    refine iff_of_false (ne_false_of_eq_true hkept) ?_
    rintro ⟨⟩
  | case6 l r hm ihl ihr =>
    obtain ⟨L, hL, h⟩ := bind_eq_ok.mp hF
    obtain ⟨R, hR, h⟩ := bind_eq_ok.mp h
    cases h
    have hz := hn.isZero_terms (.inl rfl) (by simpa using hm)
    simp only [simplify, simplifyBin, mentions_simplifyAdd, Bool.or_eq_false_iff,
      ihl hn.1 hz.1 hL, ihr hn.2.1 hz.2 hR, vanishes_add]
  | case7 l r hm ihl ihr =>
    obtain ⟨L, hL, h⟩ := bind_eq_ok.mp hF
    obtain ⟨R, hR, h⟩ := bind_eq_ok.mp h
    cases h
    have hz := hn.isZero_terms (.inr rfl) (by simpa using hm)
    simp only [simplify, simplifyBin, mentions_simplifySub, Bool.or_eq_false_iff,
      ihl hn.1 hz.1 hL, ihr hn.2.1 hz.2 hR, vanishes_sub]
  | case8 l r hl hm ih =>
    obtain ⟨R, hR, h⟩ := bind_eq_ok.mp hF
    cases h
    have hl : l.mentions v = false := by simpa using hl
    have hr : r.mentions v = true := by simpa [mentions, hl] using hm
    simp only [simplify, simplifyBin, simplify_of_isNormal hn.1]
    rw [mentions_simplifyMul hl, ih hn.2.1 (isZero_of_mentions hr) hR,
      vanishes_mul_left hl hr hR]
  | case9 l r hl hr _ ih =>
    obtain ⟨L, hL, h⟩ := bind_eq_ok.mp hF
    cases h
    have hl : l.mentions v = true := by simpa using hl
    have hr : r.mentions v = false := by simpa using hr
    simp only [simplify, simplifyBin, simplify_of_isNormal hn.2.1]
    rw [mentions_simplifyMul hr, ih hn.1 (isZero_of_mentions hl) hL,
      vanishes_mul_right hl hr hL]
  | case11 l r hr hm ih =>
    obtain ⟨L, hL, h⟩ := bind_eq_ok.mp hF
    cases h
    have hr : r.mentions v = false := by simpa using hr
    have hl : l.mentions v = true := by simpa [mentions, hr] using hm
    simp only [simplify, simplifyBin, simplify_of_isNormal hn.2.1]
    rw [mentions_simplifyDiv hr, ih hn.1 (isZero_of_mentions hl) hL, vanishes_div hr]
  | case13 l r hr hl =>
    exact vanishes_quotientRule hn (by simpa using hl) (by simpa using hr) (getD_error_eq_ok.mp hF)
  | case14 =>
    have hkept := powerRule_mentions (getD_error_eq_ok.mp hF)
    refine iff_of_false (ne_false_of_eq_true hkept) ?_
    rintro ⟨⟩
  | case10 | case12 => cases hF

end

end

/-- Simplified integrands keep the variable, but for those with a constant factor
that counts as zero only once it is divided. -/
theorem integrate_mentions_iff {e F : Expr Float} {v : String} (hs : e.simplify = e)
    (hm : e.mentions v = true) (h : e.integrate v = .ok F) :
    F.mentions v = true ↔ ¬Vanishes v e := by
  obtain ⟨G, hG, rfl⟩ := integrate_eq_ok.mp h
  have hnormal : e.IsNormal := hs ▸ simplify_isNormal e
  have htwo : negligible (Arithmetic.ofNat 2 : Float) = false := by decide +kernel
  rw [← mentions_antiderivative htwo hnormal (isZero_of_mentions hm) hG, Bool.not_eq_false]

def faintLine : Expr Float := .mul (.const 1.5e-9) (.var independent)

/-- In the antiderivative the factor is halved, which is below the tolerance. -/
theorem faintLine_vanishes :
    faintLine.simplify = faintLine ∧ faintLine.mentions independent = true ∧
      faintLine.integrate independent = .ok (.const 0.0) ∧ Vanishes independent faintLine := by
  have hs : faintLine.simplify = faintLine := by decide +kernel
  have hm : faintLine.mentions independent = true := by decide
  have h : faintLine.integrate independent = .ok (.const 0.0) :=
    toOption_eq_some.mp (by decide +kernel)
  refine ⟨hs, hm, h, Classical.byContradiction fun hkept => ?_⟩
  exact absurd ((integrate_mentions_iff hs hm h).mpr hkept) (by decide)

/-- Not every simplified integrand with finite constants keeps its variable. -/
theorem integrate_loses_variable :
    ¬∀ (e F : Expr Float) (v : String), (∀ c ∈ e.constants, c.isFinite = true) →
      e.simplify = e → e.mentions v = true → e.integrate v = .ok F → F.mentions v = true := by
  intro h
  have hint : faintLine.integrate independent = .ok (.const 0.0) :=
    toOption_eq_some.mp (by decide +kernel)
  have hkept := h faintLine (.const 0.0) independent (by decide +kernel) (by decide +kernel)
    (by decide) hint
  cases hkept

end SlopeField.Expr
