import SlopeField.Proofs.Exact.Families
import SlopeField.Proofs.Exact.Integral
import SlopeField.Proofs.Exact.Products

/-!
# Reciprocals that integrate to a logarithm

A separable equation is solved for `y` where the reciprocal of its part in `y`
integrates to `ln(abs(y))`. Then the part in `y` is `y` itself, at every point
where it has a value (`value_of_reciprocal_log`).

The reciprocal may have no value where the part in `y` has one, namely where
that is zero, so the claim does not follow from the antiderivative alone. It
needs the form of the simplified reciprocal: one factor with `y` at most stays
in it, above or below the fraction line.
-/

namespace SlopeField

variable {v : String}

-- ---------------------------------------------------------------------------
-- Antiderivatives that simplify to a logarithm
-- ---------------------------------------------------------------------------

namespace Expr

variable [tests : ZeroTests] {e l r F : Expr Exact} {f g : Fn} {a b : Expr Exact}

theorem eq_func_of_simplifyMul (hr : (∃ f a, r = .func f a) ∨ ∃ w, r = .var w)
    (h : simplifyMul l r = .func g b) : r = .func g b := by
  obtain ⟨f, a, rfl⟩ | ⟨w, rfl⟩ := hr
  all_goals
    cases l with
    | const c =>
      simp only [simplifyMul] at h
      unfold scale at h
      split at h
      · cases h
      · split at h
        · exact h
        · split at h <;> cases h
    | _ => cases h

theorem simplifyPow_var (p : Exact) :
    simplifyPow (.var v) (.const p) = one ∨ simplifyPow (.var v) (.const p) = .var v ∨
      simplifyPow (.var v) (.const p) = pow (.var v) (.const p) := by
  rw [simplifyPow_of_ne_const nofun]
  split
  · exact .inl rfl
  · split
    · exact .inr (.inl rfl)
    · exact .inr (.inr rfl)

theorem simplifyDiv_ne_func (hc : ∀ c, l ≠ .const c) (hf : l ≠ .func g b)
    (hn : simplifyNeg l ≠ .func g b) : simplifyDiv l r ≠ .func g b := by
  rw [simplifyDiv_of_not_const fun a _ ha => (hc a ha).elim]
  split
  · exact hf
  · split
    · exact hn
    · split <;> exact nofun

theorem simplify_power_ne {p q : Exact}
    (h : (div (pow (.var v) (.const p)) (.const q)).simplify = .func g b) : False := by
  simp only [simplify, simplifyBin] at h
  obtain hp | hp | hp := simplifyPow_var (v := v) p <;> rw [hp] at h
  · simp only [simplifyDiv] at h
    unfold fold at h
    split at h <;> cases h
  · exact simplifyDiv_ne_func (by simp) (by simp) (by simp [simplifyNeg]) h
  · exact simplifyDiv_ne_func (by simp [pow]) (by simp [pow]) (by simp [pow, simplifyNeg]) h

theorem not_isAntiderivative_mul (hl : l.mentions v = true) (hr : r.mentions v = true) :
    ¬IsAntiderivative v (mul l r) F := by
  intro h
  cases h with
  | free hf => cases (mentions_bin.mp hf).1.symm.trans hl
  | scaleLeft hf => cases hf.symm.trans hl
  | scaleRight hf => cases hf.symm.trans hr

theorem not_log_of_const {c : Exact} (h : IsAntiderivative v (.const c) F) :
    F.simplify ≠ lnAbs (.var v) := by
  intro hlog
  cases h with
  | free =>
    have hs : simplifyMul (.const c) (.var v) = lnAbs (.var v) := hlog
    cases eq_func_of_simplifyMul (.inr ⟨v, rfl⟩) hs

/-- A fraction with the variable below the line that integrates to a logarithm
of the variable has only the variable there. -/
theorem eq_var_of_log (h : IsAntiderivative v (div l r) F) (hr : r.mentions v = true)
    (hn : r.simplify = r) (hlog : F.simplify = lnAbs (.var v)) :
    l.mentions v = false ∧ r = .var v := by
  cases h with
  | free hf => cases (mentions_bin.mp hf).2.symm.trans hr
  | divide hf => cases hf.symm.trans hr
  | log hl => exact ⟨hl, rfl⟩
  | @logAffine _ a _ hl =>
    refine ⟨hl, ?_⟩
    have hs : simplifyMul (div l (.const a)).simplify (lnAbs r.simplify) = lnAbs (.var v) := hlog
    rw [hn] at hs
    have hf := eq_func_of_simplifyMul (.inl ⟨_, _, rfl⟩) hs
    injection hf with _ hf
    injection hf

/-- A power with a numeric exponent that integrates to a logarithm of the
variable is the variable with the exponent minus one. -/
theorem eq_inverse_of_log [tests.Lawful] {q : ℝ}
    (h : IsAntiderivative v (pow l (.const (some q))) F) (hl : l.mentions v = true)
    (hlog : F.simplify = lnAbs (.var v)) : l = .var v ∧ q = -1 := by
  cases h with
  | free hf => cases (mentions_bin.mp hf).1.symm.trans hl
  | power => exact (simplify_power_ne hlog).elim
  | @logPower _ p hp h0 =>
    obtain ⟨-, p', rfl, hval⟩ := numericValue_eq_some hp
    cases hval fun _ => none
    have hq : q + (1 : ℕ) = 0 := ZeroTests.Lawful.eq_zero h0
    refine ⟨rfl, ?_⟩
    push_cast at hq
    linarith

/-- A tree that integrates to the logarithm of a variable is its reciprocal
wherever it has a value. -/
theorem value_of_log [tests.Lawful] {env : String → Exact} {s z : ℝ} (h : IsAntiderivative v e F)
    (hlog : F.simplify = lnAbs (.var v)) (hs : env v = some s) (hz : e.value env = some z) :
    s ≠ 0 ∧ z = s⁻¹ := by
  have hd : e.along env v s = some z := by
    rw [along, ← hs, Function.update_eq_self, hz]
  obtain ⟨y, hy⟩ := h.exists_value hd
  have hval : (lnAbs (.var v)).along env v s = some y := hlog ▸ simplify_refines F y hy
  have h0 : s ≠ 0 := by
    rintro rfl
    have hnone : (lnAbs (.var v)).along env v 0 = none := by
      show Fn.ln.apply (Fn.abs.apply ((Expr.var v).along env v 0)) = none
      rw [along_var, Exact.lnAbs_zero]
    cases hnone.symm.trans hval
  refine ⟨h0, ?_⟩
  have hslope : Exact.HasSlope ((lnAbs (.var v)).along env v) z s :=
    hlog ▸ (h.hasSlope hd fun hz => (h0 hz).elim).mono fun t => simplify_refines F
  exact hslope.unique (hasSlope_lnAbs_var h0)

end Expr

-- ---------------------------------------------------------------------------
-- Factors of a reciprocal
-- ---------------------------------------------------------------------------

namespace Family

open SlopeField.Expr (HasValue real one IsAntiderivative lnAbs)

variable [tests : ZeroTests] {env : String → Exact} {e F : Expr Exact} {s z : ℝ}

/-- A factor above the fraction line of a reciprocal, with the number that it
stands for in the original fraction: a factor that was below the line, or a
power with the sign of its exponent turned. -/
inductive Piece (env : String → Exact) : Expr Exact → ℝ → Prop
  | denominator : d.IsNormal → d.mentions dependent = true → d.value env = some b → b ≠ 0 →
      Piece env d b⁻¹
  | power : u.IsNormal → u.mentions dependent = true → w.numericValue = some (some p) →
      (Expr.pow u w).value env = some k → Piece env (.pow u (.const (some (-p)))) k

section
variable [tests.Lawful]

omit [tests.Lawful] in
theorem simplify_power {u : Expr Exact} {p : ℝ} (hu : u.IsNormal)
    (hm : u.mentions dependent = true) :
    (Expr.pow u (.const (some p))).simplify =
      if (Expr.const (some p)).isZero then one
      else if (Expr.const (some p)).isOne then u
      else .pow u (.const (some p)) := by
  show Expr.simplifyPow u.simplify (.const (some p)) = _
  rw [Expr.simplify_of_isNormal hu]
  exact Expr.simplifyPow_of_ne_const (Expr.ne_const_of_mentions hm) _

omit [tests.Lawful] in
theorem value_power {u w : Expr Exact} {p : ℝ} (hw : w.numericValue = some (some p))
    (hz : (Expr.pow u w).value env = some z) :
    Exact.pow (u.value env) (some p) = some z := by
  obtain ⟨-, q, hq, hval⟩ := Expr.numericValue_eq_some hw
  cases hq
  rw [← hval env]
  exact hz

/-- A piece disappears if it stands for one, and keeps `y` otherwise. -/
theorem Piece.simplify_cases (h : Piece env e z) :
    (e.simplify = one ∧ z = 1) ∨ e.simplify.mentions dependent = true := by
  cases h with
  | denominator hn hm =>
    rw [Expr.simplify_of_isNormal hn]
    exact .inr hm
  | @power p u w _ hu hm hw hz =>
    rw [simplify_power hu hm]
    split
    · rename_i h0
      have hp : (Expr.const (some (-p))).value env = some 0 := Expr.value_of_isZero h0
      obtain rfl : p = 0 := by simpa [Expr.value] using hp
      have hone := value_power hw hz
      rw [Exact.pow_zero] at hone
      exact .inl ⟨rfl, (Option.some.inj hone).symm⟩
    · split
      · exact .inr hm
      · exact .inr (by simp [Expr.mentions, hm])

theorem simplify_pieces {es : List (Expr Exact)} {zs : List ℝ}
    (h : List.Forall₂ (Piece env) es zs) :
    (Expr.product es).simplify =
      .product ((es.map Expr.simplify).filter (·.mentions dependent)) := by
  refine Expr.simplify_product fun e he => ?_
  obtain ⟨i, hi, rfl⟩ := List.mem_iff_getElem.mp he
  obtain ⟨h1, -⟩ | hm := (h.get hi (h.length_eq ▸ hi)).simplify_cases
  · exact .inl h1
  · exact .inr hm

theorem Piece.eq_of_log (h : Piece env e z) (hs : env dependent = some s)
    (hF : IsAntiderivative dependent e.simplify F)
    (hlog : F.simplify = lnAbs (.var dependent)) : z = s := by
  cases h with
  | denominator hn hm hb h0 =>
    rw [Expr.simplify_of_isNormal hn] at hF
    rw [(Expr.value_of_log hF hlog hs hb).2, inv_inv]
  | @power p u w _ hu hm hw hz =>
    have hpow := value_power hw hz
    rw [simplify_power hu hm] at hF
    split at hF
    · exact (Expr.not_log_of_const hF hlog).elim
    · split at hF
      · rename_i h1
        have hp : (Expr.const (some (-p))).value env = some 1 := Expr.value_of_isOne h1
        obtain rfl : p = -1 := by
          have hp : -p = 1 := by simpa [Expr.value] using hp
          linarith
        obtain ⟨b, hb⟩ := Exact.base_of_pow (by norm_num) hpow
        rw [hb] at hpow
        obtain ⟨-, rfl⟩ := Exact.pow_some_eq_some.mp hpow
        rw [Real.rpow_neg_one, (Expr.value_of_log hF hlog hs hb).2, inv_inv]
      · obtain ⟨rfl, hp⟩ := Expr.eq_inverse_of_log hF hm hlog
        obtain rfl : p = 1 := by linarith
        have hv : (Expr.var dependent).value env = some s := hs
        rw [hv, Exact.pow_some (Exact.powDefined_one s), Real.rpow_one] at hpow
        exact (Option.some.inj hpow).symm

omit [tests.Lawful] in
theorem piece_of_reciprocalPower? {f : Expr Exact} (h : reciprocalPower? f = some e)
    (hn : f.IsNormal) (hm : f.mentions dependent = true) (hz : f.value env = some z) :
    Piece env e z := by
  unfold reciprocalPower? at h
  split at h
  · rename_i u w
    obtain ⟨c, hc, rfl⟩ := Option.map_eq_some_iff.mp h
    obtain ⟨hclosed, p, rfl, -⟩ := Expr.numericValue_eq_some hc
    have hu : u.mentions dependent = true := by
      simpa [Expr.mentions, Expr.mentions_of_isClosed hclosed] using hm
    exact .power hn.1 hu hc hz
  · cases h

/-- At most one piece keeps `y`: then the others stand for one. -/
theorem prod_of_pieces {es : List (Expr Exact)} {zs : List ℝ} (h : List.Forall₂ (Piece env) es zs) :
    ((es.map Expr.simplify).filter (·.mentions dependent) = [] → zs.prod = 1) ∧
    (∀ t, (es.map Expr.simplify).filter (·.mentions dependent) = [t] →
      ∃ e z, Piece env e z ∧ e.simplify = t ∧ zs.prod = z) := by
  induction h with
  | nil => simp
  | @cons e z es zs hp _ ih =>
    rw [List.map_cons, List.prod_cons]
    obtain ⟨h1, rfl⟩ | hm := hp.simplify_cases
    · rw [h1, List.filter_cons_of_neg (by simp [Expr.mentions]), one_mul]
      exact ih
    · rw [List.filter_cons_of_pos (by simpa using hm)]
      refine ⟨by simp, fun t ht => ?_⟩
      obtain ⟨ht, hnil⟩ := List.cons.inj ht
      exact ⟨e, z, hp, ht, by rw [ih.1 hnil, mul_one]⟩

omit [tests.Lawful] in
theorem pieces_of_numerator {fs : List (Expr Exact)} (hn : ∀ f ∈ fs, f.IsNormal)
    (hm : ∀ f ∈ fs, f.mentions dependent = true) (hv : ∀ f ∈ fs, HasValue env f) :
    ∃ zs, List.Forall₂ (Piece env) (fs.filterMap reciprocalPower?) zs ∧
      (fs.map (real env)).prod =
        zs.prod * ((fs.filter fun f => (reciprocalPower? f).isNone).map (real env)).prod := by
  induction fs with
  | nil => exact ⟨[], .nil, by simp⟩
  | cons f fs ih =>
    obtain ⟨zs, hzs, hprod⟩ := ih (fun g hg => hn g (by simp [hg]))
      (fun g hg => hm g (by simp [hg])) fun g hg => hv g (by simp [hg])
    cases hr : reciprocalPower? f with
    | none =>
      refine ⟨zs, by simpa [List.filterMap_cons, hr] using hzs, ?_⟩
      rw [List.filter_cons_of_pos (by simp [hr]), List.map_cons, List.map_cons, List.prod_cons,
        List.prod_cons, hprod]
      ring
    | some g =>
      refine ⟨real env f :: zs, ?_, ?_⟩
      · rw [List.filterMap_cons, hr]
        exact .cons (piece_of_reciprocalPower? hr (hn f (by simp)) (hm f (by simp))
          (hv f (by simp)).value_eq) hzs
      · rw [List.filter_cons_of_neg (by simp [hr]), List.map_cons, List.prod_cons, hprod,
          List.prod_cons]
        ring

-- ---------------------------------------------------------------------------
-- The reciprocal as a whole
-- ---------------------------------------------------------------------------

variable {yNum yDen ps : List (Expr Exact)}

omit [tests.Lawful] in
theorem pieces_of_denominator (hn : ∀ f ∈ yDen, f.IsNormal)
    (hm : ∀ f ∈ yDen, f.mentions dependent = true) (hv : ∀ f ∈ yDen, HasValue env f)
    (h0 : ∀ f ∈ yDen, real env f ≠ 0) :
    List.Forall₂ (Piece env) yDen (yDen.map fun f => (real env f)⁻¹) := by
  rw [List.forall₂_map_right_iff, List.forall₂_same]
  exact fun f hf => .denominator (hn f hf) (hm f hf) (hv f hf).value_eq (h0 f hf)

theorem simplifyDiv_product (hp : ∀ p ∈ ps, p.mentions dependent = true) {r : Expr Exact}
    (hr : r.mentions dependent = true) :
    Expr.simplifyDiv (.product ps) r = .div (.product ps) r := by
  have hc := Expr.ne_const_of_mentions hr
  have h1 : ¬r.isOne = true := by cases r <;> simp_all [Expr.isOne]
  have h2 : ¬r.isMinusOne = true := by cases r <;> simp_all [Expr.isMinusOne]
  have h0 : ¬(Expr.product ps).isZero = true := by
    by_cases hne : ps = []
    · subst hne
      exact Expr.not_isZero_one
    · have hm := Expr.ne_const_of_mentions (Expr.mentions_product_of_ne_nil hne hp)
      intro hz
      unfold Expr.isZero at hz
      split at hz
      · exact hm _ ‹_›
      · cases hz
  rw [Expr.simplifyDiv_of_not_const fun _ b _ => hc b, if_neg h1, if_neg h2, if_neg h0]

omit [tests.Lawful] in
theorem simplifyDiv_one_one : ∃ c, Expr.simplifyDiv one one = .const c := by
  have h1 : ((1 : ℕ) : ℝ) ≠ 0 := by norm_num
  have hq : (Arithmetic.ofNat 1 : Exact) / Arithmetic.ofNat 1 = some (((1 : ℕ) : ℝ) / (1 : ℕ)) :=
    Exact.div_some h1
  refine ⟨some (((1 : ℕ) : ℝ) / (1 : ℕ)), ?_⟩
  rw [Expr.simplifyDiv, hq]
  rfl

omit [tests.Lawful] in
theorem simplifyDiv_one (h : ∀ c, e ≠ .const c) : Expr.simplifyDiv e one = e := by
  rw [Expr.simplifyDiv_of_not_const fun a _ ha => (h a ha).elim, if_pos Expr.isOne_one]

theorem prod_eq_of_log {es : List (Expr Exact)} {zs : List ℝ} (hs : env dependent = some s)
    (hes : List.Forall₂ (Piece env) es zs)
    (hps : (es.map Expr.simplify).filter (·.mentions dependent) = ps)
    (hF : IsAntiderivative dependent (Expr.simplifyDiv (.product ps) one) F)
    (hlog : F.simplify = lnAbs (.var dependent)) : zs.prod = s := by
  have hp : ∀ p ∈ ps, p.mentions dependent = true := by
    intro p h
    rw [← hps] at h
    simpa using (List.mem_filter.mp h).2
  obtain rfl | ⟨qs, t, rfl⟩ := ps.eq_nil_or_concat
  · obtain ⟨c, hc⟩ := simplifyDiv_one_one
    exact (Expr.not_log_of_const (hc ▸ hF) hlog).elim
  · rw [List.concat_eq_append] at *
    have ht := hp t (by simp)
    rw [simplifyDiv_one (Expr.ne_const_of_mentions
      (Expr.mentions_product_of_ne_nil (by simp) hp))] at hF
    by_cases hq : qs = []
    · subst hq
      obtain ⟨e, z, he, rfl, hz⟩ := (prod_of_pieces hes).2 t hps
      rw [hz]
      exact he.eq_of_log hs hF hlog
    · have hm := Expr.mentions_product_of_ne_nil hq fun p h => hp p (by simp [h])
      rw [Expr.product_append_singleton hq] at hF
      exact (Expr.not_isAntiderivative_mul hm ht hF).elim

theorem prod_eq_of_fraction_log {es os : List (Expr Exact)} {zs : List ℝ}
    (hs : env dependent = some s) (hes : List.Forall₂ (Piece env) es zs)
    (hn : ∀ f ∈ os, f.IsNormal) (hm : ∀ f ∈ os, f.mentions dependent = true)
    (hF : IsAntiderivative dependent (Expr.div (.product es) (.product os)).simplify F)
    (hlog : F.simplify = lnAbs (.var dependent)) :
    zs.prod * (os.map (real env)).prod = s := by
  have hps := simplify_pieces hes
  have hos : (Expr.product os).simplify = .product os := by
    rw [Expr.simplify_product fun f hf => .inr (Expr.simplify_of_isNormal (hn f hf) ▸ hm f hf),
      List.map_congr_left fun f hf => Expr.simplify_of_isNormal (hn f hf), List.map_id',
      List.filter_eq_self.mpr hm]
  have hF : IsAntiderivative dependent
      (Expr.simplifyDiv (Expr.product es).simplify (Expr.product os).simplify) F := hF
  rw [hps, hos] at hF
  generalize hq : (es.map Expr.simplify).filter (·.mentions dependent) = ps at hF
  by_cases hne : os = []
  · subst hne
    rw [List.map_nil, List.prod_nil, mul_one]
    exact prod_eq_of_log hs hes hq hF hlog
  · have hp : ∀ p ∈ ps, p.mentions dependent = true := by
      intro p h
      rw [← hq] at h
      simpa using (List.mem_filter.mp h).2
    have hmo := Expr.mentions_product_of_ne_nil hne hm
    rw [simplifyDiv_product hp hmo] at hF
    obtain ⟨hfree, hvar⟩ := Expr.eq_var_of_log hF hmo hos hlog
    have hnil : ps = [] := by
      by_contra h
      cases (Expr.mentions_product_of_ne_nil h hp).symm.trans hfree
    rw [(prod_of_pieces hes).1 (hq.trans hnil), Expr.eq_singleton_of_product_eq_var hvar]
    simpa using Expr.real_eq (e := .var dependent) hs

/-- If the reciprocal of a fraction integrates to the logarithm of `y`, then
the fraction is `y` wherever it has a value. -/
theorem value_of_reciprocal_log (hs : env dependent = some s)
    (hn : ∀ f ∈ yNum ++ yDen, f.IsNormal) (hm : ∀ f ∈ yNum ++ yDen, f.mentions dependent = true)
    (hv : ∀ f ∈ yNum ++ yDen, HasValue env f) (h0 : ∀ f ∈ yDen, real env f ≠ 0)
    (hF : IsAntiderivative dependent (reciprocal yNum yDen) F)
    (hlog : F.simplify = lnAbs (.var dependent)) :
    (yNum.map (real env)).prod / (yDen.map (real env)).prod = s := by
  simp only [List.forall_mem_append] at hn hm hv
  obtain ⟨zs, hzs, hprod⟩ := pieces_of_numerator hn.1 hm.1 hv.1
  have hes := List.rel_append (pieces_of_denominator hn.2 hm.2 hv.2 h0) hzs
  have hinv : (yDen.map fun f => (real env f)⁻¹).prod = ((yDen.map (real env)).prod)⁻¹ := by
    rw [List.prod_inv, List.map_map]
    rfl
  have hs := prod_eq_of_fraction_log hs hes (fun f hf => hn.1 f (List.mem_filter.mp hf).1)
    (fun f hf => hm.1 f (List.mem_filter.mp hf).1) hF hlog
  rw [List.prod_append, hinv, mul_assoc, ← hprod] at hs
  rw [← hs]
  ring

theorem separate_log_value {rhs xPart yPart yReciprocal : Expr Exact} (hn : rhs.IsNormal)
    (h : separate rhs = .ok (.separable xPart yPart yReciprocal))
    (hlog : yReciprocal.integrate dependent = .ok (lnAbs (.var dependent)))
    (hs : env dependent = some s) (hz : rhs.value env = some z) :
    ∃ p, xPart.value env = some p ∧ z = p * s := by
  obtain ⟨p, hp, hval⟩ := separate_value h hz
  cases separate_eq_ok h
  obtain ⟨F, hF, hF'⟩ := Expr.isAntiderivative_of_integrate hlog
  have hf := factored_of hz
  obtain ⟨hnn, hnd⟩ := ProductFactors.isNormal_of hn
  refine ⟨p, hp, ?_⟩
  rw [hval, value_of_reciprocal_log hs _ _ _ _ hF hF'.symm]
  · rintro f hm
    obtain hm | hm := List.mem_append.mp hm
    · exact hnn f (List.mem_filter.mp hm).1
    · exact hnd f (List.mem_filter.mp hm).1
  · rintro f hm
    obtain hm | hm := List.mem_append.mp hm <;> exact mentions_of_mem_withY hm
  · rintro f hm
    obtain hm | hm := List.mem_append.mp hm
    · exact hf.numerator f (List.mem_filter.mp hm).1
    · exact hf.denominator f (List.mem_filter.mp hm).1
  · exact fun f hm => hf.nonzero f (List.mem_filter.mp hm).1

end

end Family

end SlopeField
