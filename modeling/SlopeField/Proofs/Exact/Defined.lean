import SlopeField.Proofs.Exact.Reading

/-!
# Where every part has a value

`DefinedAt env e`: the tree and all trees in it have values. Each rule of the
simplifier keeps this, so that a run whose tests succeed on the exact numbers
only keeps definedness and value (`simplify_value_eq`), and the antiderivative
that such a run finds has the integrand as its derivative
(`integrate_hasDerivAt`).
-/

noncomputable section

open Filter Topology
open Function (update)
open SlopeField.Derivation (unknown)

namespace SlopeField

theorem ZeroTests.exact_negligible {tests : ZeroTests} {v : ℝ} (h : tests.negligible v = false) :
    tests.exact.negligible v = false := by
  show (tests.negligible v && _) = false
  rw [h, Bool.false_and]

namespace Exact

variable {a b : Exact}

theorem isSome_neg (h : a.isSome) : (-a).isSome := by
  obtain ⟨x, rfl⟩ := Option.isSome_iff_exists.mp h
  rfl

theorem isSome_mul (ha : a.isSome) (hb : b.isSome) : (a * b).isSome := by
  obtain ⟨x, rfl⟩ := Option.isSome_iff_exists.mp ha
  obtain ⟨y, rfl⟩ := Option.isSome_iff_exists.mp hb
  rfl

end Exact

namespace Expr

theorem value_tests (tests tests' : ZeroTests) (env : String → Exact) (e : Expr Exact) :
    @value Exact (@Exact.scalar tests) env e = @value Exact (@Exact.scalar tests') env e := by
  induction e with
  | var | const => rfl
  | neg _ ih => simp only [value, ih]
  | func _ _ ih => simp only [value, ih]; rfl
  | bin _ _ _ ihl ihr => simp only [value, ihl, ihr]; rfl

section
variable [tests : ZeroTests] {env : String → Exact} {e l r : Expr Exact} {c : Exact} {f : Fn}
  {op : BinOp}

def DefinedAt (env : String → Exact) (e : Expr Exact) : Prop :=
  ∀ p ∈ e.parts, (p.value env).isSome

theorem definedAt_const : (const c).DefinedAt env ↔ c.isSome := by
  simp [DefinedAt, parts, value]

theorem definedAt_neg :
    (neg e).DefinedAt env ↔ ((neg e).value env).isSome ∧ e.DefinedAt env := by
  simp [DefinedAt, parts]

theorem definedAt_func :
    (func f e).DefinedAt env ↔ ((func f e).value env).isSome ∧ e.DefinedAt env := by
  simp [DefinedAt, parts]

theorem definedAt_bin : (bin op l r).DefinedAt env ↔
    ((bin op l r).value env).isSome ∧ l.DefinedAt env ∧ r.DefinedAt env := by
  simp [DefinedAt, parts, or_imp, forall_and]

namespace DefinedAt

theorem isSome (h : e.DefinedAt env) : (e.value env).isSome := h e (self_mem_parts e)

theorem fold (h : c.isSome) : (fold c e).DefinedAt env := by
  have hfold : Expr.fold c e = .const c := if_pos h
  rw [hfold]
  exact definedAt_const.mpr h

theorem simplifyNeg (h : e.DefinedAt env) : (simplifyNeg e).DefinedAt env := by
  fun_cases Expr.simplifyNeg e with
  | case1 c =>
    rw [definedAt_const] at h ⊢
    split
    · rfl
    · exact Exact.isSome_neg h
  | case2 e => exact (definedAt_neg.mp h).2
  | case3 e => exact definedAt_neg.mpr ⟨Exact.isSome_neg h.isSome, h⟩

theorem isSome_of_quotientFactor? {b d : Exact} (h : quotientFactor? c b = some d) :
    d.isSome := by
  obtain ⟨⟨-, hf⟩, rfl⟩ := quotientFactor?_eq_some.mp h
  exact hf

theorem scale (hc : c.isSome) (h : e.DefinedAt env) : (scale c e).DefinedAt env := by
  fun_induction Expr.scale c e with
  | case1 => exact fold (Exact.isSome_mul hc (definedAt_const.mp h))
  | case2 | case7 => exact definedAt_const.mpr rfl
  | case3 | case8 => exact h
  | case4 | case9 => exact h.simplifyNeg
  | case5 _ _ _ _ _ _ _ hq ih =>
    exact ih (isSome_of_quotientFactor? hq) (definedAt_bin.mp h).2.1
  | case6 | case10 =>
    exact definedAt_bin.mpr ⟨Exact.isSome_mul hc h.isSome, definedAt_const.mpr hc, h⟩

theorem scaleRight (hc : c.isSome) (h : e.DefinedAt env) : (scaleRight e c).DefinedAt env := by
  fun_cases Expr.scaleRight e c with
  | case1 => exact definedAt_const.mpr rfl
  | case2 => exact h
  | case3 => exact h.simplifyNeg
  | case4 _ _ _ _ _ _ hq => exact scale (isSome_of_quotientFactor? hq) (definedAt_bin.mp h).2.1
  | case5 | case6 =>
    exact definedAt_bin.mpr ⟨Exact.isSome_mul h.isSome hc, h, definedAt_const.mpr hc⟩

theorem simplifyBin (hl : l.DefinedAt env) (hr : r.DefinedAt env)
    (h : ((bin op l r).value env).isSome) : (simplifyBin op l r).DefinedAt env := by
  have hbin : (bin op l r).DefinedAt env := definedAt_bin.mpr ⟨h, hl, hr⟩
  cases op with
  | add =>
    simp only [Expr.simplifyBin]
    fun_cases Expr.simplifyAdd l r with
    | case1 => exact fold h
    | case2 => exact hl
    | case3 => exact hr
    | case4 => exact hbin
  | sub =>
    simp only [Expr.simplifyBin]
    fun_cases Expr.simplifySub l r with
    | case1 => exact fold h
    | case2 => exact hl
    | case3 => exact hr.simplifyNeg
    | case4 => exact hbin
  | mul =>
    simp only [Expr.simplifyBin]
    fun_cases Expr.simplifyMul l r with
    | case1 => exact scale (definedAt_const.mp hl) hr
    | case2 => exact scaleRight (definedAt_const.mp hr) hl
    | case3 => exact hbin
  | div =>
    simp only [Expr.simplifyBin]
    fun_cases Expr.simplifyDiv l r with
    | case1 => exact fold h
    | case2 => exact hl
    | case3 => exact hl.simplifyNeg
    | case4 => exact definedAt_const.mpr rfl
    | case5 => exact hbin
  | pow =>
    simp only [Expr.simplifyBin]
    fun_cases Expr.simplifyPow l r with
    | case1 => exact fold h
    | case2 => exact definedAt_const.mpr rfl
    | case3 => exact hl
    | case4 => exact hbin

theorem simplify [tests.Lawful] (h : e.DefinedAt env) : e.simplify.DefinedAt env := by
  induction e with
  | var | const => exact h
  | neg e ih => exact (ih (definedAt_neg.mp h).2).simplifyNeg
  | func f e ih =>
    obtain ⟨hvalue, he⟩ := definedAt_func.mp h
    exact definedAt_func.mpr ⟨(simplify_refines (func f e)).isSome hvalue, ih he⟩
  | bin op l r ihl ihr =>
    obtain ⟨hvalue, hl, hr⟩ := definedAt_bin.mp h
    refine (ihl hl).simplifyBin (ihr hr) (Exact.Refines.isSome ?_ hvalue)
    exact op.apply_refines (simplify_refines l) (simplify_refines r)

end DefinedAt

-- ---------------------------------------------------------------------------
-- Runs
-- ---------------------------------------------------------------------------

/-- Simplifying keeps the value of a tree at every point where all its parts have
one, and all parts of the result have one there. -/
theorem simplify_value_eq (hexact : e.SimplifiesExactly) (h : e.DefinedAt env) :
    e.simplify.DefinedAt env ∧ e.simplify.value env = e.value env := by
  rw [hexact]
  simp only [DefinedAt, value_tests tests tests.exact] at h ⊢
  let _ := tests.exact
  refine ⟨DefinedAt.simplify h, ?_⟩
  obtain ⟨z, hz⟩ := Option.isSome_iff_exists.mp (DefinedAt.isSome h)
  rw [hz]
  exact simplify_refines e z hz

end

/-- A scaled quotient with a zero added to it, which two rules apply to. -/
theorem simplify_value_quotient :
    letI := ZeroTests.within 1e-9 (by norm_num)
    letI e : Expr Exact :=
      .add (.mul (.const (some 6)) (.div (.var "x") (.const (some 3)))) (.const (some 0))
    e.SimplifiesExactly ∧ e.simplify = .mul (.const (some 2)) (.var "x") ∧
      e.DefinedAt (fun _ => some 5) ∧
      e.simplify.value (fun _ => some 5) = some (6 * (5 / 3) + 0) := by
  let tests := ZeroTests.within 1e-9 (by norm_num)
  let e : Expr Exact :=
    .add (.mul (.const (some 6)) (.div (.var "x") (.const (some 3)))) (.const (some 0))
  have hrun (tests : ZeroTests) (hn : ∀ v : ℝ, 1 ≤ v → tests.negligible v = false)
      (hs : tests.substantial 3 = true) : e.simplify = .mul (.const (some 2)) (.var "x") := by
    have hdiv : simplifyDiv (.var "x") (.const (some 3)) =
        (.div (.var "x") (.const (some 3)) : Expr Exact) := by
      norm_num [simplifyDiv, isOne, isMinusOne, isZero, Scalar.negligible, Arithmetic.ofNat, hn]
    have hmul : scale (some 6) (.div (.var "x") (.const (some 3))) =
        (.mul (.const (some 2)) (.var "x") : Expr Exact) := by
      norm_num [scale, quotientFactor?, isOne, isMinusOne, isZero, Scalar.negligible,
        Scalar.substantial, Arithmetic.ofNat, Arithmetic.isFinite, hn, hs]
    simp only [e, simplify, simplifyBin, hdiv, simplifyMul, hmul]
    exact if_pos tests.negligible_zero
  have hn (v : ℝ) (hv : 1 ≤ v) : tests.negligible v = false := by
    show decide (|v| < 1e-9) = false
    rw [abs_of_pos (by linarith), decide_eq_false_iff_not, not_lt]
    norm_num
    linarith
  have hs : tests.substantial 3 = true := by
    show decide (1e-9 ≤ |(3 : ℝ)|) = true
    norm_num
  have hexact : e.SimplifiesExactly := by
    have hs' : tests.exact.substantial 3 = true := by
      show (tests.substantial 3 && _) = true
      simp [hs]
    refine (hrun tests hn hs).trans (hrun tests.exact (fun v hv => ?_) hs').symm
    exact ZeroTests.exact_negligible (hn v hv)
  have hdef : e.DefinedAt (fun _ => some 5) := by
    simp [e, DefinedAt, parts, value, BinOp.apply]
  refine ⟨hexact, hrun tests hn hs, hdef, (simplify_value_eq hexact hdef).2.trans ?_⟩
  simp [e, value, BinOp.apply]

section
variable [tests : ZeroTests] {env : String → Exact} {e F : Expr Exact}

def IntegratesExactly (e : Expr Exact) (v : String) : Prop :=
  e.integrate v = @integrate Exact (@Exact.scalar tests.exact) e v

/-- Around every point where all parts of the integrand have values, the
antiderivative has values, and its derivative is the integrand. -/
theorem integrate_hasDerivAt {v : String} {x : ℝ} (hexact : e.IntegratesExactly v)
    (h : e.integrate v = .ok F) (hdef : ∀ᶠ t in 𝓝 x, e.DefinedAt (update env v (some t))) :
    (∀ᶠ t in 𝓝 x, (F.along env v t).isSome) ∧
      ∃ d, e.along env v x = some d ∧ HasDerivAt (fun t => (F.along env v t).getD 0) d x := by
  rw [hexact] at h
  simp only [DefinedAt, along, value_tests tests tests.exact] at hdef ⊢
  let _ := tests.exact
  have hvalue : ∀ᶠ t in 𝓝 x, (e.along env v t).isSome := hdef.mono fun t ht => DefinedAt.isSome ht
  obtain ⟨d, hd⟩ := Option.isSome_iff_exists.mp hvalue.self_of_nhds
  have hslope := hasSlope_integrate h hd fun _ => hvalue
  refine ⟨?_, d, hd, hslope.hasDerivAt_getD 0⟩
  obtain ⟨g, hg, -⟩ := hslope
  exact hg.mono fun t ht => Option.isSome_of_eq_some ht

end

/-- The inverse of the unknown left of zero, where its antiderivative is the
logarithm of the absolute value. -/
theorem integrate_inverse_hasDerivAt :
    letI := ZeroTests.within 1e-9 (by norm_num)
    letI e : Expr Exact := .div .one unknown
    e.IntegratesExactly dependent ∧ e.integrate dependent = .ok (lnAbs unknown) ∧
      (∀ᶠ t in 𝓝 (-2), e.DefinedAt (update (fun _ => none) dependent (some t))) ∧
      HasDerivAt (fun t => ((lnAbs unknown : Expr Exact).along (fun _ => none) dependent t).getD 0)
        (1 / -2) (-2) := by
  let tests := ZeroTests.within 1e-9 (by norm_num)
  let e : Expr Exact := .div .one unknown
  have h1 : tests.negligible 1 = false := by
    show decide (|(1 : ℝ)| < 1e-9) = false
    norm_num
  have hexact : e.IntegratesExactly dependent := by
    rw [IntegratesExactly, integrate_inverse h1]
    let _ := tests.exact
    exact (integrate_inverse (ZeroTests.exact_negligible h1)).symm
  have hvalue (t : ℝ) (ht : t ≠ 0) : e.along (fun _ => none) dependent t = some (1 / t) := by
    simp [e, along, value, BinOp.apply, unknown, Arithmetic.ofNat, ht]
  have hdef : ∀ᶠ t in 𝓝 (-2 : ℝ), e.DefinedAt (update (fun _ => none) dependent (some t)) := by
    refine (eventually_ne_nhds (by norm_num : (-2 : ℝ) ≠ 0)).mono fun t ht => ?_
    refine definedAt_bin.mpr ⟨Option.isSome_of_eq_some (hvalue t ht), ?_, ?_⟩
    · exact definedAt_const.mpr rfl
    · simp [DefinedAt, parts, value, unknown]
  obtain ⟨-, d, hd, hder⟩ := integrate_hasDerivAt hexact (integrate_inverse h1) hdef
  cases (hvalue (-2) (by norm_num)).symm.trans hd
  exact ⟨hexact, integrate_inverse h1, hdef, hder⟩

end Expr

end SlopeField

end
