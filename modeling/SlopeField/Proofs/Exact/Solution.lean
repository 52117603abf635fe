import SlopeField.Decimal.Basic
import SlopeField.Proofs.Equation.ClosedForm
import SlopeField.Proofs.Exact.Reciprocal

/-!
# Explicit solutions solve their equations

A closed form is followed along `x`, with a number for its constant. Around
every point where it has values and the right-hand side has values on it, its
slope is the right-hand side. For each family the slope of the formula comes
from the slopes of its antiderivatives; simplification only adds values.
-/

noncomputable section

namespace SlopeField

open Filter Topology
open Function (update)
open Exact (HasSlope Refines)
open SlopeField.Derivation (arbitrary unknown)

def Expr.solutionAt [ZeroTests] (S : Expr Exact) (c : ℝ) (y : Exact) (x : ℝ) : Exact :=
  (S.subst integrationConstant (.const (some c))).eval (some x) y

section
variable [tests : ZeroTests] {env env' : String → Exact} {e R S : Expr Exact} {c x t : ℝ}
  {y : Exact}

theorem Expr.value_refines (h : ∀ v, Refines (env v) (env' v)) :
    Refines (e.value env) (e.value env') := by
  induction e with
  | var name => exact h name
  | const => exact .refl _
  | neg _ ih => exact ih.neg
  | func f _ ih => exact f.apply_refines ih
  | bin op _ _ ihl ihr => exact op.apply_refines ihl ihr

def constants (c : ℝ) (y : Exact) : String → Exact :=
  update (Expr.lookup · none y) integrationConstant (some c)

theorem solutionAt_eq_along (S : Expr Exact) (c : ℝ) (y : Exact) (t : ℝ) :
    S.solutionAt c y t = S.along (constants c y) independent t := by
  have henv : update (Expr.lookup · (some t) y) integrationConstant (some c) =
      update (constants c y) independent (some t) := by
    funext v
    by_cases hx : v = independent
    · subst hx
      simp [update, Expr.lookup, independent, integrationConstant]
    · by_cases hc : v = integrationConstant
      · subst hc
        simp [update, constants, independent, integrationConstant]
      · simp [update, constants, Expr.lookup, hx, hc]
  rw [Expr.solutionAt, Expr.eval_eq_value, Expr.value_subst, Expr.along, ← henv]
  rfl

theorem along_of_eval {z : ℝ} {s : Exact} (hy : e.mentions dependent = false)
    (h : e.value (Expr.lookup · (some t) s) = some z) :
    e.along (constants c y) independent t = some z := by
  rw [← Expr.value_update hy y] at h
  refine Expr.value_refines (fun v => ?_) z h
  intro w hw
  by_cases hx : v = independent
  · subst hx
    simpa [update, Expr.lookup, independent, dependent] using hw
  · by_cases hd : v = dependent
    · subst hd
      simpa [update, constants, Expr.lookup, independent, dependent, integrationConstant] using hw
    · simp [update, Expr.lookup, hx, hd, Scalar.undefined] at hw

theorem along_arbitrary (t : ℝ) :
    (arbitrary : Expr Exact).along (constants c y) independent t = some c := by
  simp [arbitrary, Expr.along, Expr.value, constants, update, independent, integrationConstant]

theorem hasSlope_arbitrary (x : ℝ) :
    HasSlope ((arbitrary : Expr Exact).along (constants c y) independent) 0 x := by
  have h : (arbitrary : Expr Exact).along (constants c y) independent = fun _ => some c :=
    funext along_arbitrary
  rw [h]
  exact .const c x

-- ---------------------------------------------------------------------------
-- Slopes of the formulas
-- ---------------------------------------------------------------------------

variable {F P a b : Expr Exact} {d p q w : ℝ}

theorem hasSlope_add_arbitrary (hF : HasSlope (F.along (constants c y) independent) d x) :
    HasSlope ((Expr.add F arbitrary).along (constants c y) independent) d x := by
  have h := hF.add (hasSlope_arbitrary (c := c) (y := y) x)
  rw [add_zero] at h
  exact h

theorem along_exp (hP : P.along env independent x = some w) :
    (Expr.func .exp P).along env independent x = some (Real.exp w) := by
  show Fn.exp.apply (P.along env independent x) = _
  rw [hP]
  rfl

theorem hasSlope_exp (hP : HasSlope (P.along env independent) d x)
    (hw : P.along env independent x = some w) :
    HasSlope ((Expr.func .exp P).along env independent) (Real.exp w * d) x :=
  (Exact.hasSlope_exp w).comp (p := Fn.exp.apply) hP hw

theorem hasSlope_separable (hF : HasSlope (F.along (constants c y) independent) p x) :
    ∃ s, (Expr.mul arbitrary (.func .exp F)).along (constants c y) independent x = some s ∧
      HasSlope ((Expr.mul arbitrary (.func .exp F)).along (constants c y) independent)
        (p * s) x := by
  obtain ⟨w, hw⟩ := hF.exists_value
  refine ⟨c * Real.exp w, Exact.mul_eq_some.mpr ⟨_, _, along_arbitrary x, along_exp hw, rfl⟩, ?_⟩
  have hd : p * (c * Real.exp w) = c * (Real.exp w * p) := by ring
  rw [hd]
  exact Expr.hasSlope_mul_free rfl (along_arbitrary x) (hasSlope_exp hF hw)

theorem hasSlope_linear {mu : Expr Exact} {m : ℝ}
    (hmu : HasSlope (mu.along (constants c y) independent) (m * -p) x)
    (hm : mu.along (constants c y) independent x = some m) (h0 : m ≠ 0)
    (hF : HasSlope (F.along (constants c y) independent) (m * q) x) :
    ∃ s, (Expr.div (.add F arbitrary) mu).along (constants c y) independent x = some s ∧
      HasSlope ((Expr.div (.add F arbitrary) mu).along (constants c y) independent)
        (p * s + q) x := by
  have hnum := hasSlope_add_arbitrary hF
  obtain ⟨k, hk⟩ := hnum.exists_value
  refine ⟨k / m, Exact.div_eq_some.mpr ⟨_, _, hk, hm, h0, rfl⟩, ?_⟩
  have h := hnum.div hmu hk hm h0
  have hd : (m * q * m - k * (m * -p)) / m ^ 2 = p * (k / m) + q := by
    field_simp
    ring
  rw [hd] at h
  exact h

-- ---------------------------------------------------------------------------
-- Closed forms
-- ---------------------------------------------------------------------------

section
variable [tests.Lawful]

theorem solutionAt_simplify {G : Expr Exact} {s : ℝ}
    (h : G.along (constants c y) independent x = some s) :
    G.simplify.solutionAt c y x = some s := by
  rw [solutionAt_eq_along]
  exact Expr.simplify_refines G s h

theorem hasSlope_simplify {G : Expr Exact}
    (h : HasSlope (G.along (constants c y) independent) d x) :
    HasSlope (G.simplify.solutionAt c y) d x := by
  rw [funext (solutionAt_eq_along G.simplify c y)]
  exact h.mono fun t => Expr.simplify_refines G

theorem integratingFactor_along (hP : (Expr.neg a).simplify.integrate independent = .ok P)
    (ha : a.along env independent x = some p) (hb : b.along env independent x = some q) :
    (Expr.neg a).simplify.along env independent x = some (-p) ∧
    ∃ w, P.along env independent x = some w ∧
      (Expr.func .exp P).simplify.along env independent x = some (Real.exp w) ∧
      (Expr.mul (Expr.func .exp P).simplify b).simplify.along env independent x =
        some (Real.exp w * q) := by
  have hneg : (Expr.neg a).simplify.along env independent x = some (-p) :=
    Expr.simplify_refines (.neg a) _ (Exact.neg_eq_some.mpr ⟨p, ha, rfl⟩)
  obtain ⟨w, hw⟩ := Expr.integrate_exists_value hP hneg
  have hmu := Expr.simplify_refines (.func .exp P) _ (along_exp hw)
  refine ⟨hneg, w, hw, hmu, Expr.simplify_refines _ _ ?_⟩
  exact Exact.mul_eq_some.mpr ⟨_, _, hmu, hb, rfl⟩

def DefinedOn (R S : Expr Exact) (c : ℝ) (y : Exact) (t : ℝ) : Prop :=
  ∃ s z, S.solutionAt c y t = some s ∧ R.value (Expr.lookup · (some t) (some s)) = some z

/-- Around every point where the right-hand side has values on a closed form,
it is the slope of the closed form. -/
theorem ClosedForm.hasSlope (hcf : ClosedForm R S) (hn : R.IsNormal)
    (h : ∀ᶠ t in 𝓝 x, DefinedOn R S c y t) :
    ∃ s z, S.solutionAt c y x = some s ∧
      R.value (Expr.lookup · (some x) (some s)) = some z ∧ HasSlope (S.solutionAt c y) z x := by
  obtain ⟨s, z, hs, hz⟩ := h.self_of_nhds
  refine ⟨s, z, hs, hz, ?_⟩
  cases hcf with
  | @direct F hy hF =>
    refine hasSlope_simplify (hasSlope_add_arbitrary ?_)
    refine Expr.hasSlope_integrate hF (along_of_eval hy hz) fun _ => h.mono ?_
    rintro t ⟨s', z', -, hz'⟩
    exact Option.isSome_of_eq_some (along_of_eval hy hz')
  | @separable xPart yPart yReciprocal F hsep hlog hF =>
    have hy := Family.separate_free hsep
    obtain ⟨p, hp, rfl⟩ := Family.separate_log_value hn hsep hlog rfl hz
    have hslope : HasSlope (F.along (constants c y) independent) p x := by
      refine Expr.hasSlope_integrate hF (along_of_eval hy hp) fun _ => h.mono ?_
      rintro t ⟨s', z', -, hz'⟩
      obtain ⟨p', hp', -⟩ := Family.separate_log_value hn hsep hlog rfl hz'
      exact Option.isSome_of_eq_some (along_of_eval hy hp')
    obtain ⟨s', hs', hS⟩ := hasSlope_separable hslope
    cases hs.symm.trans (solutionAt_simplify hs')
    exact hasSlope_simplify hS
  | @linear a b P _ F hcol hP hmu hF =>
    subst hmu
    obtain ⟨hya, hyb⟩ := Family.collect_free hcol
    obtain ⟨p, q, ha, hb, rfl⟩ := Family.collect_value hcol rfl hz
    obtain ⟨hneg, w, hw, hmu, hmul⟩ :=
      integratingFactor_along hP (along_of_eval (c := c) (y := y) hya ha) (along_of_eval hyb hb)
    have hparts : ∀ᶠ t in 𝓝 x, ∃ p' q' w',
        (Expr.neg a).simplify.along (constants c y) independent t = some p' ∧
        (Expr.mul (Expr.func .exp P).simplify b).simplify.along (constants c y) independent t =
          some (Real.exp w' * q') := by
      refine h.mono ?_
      rintro t ⟨s', z', -, hz'⟩
      obtain ⟨p', q', ha', hb', -⟩ := Family.collect_value hcol rfl hz'
      obtain ⟨hneg', w', -, -, hmul'⟩ :=
        integratingFactor_along hP (along_of_eval hya ha') (along_of_eval hyb hb')
      exact ⟨-p', q', w', hneg', hmul'⟩
    have hPs : HasSlope (P.along (constants c y) independent) (-p) x := by
      refine Expr.hasSlope_integrate hP hneg fun _ => hparts.mono ?_
      rintro t ⟨p', q', w', hneg', -⟩
      exact Option.isSome_of_eq_some hneg'
    have hFs : HasSlope (F.along (constants c y) independent) (Real.exp w * q) x := by
      refine Expr.hasSlope_integrate hF hmul fun _ => hparts.mono ?_
      rintro t ⟨p', q', w', -, hmul'⟩
      exact Option.isSome_of_eq_some hmul'
    have hmus := (hasSlope_exp hPs hw).mono fun t => Expr.simplify_refines (.func .exp P)
    obtain ⟨s', hs', hS⟩ := hasSlope_linear hmus hmu (Real.exp_ne_zero w) hFs
    cases hs.symm.trans (solutionAt_simplify hs')
    exact hasSlope_simplify hS

end

end

-- ---------------------------------------------------------------------------
-- Runs
-- ---------------------------------------------------------------------------

/-- No zero test of the run succeeds on a number other than zero, so that
nothing changes where the tests are made exact. -/
def IsExactRun [tests : ZeroTests] [Numeral Exact] (text : String) : Prop :=
  (solve text : SolveRecord Exact) = @solve Exact (@Exact.scalar tests.exact) _ text

theorem eval_tests (tests tests' : ZeroTests) (e : Expr Exact) (x y : Exact) :
    @Expr.eval Exact (@Exact.scalar tests) x y e =
      @Expr.eval Exact (@Exact.scalar tests') x y e := by
  induction e with
  | var | const => rfl
  | neg _ ih => simp only [Expr.eval, ih]; rfl
  | func _ _ ih => simp only [Expr.eval, ih]; rfl
  | bin _ _ _ ihl ihr => simp only [Expr.eval, ihl, ihr]; rfl

/-- An explicit solution solves its equation. For every number in place of its
constant, around every point where the solution has values and the right-hand
side has values on it, the derivative of the solution is the right-hand side. -/
theorem solve_explicit_hasDerivAt [tests : ZeroTests] [Numeral Exact] {text : String}
    (hrun : IsExactRun text)
    (hform : (solve text : SolveRecord Exact).form = some .explicit) :
    ∃ R S, (solve text : SolveRecord Exact).rhs = some R ∧
      (solve text : SolveRecord Exact).solution = some S ∧
      ∀ (c x : ℝ) (y : Exact),
        (∀ᶠ t in 𝓝 x, (S.solutionAt c y t).isSome ∧
          (R.eval (some t) (S.solutionAt c y t)).isSome) →
        ∃ slope, R.eval (some x) (S.solutionAt c y x) = some slope ∧
          HasDerivAt (fun t => (S.solutionAt c y t).getD 0) slope x := by
  rw [hrun] at hform ⊢
  obtain ⟨R, S, hR, hS, hn, hcf⟩ :=
    @closedForm_of_solve Exact (@Exact.scalar tests.exact) _ _ hform
  refine ⟨R, S, hR, hS, ?_⟩
  intro c x y h
  simp only [Expr.solutionAt, eval_tests tests tests.exact] at h ⊢
  let _ := tests.exact
  have hdef : ∀ᶠ t in 𝓝 x, DefinedOn R S c y t := by
    refine h.mono ?_
    rintro t ⟨hs, hz⟩
    obtain ⟨s, hs⟩ := Option.isSome_iff_exists.mp hs
    obtain ⟨z, hz⟩ := Option.isSome_iff_exists.mp hz
    rw [hs, Expr.eval_eq_value] at hz
    exact ⟨s, z, hs, hz⟩
  obtain ⟨s, z, hs, hz, hslope⟩ := hcf.hasSlope hn hdef
  refine ⟨z, ?_, hslope.hasDerivAt_getD 0⟩
  rw [← hz, ← Expr.eval_eq_value, ← hs]
  rfl

-- The equation of growth, which makes tests that succeed on the number one.

/-- Decimals with their exact values, and numbers written by their whole part. -/
@[reducible] def Exact.decimals : Numeral Exact where
  read? s := (Decimal.read? s.toList).map fun d => some (d.digits * 10 ^ d.exponent)
  text v := (v.map fun r => toString ⌊r⌋).getD "NaN"
  pi := some Real.pi
  e := some (Real.exp 1)

section
variable [tests : ZeroTests] (h1 : tests.negligible 1 = false)
include h1

theorem classify_growth : Family.classify (unknown : Expr Exact) =
    .separable .one unknown (.div .one unknown) := by
  simp [Family.classify, Family.separate, Family.reciprocal, Family.reciprocalPower?,
    ProductFactors.of, Expr.product, unknown, Expr.signed, Expr.mentions, Expr.mentionsBoth,
    dependent, independent, Expr.simplify, Expr.simplifyBin, Expr.simplifyDiv, Expr.fold,
    Expr.isZero, Expr.isOne, Expr.isMinusOne, Scalar.negligible, Arithmetic.ofNat,
    Arithmetic.isFinite, List.filterMap_cons, tests.negligible_zero, h1]

theorem integrate_one : Expr.one.integrate independent = .ok (.var independent) := by
  simp [Expr.integrate, Expr.antiderivative, Expr.mentions, Bind.bind, Except.bind, pure,
    Except.pure, Expr.simplify, Expr.simplifyBin, Expr.simplifyMul, Expr.scale, Expr.isZero,
    Expr.isOne, Scalar.negligible, Arithmetic.ofNat, tests.negligible_zero, h1]

theorem integrate_inverse :
    (Expr.div .one unknown).integrate dependent = .ok (Expr.lnAbs unknown) := by
  simp [Expr.integrate, Expr.antiderivative, Expr.quotientRule?, Expr.lnAbs, unknown,
    Expr.mentions, Bind.bind, Except.bind, pure, Except.pure, Expr.simplify, Expr.simplifyBin,
    Expr.simplifyMul, Expr.scale, Expr.isZero, Expr.isOne, Scalar.negligible, Arithmetic.ofNat,
    tests.negligible_zero, h1]

theorem solveEquation_growth [Numeral Exact] :
    solveEquation "dy/dx = y" =
      (Derivation.separable .one unknown (.div .one unknown)).map fun d =>
        (⟨unknown, .separable .one unknown (.div .one unknown), some d⟩ : Solution Exact) := by
  have hparse : parseEquation "dy/dx = y" = .ok (unknown : Expr Exact) := by cbv
  have hdef : (unknown : Expr Exact).undefinedConstant = none := rfl
  rw [solveEquation, hparse]
  simp only [Except.mapError, Bind.bind, Except.bind, hdef, classify_growth h1,
    Derivation.ofFamily, pure, Except.pure]
  cases Derivation.separable .one unknown (.div .one (unknown : Expr Exact)) <;> rfl

theorem solve_growth [Numeral Exact] :
    (solve "dy/dx = y" : SolveRecord Exact).form = some .explicit ∧
    (solve "dy/dx = y" : SolveRecord Exact).rhs = some unknown ∧
    (solve "dy/dx = y" : SolveRecord Exact).solution =
      some (.mul arbitrary (.func .exp (.var independent))) := by
  rw [solve, solveEquation_growth h1, Derivation.separable, integrate_inverse h1, integrate_one h1]
  exact ⟨rfl, rfl, rfl⟩

theorem isExactRun_growth [Numeral Exact] : IsExactRun "dy/dx = y" := by
  have h1' : tests.exact.negligible 1 = false := by
    show (tests.negligible 1 && _) = false
    rw [h1, Bool.false_and]
  rw [IsExactRun, solve, solveEquation_growth h1, Derivation.separable, integrate_inverse h1,
    integrate_one h1]
  let _ := tests.exact
  rw [solve, solveEquation_growth h1', Derivation.separable, integrate_inverse h1',
    integrate_one h1']
  rfl

end

theorem growth_hasDerivAt :
    letI := ZeroTests.within 1e-9 (by norm_num)
    letI := Exact.decimals
    IsExactRun "dy/dx = y" ∧ (solve "dy/dx = y" : SolveRecord Exact).form = some .explicit ∧
      HasDerivAt (fun t => 2 * Real.exp t) (2 * Real.exp 1) 1 := by
  let tests := ZeroTests.within 1e-9 (by norm_num)
  let _ := Exact.decimals
  have h1 : tests.negligible 1 = false := by
    show decide (|(1 : ℝ)| < 1e-9) = false
    norm_num
  have hrun : IsExactRun "dy/dx = y" := isExactRun_growth h1
  obtain ⟨hform, hrhs, hsolution⟩ := solve_growth h1
  refine ⟨hrun, hform, ?_⟩
  obtain ⟨R, S, hR, hS, hsol⟩ := solve_explicit_hasDerivAt hrun hform
  cases hrhs.symm.trans hR
  cases hsolution.symm.trans hS
  have hval (t : ℝ) : (Expr.mul arbitrary (.func .exp (.var independent))).solutionAt 2 none t =
      some (2 * Real.exp t) := rfl
  obtain ⟨slope, hslope, hder⟩ := hsol 2 1 none (.of_forall fun t => ⟨rfl, rfl⟩)
  rw [hval] at hslope
  cases hslope
  exact hder

end SlopeField

end
