import SlopeField.Proofs.Equation.Undefined

/-!
# The two evaluators

`eval` counts every intermediate result that is not finite as undefined,
`slope` only the last one. They give the same number, or both none, unless an
infinite intermediate result is lost again on the way, as in `1 / (1 / x)` at
zero (`slope_eq_eval_iff`). Then `slope` gives a number and `eval` none; where
`eval` gives a number, `slope` gives the same.
-/

namespace SlopeField

open Arithmetic (isFinite)

namespace Expr

open Scalar (undefined)

section
variable {α : Type} [Scalar α]

/-- The parts that the value depends on are finite: all parts, but for the base
of a zeroth power and the exponent of a power of one. -/
inductive Settled (x y : α) : Expr α → Prop
  | var : isFinite (lookup name x y) = true → Settled x y (.var name)
  | const : isFinite c = true → Settled x y (.const c)
  | neg : Settled x y e → isFinite ((Expr.neg e).compile x y) = true → Settled x y (.neg e)
  | func : Settled x y e → isFinite ((Expr.func f e).compile x y) = true →
      Settled x y (.func f e)
  | bin : Settled x y l → Settled x y r → isFinite ((Expr.bin op l r).compile x y) = true →
      Settled x y (.bin op l r)
  | zeroth : Settled x y r → Scalar.isZero (r.compile x y) = true → Settled x y (.pow l r)
  | ofOne : Settled x y l → l.compile x y = Arithmetic.ofNat 1 → Settled x y (.pow l r)

end

/-- The library functions that the tree calls hand an undefined argument on; a
power does so unless it is one whatever the operand is. -/
structure CallsHandOn (e : Expr Float) : Prop where
  func {f : Fn} {arg : Expr Float} : .func f arg ∈ e.parts →
    f.apply (undefined : Float) = undefined
  base {l r : Expr Float} : .pow l r ∈ e.parts → ∀ b : Float, (b == 0.0) = false →
    Float.pow undefined b = undefined
  exponent {l r : Expr Float} : .pow l r ∈ e.parts → ∀ a : Float, (a == 1.0) = false →
    Float.pow a undefined = undefined

variable {e l r p : Expr Float} {op : BinOp} {x y a b : Float}

theorem isFinite_finiteOrUndefined (v : Float) :
    isFinite (Scalar.finiteOrUndefined v) = isFinite v := by
  unfold Scalar.finiteOrUndefined
  split
  · rfl
  · rename_i h
    rw [Bool.eq_false_iff.mpr h]
    rfl

theorem finiteOrUndefined_of_isFinite {v : Float} (h : isFinite v = true) :
    Scalar.finiteOrUndefined v = v := if_pos h

theorem eval_isFinite_or_undefined (e : Expr Float) (x y : Float) :
    isFinite (e.eval x y) = true ∨ e.eval x y = undefined := by
  cases h : isFinite (e.eval x y) with
  | true => exact .inl rfl
  | false => exact .inr (eval_of_not_finite h)

theorem CallsHandOn.of_mem (h : e.CallsHandOn) (hp : p ∈ e.parts) : p.CallsHandOn where
  func hf := h.func (mem_parts_trans hf hp)
  base hb := h.base (mem_parts_trans hb hp)
  exponent hb := h.exponent (mem_parts_trans hb hp)

-- ---------------------------------------------------------------------------
-- Powers that are one
-- ---------------------------------------------------------------------------

theorem pow_of_isZero (h : Scalar.isZero b = true) (a : Float) : Scalar.pow a b = 1.0 := by
  have h : (b == 0.0) = true := h
  simp [Scalar.pow, Binary64.pow, h]

theorem pow_of_eq_one (h : a = Arithmetic.ofNat 1) (b : Float) : Scalar.pow a b = 1.0 := by
  have h : (a == 1.0) = true := h ▸ rfl
  simp [Scalar.pow, Binary64.pow, h]

-- ---------------------------------------------------------------------------
-- Settled trees
-- ---------------------------------------------------------------------------

theorem Settled.eval_eq (h : Settled x y e) :
    e.eval x y = e.compile x y ∧ isFinite (e.compile x y) = true := by
  induction h with
  | var hf | const hf => exact ⟨finiteOrUndefined_of_isFinite hf, hf⟩
  | neg _ hf ih =>
    simp only [eval, ih.1]
    exact ⟨finiteOrUndefined_of_isFinite hf, hf⟩
  | func _ hf ih =>
    simp only [eval, ih.1]
    exact ⟨finiteOrUndefined_of_isFinite hf, hf⟩
  | bin _ _ hf ihl ihr =>
    simp only [eval, ihl.1, ihr.1]
    exact ⟨finiteOrUndefined_of_isFinite hf, hf⟩
  | zeroth _ hz ih =>
    simp only [eval, compile, BinOp.apply, ih.1, pow_of_isZero hz]
    exact ⟨rfl, rfl⟩
  | ofOne _ hone ih =>
    simp only [eval, compile, BinOp.apply, ih.1, pow_of_eq_one hone]
    exact ⟨rfl, rfl⟩

theorem settled_pow (hcalls : (pow l r).CallsHandOn)
    (ihl : isFinite (l.eval x y) = true → Settled x y l)
    (ihr : isFinite (r.eval x y) = true → Settled x y r)
    (h : isFinite (Scalar.pow (l.eval x y) (r.eval x y)) = true) : Settled x y (pow l r) := by
  rcases l.eval_isFinite_or_undefined x y with hl | hl
  · have hsl := ihl hl
    rcases r.eval_isFinite_or_undefined x y with hr | hr
    · have hsr := ihr hr
      rw [hsl.eval_eq.1, hsr.eval_eq.1] at h
      exact .bin hsl hsr h
    · rw [hr] at h
      have hone := Binary64.eq_one_of_pow (hcalls.exponent (self_mem_parts _) _) h
      exact .ofOne hsl (hsl.eval_eq.1.symm.trans hone)
  · rw [hl] at h
    have hz := Binary64.isZero_of_pow (hcalls.base (self_mem_parts _) _) h
    rcases r.eval_isFinite_or_undefined x y with hr | hr
    · have hsr := ihr hr
      rw [hsr.eval_eq.1] at hz
      exact .zeroth hsr hz
    · -- An undefined exponent is not zero.
      rw [hr] at hz
      cases hz

theorem settled_bin (hop : op ≠ .pow) (ihl : isFinite (l.eval x y) = true → Settled x y l)
    (ihr : isFinite (r.eval x y) = true → Settled x y r)
    (h : isFinite (op.apply (l.eval x y) (r.eval x y)) = true) : Settled x y (bin op l r) := by
  rcases l.eval_isFinite_or_undefined x y with hl | hl
  · rcases r.eval_isFinite_or_undefined x y with hr | hr
    · have hsl := ihl hl
      have hsr := ihr hr
      rw [hsl.eval_eq.1, hsr.eval_eq.1] at h
      exact .bin hsl hsr h
    · rw [hr, Binary64.apply_undefined_right hop] at h
      cases h
  · rw [hl, Binary64.apply_undefined_left hop] at h
    cases h

/-- A tree with a finite value is settled, since what is not finite on the way is
undefined and handed on. -/
theorem settled_of_isFinite_eval (hcalls : e.CallsHandOn) (h : isFinite (e.eval x y) = true) :
    Settled x y e := by
  induction e with
  | var =>
    rw [eval, isFinite_finiteOrUndefined] at h
    exact .var h
  | const =>
    rw [eval, isFinite_finiteOrUndefined] at h
    exact .const h
  | neg e ih =>
    have ih := ih (hcalls.of_mem (by simp [parts]))
    rw [eval, isFinite_finiteOrUndefined] at h
    rcases e.eval_isFinite_or_undefined x y with he | he
    · rw [(ih he).eval_eq.1] at h
      exact .neg (ih he) h
    · rw [he] at h
      cases h
  | func f e ih =>
    have ih := ih (hcalls.of_mem (by simp [parts]))
    rw [eval, isFinite_finiteOrUndefined] at h
    rcases e.eval_isFinite_or_undefined x y with he | he
    · rw [(ih he).eval_eq.1] at h
      exact .func (ih he) h
    · rw [he, hcalls.func (self_mem_parts _)] at h
      cases h
  | bin op l r ihl ihr =>
    have ihl := ihl (hcalls.of_mem (by simp [parts]))
    have ihr := ihr (hcalls.of_mem (by simp [parts]))
    rw [eval, isFinite_finiteOrUndefined] at h
    by_cases hop : op = .pow
    · subst hop
      exact settled_pow hcalls ihl ihr h
    · exact settled_bin hop ihl ihr h

/-- The evaluators agree at a point exactly if the value of the compiled function
is not finite, or no part that it depends on is infinite or undefined. A number
that the direct evaluator gives is always the one that the compiled function
gives. -/
theorem slope_eq_eval_iff (hcalls : e.CallsHandOn) (x y : Float) :
    (e.slope x y = e.eval x y ↔ (isFinite (e.compile x y) = true → Settled x y e)) ∧
      (isFinite (e.eval x y) = true → e.slope x y = e.eval x y) := by
  have hagree (h : Settled x y e) : e.slope x y = e.eval x y := by
    obtain ⟨heval, hfinite⟩ := h.eval_eq
    rw [slope, finiteOrUndefined_of_isFinite hfinite, heval]
  refine ⟨⟨fun heq hfinite => ?_, fun h => ?_⟩, fun h => hagree (settled_of_isFinite_eval hcalls h)⟩
  · refine settled_of_isFinite_eval hcalls ?_
    rwa [← heq, slope, isFinite_finiteOrUndefined]
  · rcases e.eval_isFinite_or_undefined x y with heval | heval
    · exact hagree (settled_of_isFinite_eval hcalls heval)
    · cases hfinite : isFinite (e.compile x y) with
      | true => exact hagree (h hfinite)
      | false =>
        rw [heval, slope, Scalar.finiteOrUndefined, hfinite]
        rfl

def doubleInverse : Expr Float := .div (.const 1.0) (.div (.const 1.0) (.var independent))

/-- At zero the inverse is infinite, and one over it is zero again. -/
theorem doubleInverse_at_zero :
    doubleInverse.CallsHandOn ∧ doubleInverse.compile 0.0 0.0 = 0.0 ∧
      ¬Settled 0.0 0.0 doubleInverse ∧
      doubleInverse.slope 0.0 0.0 ≠ doubleInverse.eval 0.0 0.0 := by
  have hcalls : doubleInverse.CallsHandOn := by
    constructor
    all_goals
      intro _ _ h
      simp [doubleInverse, parts] at h
  have hzero : doubleInverse.compile 0.0 0.0 = 0.0 := by decide +kernel
  have hsettled : ¬Settled 0.0 0.0 doubleInverse := by
    intro h
    cases h with
    | bin _ hinverse => exact absurd hinverse.eval_eq.2 (by decide +kernel)
  refine ⟨hcalls, hzero, hsettled, fun heq => hsettled ?_⟩
  exact (slope_eq_eval_iff hcalls 0.0 0.0).1.mp heq (hzero ▸ rfl)

/-- A division by zero inside a tree may give a number in the compiled function
where the direct evaluator gives none. -/
theorem evaluators_differ :
    ¬∀ (e : Expr Float) (x y : Float), x.isFinite = true → y.isFinite = true →
      e.slope x y = e.eval x y := by
  intro h
  have heq := h doubleInverse 0.0 0.0 rfl rfl
  exact absurd heq (by decide +kernel)

end Expr

end SlopeField
