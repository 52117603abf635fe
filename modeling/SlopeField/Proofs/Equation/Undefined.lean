import SlopeField.Proofs.Binary64
import SlopeField.Proofs.Equation.ClosedForm
import SlopeField.Proofs.Exact.Solution
import SlopeField.Proofs.Expr.Leaves

/-!
# Parts without a value

An equation is refused if an outermost part without variables has no value.
Where every operation hands an undefined operand on, this reaches the parts
inside as well. Powers do not: the zeroth power is one and so is every power of
one, whatever stands in the other place. `solveEquation_defined_iff` says that
nothing else lets a part without a value through.
-/

namespace SlopeField

variable {α : Type} [Scalar α]

/-- An undefined operand makes the result undefined, except for the powers that
are one whatever the operand is. -/
class Strict (α : Type) [Scalar α] : Prop where
  undefined : Arithmetic.isFinite (Scalar.undefined : α) = false
  isZero_undefined : Scalar.isZero (Scalar.undefined : α) = false
  neg : Arithmetic.isFinite (-Scalar.undefined : α) = false
  func (f : Fn) : Arithmetic.isFinite (f.apply (Scalar.undefined : α)) = false
  left {op : BinOp} (hop : op ≠ .pow) (b : α) :
    Arithmetic.isFinite (op.apply Scalar.undefined b) = false
  right {op : BinOp} (hop : op ≠ .pow) (a : α) :
    Arithmetic.isFinite (op.apply a Scalar.undefined) = false
  base {b : α} :
    Arithmetic.isFinite (Scalar.pow Scalar.undefined b) = true → Scalar.isZero b = true
  exponent {a : α} :
    Arithmetic.isFinite (Scalar.pow a Scalar.undefined) = true → a = Arithmetic.ofNat 1

namespace Expr

variable {e l r p q : Expr α} {op : BinOp}

omit [Scalar α] in
theorem mem_parts_trans (hp : p ∈ q.parts) (hq : q ∈ e.parts) : p ∈ e.parts := by
  induction e with
  | var | const =>
    cases List.mem_singleton.mp hq
    exact hp
  | neg _ ih | func _ _ ih =>
    rcases List.mem_cons.mp hq with rfl | hq
    · exact hp
    · exact List.mem_cons_of_mem _ (ih hq)
  | bin _ _ _ ihl ihr =>
    simp only [parts, List.mem_cons, List.mem_append] at hq ⊢
    rcases hq with rfl | hq | hq
    · simpa [parts] using hp
    · exact .inr (.inl (ihl hq))
    · exact .inr (.inr (ihr hq))

omit [Scalar α] in
theorem operand_mem_parts (h : bin op l r ∈ e.parts) : l ∈ e.parts ∧ r ∈ e.parts :=
  ⟨mem_parts_trans (by simp [parts]) h, mem_parts_trans (by simp [parts]) h⟩

def IsDefined (e : Expr α) : Prop := e.numericValue.isSome = true

theorem isDefined_iff (hc : e.isClosed = true) :
    e.IsDefined ↔ Arithmetic.isFinite (e.eval Scalar.undefined Scalar.undefined) = true := by
  simp only [IsDefined, numericValue, hc, if_true]
  split <;> simp [*]

theorem eval_of_not_finite {x y : α} (h : Arithmetic.isFinite (e.eval x y) = false) :
    e.eval x y = Scalar.undefined := by
  have hval (v : α) (h : Arithmetic.isFinite (Scalar.finiteOrUndefined v) = false) :
      Scalar.finiteOrUndefined v = Scalar.undefined := by
    unfold Scalar.finiteOrUndefined at h ⊢
    split at h
    · simp_all
    · rw [if_neg (by assumption)]
  cases e <;> exact hval _ h

theorem eval_of_not_isDefined (hc : e.isClosed = true) (h : ¬e.IsDefined) :
    e.eval Scalar.undefined Scalar.undefined = Scalar.undefined := by
  rw [isDefined_iff hc, Bool.not_eq_true] at h
  exact eval_of_not_finite h

theorem numericValue_of_isDefined (hc : e.isClosed = true) (h : e.IsDefined) :
    e.numericValue = some (e.eval Scalar.undefined Scalar.undefined) := by
  rw [numericValue, if_pos hc]
  exact if_pos ((isDefined_iff hc).mp h)

theorem numericValue_of_not_isDefined (h : ¬e.IsDefined) : e.numericValue = none := by
  simpa [IsDefined] using h

-- ---------------------------------------------------------------------------
-- Operands of a tree with a value
-- ---------------------------------------------------------------------------

/-- The power of `b` to `e` is one, and one of the two has no value: the
exponent is zero or the base is one. -/
def HidesUndefined (b e : Expr α) : Prop :=
  (b.numericValue = none ∧ ∃ z, e.numericValue = some z ∧ Scalar.isZero z = true) ∨
    (b.numericValue = some (Arithmetic.ofNat 1) ∧ e.numericValue = none)

variable [Strict α]

theorem isFinite_of_finiteOrUndefined {v : α}
    (h : Arithmetic.isFinite (Scalar.finiteOrUndefined v) = true) :
    Arithmetic.isFinite v = true := by
  unfold Scalar.finiteOrUndefined at h
  split at h
  · exact h
  · cases Strict.undefined.symm.trans h

theorem IsDefined.arg (hc : (neg e).isClosed = true) (h : (neg e).IsDefined) : e.IsDefined := by
  have hce : e.isClosed = true := hc
  by_contra he
  rw [isDefined_iff hc, eval, eval_of_not_isDefined hce he] at h
  cases Strict.neg.symm.trans (isFinite_of_finiteOrUndefined h)

theorem IsDefined.argument {f : Fn} (hc : (func f e).isClosed = true) (h : (func f e).IsDefined) :
    e.IsDefined := by
  have hce : e.isClosed = true := hc
  by_contra he
  rw [isDefined_iff hc, eval, eval_of_not_isDefined hce he] at h
  cases (Strict.func f).symm.trans (isFinite_of_finiteOrUndefined h)

theorem IsDefined.operands (hop : op ≠ .pow) (hc : (bin op l r).isClosed = true)
    (h : (bin op l r).IsDefined) : l.IsDefined ∧ r.IsDefined := by
  obtain ⟨hcl, hcr⟩ := Bool.and_eq_true_iff.mp hc
  rw [isDefined_iff hc, eval] at h
  replace h := isFinite_of_finiteOrUndefined h
  constructor
  · by_contra hl
    rw [eval_of_not_isDefined hcl hl] at h
    cases (Strict.left hop _).symm.trans h
  · by_contra hr
    rw [eval_of_not_isDefined hcr hr] at h
    cases (Strict.right hop _).symm.trans h

theorem IsDefined.base_exponent (hc : (pow l r).isClosed = true) (h : (pow l r).IsDefined) :
    (l.IsDefined ∧ r.IsDefined) ∨ HidesUndefined l r := by
  obtain ⟨hcl, hcr⟩ := Bool.and_eq_true_iff.mp hc
  rw [isDefined_iff hc, eval] at h
  replace h := isFinite_of_finiteOrUndefined h
  by_cases hl : l.IsDefined
  · by_cases hr : r.IsDefined
    · exact .inl ⟨hl, hr⟩
    · rw [eval_of_not_isDefined hcr hr] at h
      exact .inr (.inr ⟨Strict.exponent h ▸ numericValue_of_isDefined hcl hl,
        numericValue_of_not_isDefined hr⟩)
  · rw [eval_of_not_isDefined hcl hl] at h
    have hz := Strict.base h
    -- An undefined exponent would not be zero.
    have hr : r.IsDefined := by
      by_contra hr
      rw [eval_of_not_isDefined hcr hr, Strict.isZero_undefined] at hz
      cases hz
    exact .inr (.inl ⟨numericValue_of_not_isDefined hl, _, numericValue_of_isDefined hcr hr, hz⟩)

def HidesNothing (e : Expr α) : Prop :=
  ∀ b d, pow b d ∈ e.parts → (pow b d).isClosed = true → ¬HidesUndefined b d

omit [Strict α] in
theorem HidesNothing.of_mem (h : e.HidesNothing) (hp : p ∈ e.parts) : p.HidesNothing :=
  fun b d hbd => h b d (mem_parts_trans hbd hp)

theorem IsDefined.parts (hc : e.isClosed = true) (h : e.IsDefined) (hn : e.HidesNothing) :
    ∀ p ∈ e.parts, p.IsDefined := by
  induction e with
  | var => cases hc
  | const => simpa [Expr.parts] using h
  | neg e ih =>
    have hn' := hn.of_mem (p := e) (by simp [Expr.parts])
    simpa [Expr.parts] using ⟨h, ih hc (h.arg hc) hn'⟩
  | func f e ih =>
    have hn' := hn.of_mem (p := e) (by simp [Expr.parts])
    simpa [Expr.parts] using ⟨h, ih hc (h.argument hc) hn'⟩
  | bin op l r ihl ihr =>
    obtain ⟨hcl, hcr⟩ := Bool.and_eq_true_iff.mp hc
    have hlr : l.IsDefined ∧ r.IsDefined := by
      by_cases hop : op = .pow
      · subst hop
        exact (h.base_exponent hc).resolve_right (hn l r (self_mem_parts _) hc)
      · exact h.operands hop hc
    have hl := ihl hcl hlr.1 (hn.of_mem (by simp [Expr.parts]))
    have hr := ihr hcr hlr.2 (hn.of_mem (by simp [Expr.parts]))
    simp only [Expr.parts, List.mem_cons, List.mem_append]
    rintro p (rfl | hp | hp)
    · exact h
    · exact hl p hp
    · exact hr p hp

theorem isDefined_of_undefinedConstant (h : e.undefinedConstant = none) (hn : e.HidesNothing) :
    ∀ p ∈ e.parts, p.isClosed = true → p.IsDefined := by
  -- Below an outermost part without variables everything has a value; above it
  -- there are only trees with variables.
  have hclosed {e : Expr α} (h : e.undefinedConstant = none) (hn : e.HidesNothing)
      (hc : e.isClosed = true) : ∀ p ∈ e.parts, p.isClosed = true → p.IsDefined := by
    have hd : e.IsDefined := by
      unfold undefinedConstant at h
      rw [if_pos hc] at h
      split at h
      · assumption
      · cases h
    exact fun p hp _ => hd.parts hc hn p hp
  induction e with
  | var => simp [parts, isClosed]
  | const => exact hclosed h hn rfl
  | neg e ih | func _ e ih =>
    by_cases hc : e.isClosed = true
    · exact hclosed h hn hc
    · have he : e.undefinedConstant = none := by
        rw [undefinedConstant, isClosed, if_neg hc] at h
        exact h
      have hpart := ih he (hn.of_mem (by simp [parts]))
      simpa [parts, isClosed, hc] using hpart
  | bin op l r ihl ihr =>
    by_cases hc : (bin op l r).isClosed = true
    · exact hclosed h hn hc
    · rw [undefinedConstant, if_neg hc] at h
      obtain ⟨hl, hr⟩ : l.undefinedConstant = none ∧ r.undefinedConstant = none := by
        simpa using h
      have hpl := ihl hl (hn.of_mem (by simp [parts]))
      have hpr := ihr hr (hn.of_mem (by simp [parts]))
      simp only [parts, List.mem_cons, List.mem_append]
      rintro p (rfl | hp | hp) hcp
      · exact (hc hcp).elim
      · exact hpl p hp hcp
      · exact hpr p hp hcp

end Expr

/-- A right-hand side that is accepted has parts without a value only inside
powers that are one whatever their other operand is. -/
theorem solveEquation_defined_iff [Numeral α] [Strict α] {text : String} {s : Solution α}
    (h : solveEquation text = .ok s) :
    (∀ p ∈ s.rhs.parts, p.isClosed = true → p.numericValue.isSome = true) ↔
      ∀ b e, Expr.pow b e ∈ s.rhs.parts → (Expr.pow b e).isClosed = true →
        ¬Expr.HidesUndefined b e := by
  obtain ⟨-, hdef, -, -⟩ := solveEquation_eq_ok h
  constructor
  · intro hall b e hbe hc
    obtain ⟨hcb, hce⟩ := Bool.and_eq_true_iff.mp hc
    obtain ⟨hb, he⟩ := Expr.operand_mem_parts hbe
    rintro (⟨hnone, -⟩ | ⟨-, hnone⟩)
    · simpa [hnone] using hall b hb hcb
    · simpa [hnone] using hall e he hce
  · exact Expr.isDefined_of_undefinedConstant hdef

-- ---------------------------------------------------------------------------
-- Exact scalars
-- ---------------------------------------------------------------------------

namespace Exact

open Classical in
instance [ZeroTests] : Strict Exact where
  undefined := rfl
  isZero_undefined := rfl
  neg := rfl
  func f := by cases f <;> rfl
  left {op} hop b := by
    cases op with
    | pow => exact (hop rfl).elim
    | _ => rfl
  right {op} hop a := by
    cases op with
    | pow => exact (hop rfl).elim
    | _ => cases a <;> rfl
  base {b} h := by
    by_cases hb : b = some 0
    · simp [hb, Scalar.isZero]
    · have hnone : Exact.pow none b = none := by simp [Exact.pow, hb]
      cases (congrArg Option.isSome hnone).symm.trans h
  exponent {a} h := by
    by_cases ha : a = some 1
    · simp [ha, Arithmetic.ofNat]
    · have hnone : Exact.pow a none = none := by cases a <;> simp_all [Exact.pow]
      cases (congrArg Option.isSome hnone).symm.trans h

end Exact

/-- One to an undefined power is accepted, with the exponent in it. -/
theorem accepted_undefined_exponent :
    letI := ZeroTests.within 1e-9 (by norm_num)
    letI := Exact.decimals
    ∃ s : Solution Exact, solveEquation "dy/dx = 1^(1/0)" = .ok s ∧
      ¬∀ p ∈ s.rhs.parts, p.isClosed = true → p.numericValue.isSome = true := by
  let _ := ZeroTests.within 1e-9 (by norm_num)
  let _ := Exact.decimals
  let one : Expr Exact := .const (some 1)
  let quotient : Expr Exact := .div one (.const (some 0))
  have hdiv : (some 1 / some 0 : Exact) = none := if_pos rfl
  have hparse : parseEquation "dy/dx = 1^(1/0)" = .ok (Expr.pow one quotient) := by
    let digit (n : ℕ) : Expr Exact := .const (some (n * (10 : ℝ) ^ (0 : ℤ)))
    have hread : parseEquation "dy/dx = 1^(1/0)" =
        .ok (Expr.pow (digit 1) (.div (digit 1) (digit 0))).simplify := rfl
    simp only [hread, digit, Nat.cast_one, Nat.cast_zero, zpow_zero, mul_one]
    simp [Expr.simplify, Expr.simplifyBin, Expr.simplifyPow, Expr.simplifyDiv, Expr.fold, hdiv,
      Arithmetic.isFinite, Expr.isZero, Expr.isOne, one, quotient]
  have hquotient : quotient.numericValue = none := by
    simp [one, quotient, Expr.numericValue, Expr.isClosed, Expr.eval, Scalar.finiteOrUndefined,
      Arithmetic.isFinite, BinOp.apply, hdiv, Scalar.undefined]
  have hdef : (Expr.pow one quotient).undefinedConstant = none := by
    simp [one, quotient, Expr.undefinedConstant, Expr.numericValue, Expr.isClosed, Expr.eval,
      Scalar.finiteOrUndefined, Arithmetic.isFinite, BinOp.apply, hdiv, Scalar.undefined,
      Scalar.pow, Exact.one_pow]
  have hsolve : ∃ d, solveEquation "dy/dx = 1^(1/0)" =
      .ok ⟨Expr.pow one quotient, .direct (Expr.pow one quotient), some d⟩ := by
    simp only [solveEquation, hparse, Except.mapError, ok_bind, hdef]
    exact ⟨_, rfl⟩
  obtain ⟨d, hsolve⟩ := hsolve
  refine ⟨_, hsolve, fun hall => ?_⟩
  exact (solveEquation_defined_iff hsolve).mp hall one quotient (Expr.self_mem_parts _) rfl
    (.inr ⟨by simp [one, Expr.numericValue, Expr.isClosed, Expr.eval,
      Scalar.finiteOrUndefined, Arithmetic.isFinite, Arithmetic.ofNat], hquotient⟩)

-- ---------------------------------------------------------------------------
-- Floats
-- ---------------------------------------------------------------------------

namespace Binary64

open Float.Model (UnpackedFloat)

theorem unpack_undefined : (Scalar.undefined : Float).toModel.unpack = .notANumber := rfl

structure HandsOn : Prop where
  sin : Float.sin Scalar.undefined = Scalar.undefined
  cos : Float.cos Scalar.undefined = Scalar.undefined
  tan : Float.tan Scalar.undefined = Scalar.undefined
  exp : Float.exp Scalar.undefined = Scalar.undefined
  log : Float.log Scalar.undefined = Scalar.undefined
  base {b : Float} : (b == 0.0) = false → Float.pow Scalar.undefined b = Scalar.undefined
  exponent {a : Float} : (a == 1.0) = false → Float.pow a Scalar.undefined = Scalar.undefined

theorem apply_undefined_left {op : BinOp} (hop : op ≠ .pow) (b : Float) :
    op.apply Scalar.undefined b = Scalar.undefined := by
  have hleft (f : UnpackedFloat → UnpackedFloat → UnpackedFloat)
      (hf : ∀ u, f .notANumber u = .notANumber) :
      Float.ofModel (.pack (f (Scalar.undefined : Float).toModel.unpack b.toModel.unpack)) =
        Scalar.undefined := by
    rw [unpack_undefined, hf]
    rfl
  cases op with
  | add => exact hleft (UnpackedFloat.add .binary64) fun u => rfl
  | sub => exact hleft (UnpackedFloat.sub .binary64) fun u => rfl
  | mul => exact hleft (UnpackedFloat.mul .binary64) fun u => rfl
  | div => exact hleft (UnpackedFloat.div .binary64) fun u => rfl
  | pow => exact (hop rfl).elim

theorem apply_undefined_right {op : BinOp} (hop : op ≠ .pow) (a : Float) :
    op.apply a Scalar.undefined = Scalar.undefined := by
  have hright (f : UnpackedFloat → UnpackedFloat → UnpackedFloat)
      (hf : ∀ u, f u .notANumber = .notANumber) :
      Float.ofModel (.pack (f a.toModel.unpack (Scalar.undefined : Float).toModel.unpack)) =
        Scalar.undefined := by
    rw [unpack_undefined, hf]
    rfl
  cases op with
  | add => exact hright (UnpackedFloat.add .binary64) fun u => by cases u <;> rfl
  | sub => exact hright (UnpackedFloat.sub .binary64) fun u => by cases u <;> rfl
  | mul => exact hright (UnpackedFloat.mul .binary64) fun u => by cases u <;> rfl
  | div => exact hright (UnpackedFloat.div .binary64) fun u => by cases u <;> rfl
  | pow => exact (hop rfl).elim

theorem isZero_of_pow {b : Float}
    (hbase : (b == 0.0) = false → Float.pow Scalar.undefined b = Scalar.undefined)
    (h : Arithmetic.isFinite (Scalar.pow Scalar.undefined b) = true) :
    Scalar.isZero b = true := by
  by_contra hz
  have hz : (b == 0.0) = false := Bool.eq_false_iff.mpr hz
  have hpow : Scalar.pow Scalar.undefined b = Float.pow Scalar.undefined b := by
    simp only [Scalar.pow, pow, hz]
    rfl
  rw [hpow, hbase hz] at h
  cases h

theorem eq_one_of_pow {a : Float}
    (hexponent : (a == 1.0) = false → Float.pow a Scalar.undefined = Scalar.undefined)
    (h : Arithmetic.isFinite (Scalar.pow a Scalar.undefined) = true) :
    a = Arithmetic.ofNat 1 := by
  by_contra hne
  have hne : (a == 1.0) = false := Bool.eq_false_iff.mpr fun heq => hne (eq_one_of_beq heq)
  have hpow : Scalar.pow a Scalar.undefined = Float.pow a Scalar.undefined := by
    simp only [Scalar.pow, pow, hne]
    rfl
  rw [hpow, hexponent hne] at h
  cases h

theorem strict (h : HandsOn) : Strict Float where
  undefined := rfl
  isZero_undefined := rfl
  neg := rfl
  func f := by
    have hdiv (a : Float) : a / Scalar.undefined = Scalar.undefined :=
      @apply_undefined_right .div (by decide) a
    have hf : f.apply (Scalar.undefined : Float) = Scalar.undefined := by
      cases f with
      | sin => exact h.sin
      | cos => exact h.cos
      | tan => exact h.tan
      | exp => exact h.exp
      | ln => exact h.log
      | sqrt | abs => rfl
      | cot | csc => simp only [Fn.apply, Scalar.sin, h.sin, hdiv]
      | sec => simp only [Fn.apply, Scalar.cos, h.cos, hdiv]
    rw [hf]
    rfl
  left hop b := by
    rw [apply_undefined_left hop]
    rfl
  right hop a := by
    rw [apply_undefined_right hop]
    rfl
  base := isZero_of_pow h.base
  exponent := eq_one_of_pow h.exponent

end Binary64

/-- The same in floating point: the exponent `1 / 0` is a part without
variables and has no value. -/
theorem float_accepts_undefined_exponent :
    ¬∀ (text : String) (s : Solution Float), solveEquation text = .ok s →
      ∀ p ∈ s.rhs.parts, p.isClosed = true → p.numericValue.isSome = true := by
  intro h
  have hrhs : (solveEquation (α := Float) "dy/dx = 1^(1/0)").toOption.map (·.rhs) =
      some (.pow (.const 1.0) (.div (.const 1.0) (.const 0.0))) := by decide +kernel
  obtain ⟨s, hs, hrhs⟩ := Option.map_eq_some_iff.mp hrhs
  have hall := h _ s (toOption_eq_some.mp hs)
  rw [hrhs] at hall
  cases hall (.div (.const 1.0) (.const 0.0)) (by simp [Expr.parts]) rfl

end SlopeField
