import SlopeField.Binary64
import SlopeField.Proofs.Expr.Value

/-!
# Substituted trees at a point

Substituting a tree for `x` or `y` and evaluating is the same as evaluating at the
point that has the tree's value there, for both evaluators (`subst_at_point`).
`eval` settles a value on every way into a tree, a value put in for a variable
twice; the second time changes nothing (`finiteOrUndefined_eval`), so no law of the
scalars is needed.
-/

namespace SlopeField

variable {α : Type} [Scalar α]

@[simp] theorem Scalar.finiteOrUndefined_idem (a : α) :
    finiteOrUndefined (finiteOrUndefined a) = finiteOrUndefined a := by
  cases h : Arithmetic.isFinite a <;> simp [finiteOrUndefined, h]

namespace Expr

open Function (update)

variable {v : String} {x y x' y' : α} {e s : Expr α}

theorem finiteOrUndefined_eval (e : Expr α) (x y : α) :
    Scalar.finiteOrUndefined (e.eval x y) = e.eval x y := by
  cases e <;> exact Scalar.finiteOrUndefined_idem _

theorem eval_subst (h : update (lookup · x y) v (s.eval x y) = (lookup · x' y')) (e : Expr α) :
    (e.subst v s).eval x y = e.eval x' y' := by
  induction e with
  | var name =>
    have hname := congrFun h name
    by_cases hv : name = v
    · subst hv
      rw [Function.update_self] at hname
      simp only [subst, beq_self_eq_true, if_true, eval, ← hname, finiteOrUndefined_eval]
    · rw [Function.update_of_ne hv] at hname
      simp only [subst, beq_iff_eq, hv, if_false, eval, hname]
  | const => rfl
  | neg _ ih => simp only [subst, eval, ih]
  | func _ _ ih => simp only [subst, eval, ih]
  | bin _ _ _ ihl ihr => simp only [subst, eval, ihl, ihr]

theorem compile_subst (h : update (lookup · x y) v (s.compile x y) = (lookup · x' y'))
    (e : Expr α) : (e.subst v s).compile x y = e.compile x' y' := by
  rw [compile_eq_value, value_subst, ← compile_eq_value, h, ← compile_eq_value]

omit [Scalar α] in
theorem subst_of_not_mentions (h : e.mentions v = false) : e.subst v s = e := by
  induction e with
  | var name =>
    have hname : ¬(name == v) = true := Bool.eq_false_iff.mp h
    rw [subst, if_neg hname]
  | const => rfl
  | neg _ ih => rw [subst, ih h]
  | func _ _ ih => rw [subst, ih h]
  | bin _ _ _ ihl ihr =>
    obtain ⟨hl, hr⟩ := Bool.or_eq_false_iff.mp h
    rw [subst, ihl hl, ihr hr]

/-- A tree with `s` in the place of a variable has the value that the tree has
where the variable has the value of `s`; a tree without the variable stays as it
is. -/
theorem subst_at_point (e s : Expr α) (x y : α) :
    (e.subst independent s).eval x y = e.eval (s.eval x y) y ∧
    (e.subst dependent s).eval x y = e.eval x (s.eval x y) ∧
    (e.subst independent s).compile x y = e.compile (s.compile x y) y ∧
    (e.subst dependent s).compile x y = e.compile x (s.compile x y) ∧
    ∀ v, e.mentions v = false → e.subst v s = e :=
  ⟨eval_subst (update_lookup_independent x y _) e, eval_subst (update_lookup_dependent x y _) e,
    compile_subst (update_lookup_independent x y _) e,
    compile_subst (update_lookup_dependent x y _) e, fun _ => subst_of_not_mentions⟩

/-- One over `1 / y`, put together by substitution: at zero the evaluators part,
and each of them has its value on both ways. -/
theorem subst_inverse_at_zero :
    letI e : Expr Float := .div (.const 1.0) (.var independent)
    letI s : Expr Float := .div (.const 1.0) (.var dependent)
    e.mentions dependent = false ∧ e.subst dependent s = e ∧
    (e.subst independent s).eval 3.0 0.0 = Scalar.undefined ∧
    e.eval (s.eval 3.0 0.0) 0.0 = Scalar.undefined ∧
    (e.subst independent s).compile 3.0 0.0 = 0.0 ∧
    e.compile (s.compile 3.0 0.0) 0.0 = 0.0 := by
  let e : Expr Float := .div (.const 1.0) (.var independent)
  let s : Expr Float := .div (.const 1.0) (.var dependent)
  obtain ⟨heval, -, hcompile, -, hsame⟩ := subst_at_point e s 3.0 0.0
  have hundefined : e.eval (s.eval 3.0 0.0) 0.0 = Scalar.undefined := by decide +kernel
  have hzero : e.compile (s.compile 3.0 0.0) 0.0 = 0.0 := by decide +kernel
  have hfree : e.mentions dependent = false := by decide
  exact ⟨hfree, hsame _ hfree, heval.trans hundefined, hundefined, hcompile.trans hzero, hzero⟩

end Expr

end SlopeField
