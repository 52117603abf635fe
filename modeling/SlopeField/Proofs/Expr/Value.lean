import SlopeField.Expr.Eval
import Mathlib.Logic.Function.Basic

/-!
# Values under an assignment

`Expr.value` gives a tree its value for any assignment of scalars to variables,
with no special treatment of results that are not finite. The compiled
function of a tree is its value at the assignment of a point. A value depends
only on the variables that occur, and substituting a tree for a variable is
assigning the tree's value to it.
-/

namespace SlopeField.Expr

open Function (update)

variable {α : Type} {v : String}

theorem mentions_of_isClosed {e : Expr α} (h : e.isClosed = true) (v : String) :
    e.mentions v = false := by
  induction e with
  | var => cases h
  | const => rfl
  | neg _ ih => exact ih h
  | func _ _ ih => exact ih h
  | bin _ _ _ ihl ihr =>
    obtain ⟨hl, hr⟩ := Bool.and_eq_true_iff.mp h
    simp only [mentions, ihl hl, ihr hr, Bool.or_self]

variable [Scalar α] {env env' : String → α}

def value (env : String → α) : Expr α → α
  | .var name => env name
  | .const c => c
  | .neg e => -e.value env
  | .func f e => f.apply (e.value env)
  | .bin op l r => op.apply (l.value env) (r.value env)

theorem compile_eq_value (e : Expr α) (x y : α) : e.compile x y = e.value (lookup · x y) := by
  induction e with
  | var | const => rfl
  | neg _ ih => simp only [compile, value, ih]
  | func _ _ ih => simp only [compile, value, ih]
  | bin _ _ _ ihl ihr => simp only [compile, value, ihl, ihr]

theorem update_lookup_independent (x y a : α) :
    update (lookup · x y) independent a = (lookup · a y) := by
  refine Function.update_eq_iff.mpr ⟨rfl, fun v hv => ?_⟩
  simp only [lookup, beq_iff_eq, hv, if_false]

theorem update_lookup_dependent (x y a : α) :
    update (lookup · x y) dependent a = (lookup · x a) := by
  refine Function.update_eq_iff.mpr ⟨rfl, fun v hv => ?_⟩
  simp only [lookup, beq_iff_eq, hv, if_false]

theorem value_congr {e : Expr α} (h : ∀ v, e.mentions v = true → env v = env' v) :
    e.value env = e.value env' := by
  induction e with
  | var name => exact h name (by simp [mentions])
  | const => rfl
  | neg _ ih => simp only [value, ih h]
  | func _ _ ih => simp only [value, ih h]
  | bin _ _ _ ihl ihr =>
    simp only [mentions, Bool.or_eq_true] at h
    simp only [value, ihl fun v hv => h v (.inl hv), ihr fun v hv => h v (.inr hv)]

theorem value_update {e : Expr α} (h : e.mentions v = false) (a : α) :
    e.value (update env v a) = e.value env := by
  refine value_congr fun w hw => Function.update_of_ne ?_ _ _
  rintro rfl
  cases h.symm.trans hw

theorem compile_congr_independent {e : Expr α} (h : e.mentions independent = false) (x x' y : α) :
    e.compile x y = e.compile x' y := by
  rw [compile_eq_value, compile_eq_value, ← update_lookup_independent x y x', value_update h]

theorem value_closed {e : Expr α} (h : e.isClosed = true) (env env' : String → α) :
    e.value env = e.value env' := by
  refine value_congr fun v hv => ?_
  cases (mentions_of_isClosed h v).symm.trans hv

theorem value_subst (e s : Expr α) :
    (e.subst v s).value env = e.value (update env v (s.value env)) := by
  induction e with
  | var name =>
    by_cases h : name = v
    · subst h
      simp [subst, value]
    · simp [subst, value, h]
  | const => rfl
  | neg _ ih => simp only [subst, value, ih]
  | func _ _ ih => simp only [subst, value, ih]
  | bin _ _ _ ihl ihr => simp only [subst, value, ihl, ihr]

end SlopeField.Expr
