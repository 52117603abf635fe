import SlopeField.Proofs.Exact.Basic
import SlopeField.Proofs.Expr.Value

/-!
# Exact values of trees

Over exact scalars, evaluating at a point is the value under the assignment of
that point, and a number that a closed tree stands for is its value under
every assignment.
-/

namespace SlopeField

variable [ZeroTests]

theorem Exact.finiteOrUndefined_eq (a : Exact) : Scalar.finiteOrUndefined a = a := by
  cases a <;> rfl

namespace Expr

theorem eval_eq_value (e : Expr Exact) (x y : Exact) :
    e.eval x y = e.value (lookup · x y) := by
  induction e with
  | var | const => exact Exact.finiteOrUndefined_eq _
  | neg _ ih => rw [eval, Exact.finiteOrUndefined_eq, ih, value]
  | func _ _ ih => rw [eval, Exact.finiteOrUndefined_eq, ih, value]
  | bin _ _ _ ihl ihr => rw [eval, Exact.finiteOrUndefined_eq, ihl, ihr, value]

theorem numericValue_eq_some {e : Expr Exact} {c : Exact} (h : e.numericValue = some c) :
    e.isClosed = true ∧ ∃ p : ℝ, c = some p ∧ ∀ env, e.value env = some p := by
  unfold numericValue at h
  split at h
  · rename_i hc
    simp only at h
    split at h
    · rename_i hf
      cases h
      obtain ⟨p, hp⟩ := Option.isSome_iff_exists.mp hf
      refine ⟨hc, p, hp, fun env => ?_⟩
      rw [value_closed hc env, ← eval_eq_value, hp]
    · cases h
  · cases h

end Expr

end SlopeField
