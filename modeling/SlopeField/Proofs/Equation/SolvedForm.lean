import SlopeField.Binary64
import SlopeField.Proofs.Equation.GeneralSolution

/-!
# Solved form

An explicit solution is solved for `y`: its variables are `x` and the constant
of integration, and the constant occurs once (`solve_explicit_solvedForm`).
-/

namespace SlopeField

open SlopeField.Derivation (arbitrary)

variable {α : Type} {v : String}

namespace Expr

variable {e l : Expr α}

def occurrences (v : String) : Expr α → Nat
  | .var name => if name = v then 1 else 0
  | .const _ => 0
  | .neg e => e.occurrences v
  | .func _ e => e.occurrences v
  | .bin _ l r => l.occurrences v + r.occurrences v

theorem occurrences_eq_zero_iff : e.occurrences v = 0 ↔ e.mentions v = false := by
  induction e with
  | var | const => simp [occurrences, mentions]
  | neg _ ih => exact ih
  | func _ _ ih => exact ih
  | bin _ _ _ ihl ihr => rw [mentions_bin, ← ihl, ← ihr, occurrences, Nat.add_eq_zero_iff]

variable [Scalar α]

theorem simplifyAdd_var (l : Expr α) (v : String) :
    simplifyAdd l (.var v) = .var v ∨ simplifyAdd l (.var v) = .add l (.var v) := by
  by_cases h : l.isZero = true <;> cases l <;> simp_all [simplifyAdd, isZero]

theorem occurrences_simplifyAdd_var (h : l.mentions v = false) :
    (simplifyAdd l (.var v)).occurrences v = 1 := by
  have hl := occurrences_eq_zero_iff.mpr h
  obtain heq | heq := simplifyAdd_var l v <;> simp [heq, occurrences, hl]

theorem simplifyDiv_simplifyAdd_var (l : Expr α) (v : String) (f : Fn) (e : Expr α) :
    simplifyDiv (simplifyAdd l (.var v)) (.func f e) =
      .div (simplifyAdd l (.var v)) (.func f e) := by
  obtain heq | heq := simplifyAdd_var l v <;> rw [heq] <;> rfl

end Expr

variable [Scalar α] {S : Expr α}

theorem GeneralSolution.occurrences {V : String → Prop} {K : α → Prop}
    (h : GeneralSolution V K S) (hV : ¬V integrationConstant) :
    S.occurrences integrationConstant = 1 := by
  have hfree {e : Expr α} (he : e.LeavesIn V K) :
      e.simplify.mentions integrationConstant = false :=
    Expr.mentions_simplify
      (Expr.mentions_eq_false_iff.mpr (he.mono (fun v hv heq => hV (heq ▸ hv)) fun _ _ => trivial))
  cases h with
  | sum hF => exact Expr.occurrences_simplifyAdd_var (hfree hF)
  | multiple hF => simp [arbitrary, Expr.simplify, Expr.simplifyBin, Expr.simplifyMul,
      Expr.occurrences, Expr.occurrences_eq_zero_iff.mpr (hfree hF)]
  | quotient hF hP =>
    simp only [arbitrary, Expr.simplify, Expr.simplifyBin, Expr.simplifyDiv_simplifyAdd_var,
      Expr.occurrences, Expr.occurrences_simplifyAdd_var (hfree hF),
      Expr.occurrences_eq_zero_iff.mpr (hfree hP)]

variable [Numeral α]

/-- An explicit solution mentions only `x` and the constant of integration, and
the constant exactly once. -/
theorem solve_explicit_solvedForm {text : String}
    (hform : (solve text : SolveRecord α).form = some .explicit) :
    ∃ S, (solve text : SolveRecord α).solution = some S ∧
      (∀ v, S.mentions v = true → v = independent ∨ v = integrationConstant) ∧
      S.occurrences integrationConstant = 1 := by
  obtain ⟨R, S, hparse, -, hS, hsolved⟩ := solvedBy_of_solve hform
  have hread : ReadsIn fun _ : α => True := by constructor <;> intros <;> trivial
  have hR : R.LeavesIn IsWritable fun _ => True := leavesIn_of_parseEquation hread .trivial hparse
  have hparts : ∀ e ∈ (Family.classify R).xParts, e.LeavesIn (· = independent) fun _ => True := by
    intro e he
    have hin := Family.leavesIn_of_classify .trivial hR e (Family.mem_parts_of_mem_xParts he)
    have hy := Family.mentions_of_mem_xParts he
    rw [Expr.leavesIn_iff] at hin ⊢
    refine ⟨fun v hv => (hin.1 v hv).resolve_right ?_, hin.2⟩
    rintro rfl
    cases hy.symm.trans hv
  have hgeneral : GeneralSolution (· = independent) (fun _ => True) S :=
    hsolved.generalSolution .trivial rfl hparts fun _ _ _ _ _ _ => trivial
  refine ⟨S, hS, ?_, hgeneral.occurrences (by decide)⟩
  exact (Expr.leavesIn_iff.mp (hgeneral.leavesIn .trivial)).1

/-- A linear equation without a free term, solved by `C` over the integrating
factor. -/
theorem homogeneous_solvedForm :
    (solve "dy/dx = x * y + y" : SolveRecord Float).form = some .explicit ∧
    ∃ S, (solve "dy/dx = x * y + y" : SolveRecord Float).solution = some S ∧
      (∀ v, S.mentions v = true → v = independent ∨ v = integrationConstant) ∧
      S.occurrences integrationConstant = 1 := by
  have hform : (solve "dy/dx = x * y + y" : SolveRecord Float).form = some .explicit := by
    decide +kernel
  exact ⟨hform, solve_explicit_solvedForm hform⟩

end SlopeField
