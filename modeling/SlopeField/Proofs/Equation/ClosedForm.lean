import SlopeField.Equation.Solve
import SlopeField.Proofs.Equation.Family
import SlopeField.Proofs.Expr.Normal
import SlopeField.Proofs.Success

/-!
# Closed forms

What it means that an equation was solved for `y`, for any scalars: the
solution is put together from antiderivatives by the formula of its family
(`ClosedForm`), and the right-hand side is simplified.
-/

namespace SlopeField

open SlopeField.Derivation (unknown arbitrary)

variable {α : Type} [Scalar α]

/-- The solutions that a derivation can end with, one formula for each family. -/
inductive ClosedForm (rhs : Expr α) : Expr α → Prop
  | direct : rhs.mentions dependent = false → rhs.integrate independent = .ok F →
      ClosedForm rhs (Expr.add F arbitrary).simplify
  | separable : Family.separate rhs = .ok (.separable xPart yPart yReciprocal) →
      yReciprocal.integrate dependent = .ok (Expr.lnAbs unknown) →
      xPart.integrate independent = .ok F →
      ClosedForm rhs (Expr.mul arbitrary (.func .exp F)).simplify
  | linear : Family.collect rhs = .ok (.linear a b) →
      (Expr.neg a).simplify.integrate independent = .ok P →
      mu = (Expr.func .exp P).simplify →
      (Expr.mul mu b).simplify.integrate independent = .ok F →
      ClosedForm rhs (Expr.div (.add F arbitrary) mu).simplify

omit [Scalar α] in
theorem eq_lnAbs_of_isLnAbsY {e : Expr α} (h : Derivation.isLnAbsY e = true) :
    e = Expr.lnAbs unknown := by
  unfold Derivation.isLnAbsY at h
  split at h
  · simp only [beq_iff_eq] at h
    subst h
    rfl
  · cases h

inductive Family.SolvedBy : Family α → Expr α → Prop
  | direct : f.integrate independent = .ok F →
      SolvedBy (.direct f) (Expr.add F arbitrary).simplify
  | separable : yReciprocal.integrate dependent = .ok (Expr.lnAbs unknown) →
      xPart.integrate independent = .ok F →
      SolvedBy (.separable xPart yPart yReciprocal) (Expr.mul arbitrary (.func .exp F)).simplify
  | linear : (Expr.neg a).simplify.integrate independent = .ok P →
      mu = (Expr.func .exp P).simplify →
      (Expr.mul mu b).simplify.integrate independent = .ok F →
      SolvedBy (.linear a b) (Expr.div (.add F arbitrary) mu).simplify

theorem ClosedForm.of_solvedBy {rhs S : Expr α} (h : (Family.classify rhs).SolvedBy S) :
    ClosedForm rhs S := by
  generalize hf : Family.classify rhs = family at h
  cases h with
  | direct hF =>
    obtain ⟨hy, rfl⟩ := Family.classify_eq_direct hf
    exact .direct hy hF
  | separable hlog hF => exact .separable (Family.classify_eq_separable hf) hlog hF
  | linear hP hmu hF => exact .linear (Family.classify_eq_linear hf) hP hmu hF

variable [Numeral α] {rhs : Expr α} {d : Derivation α}

namespace Derivation

/-- A derivation ends in an implicit form without a solution, or in an explicit
one with a solution. -/
inductive Ends (family : Family α) (d : Derivation α) : Prop
  | implicit : d.form = .implicit → d.solution = none → Ends family d
  | explicit {S : Expr α} : d.form = .explicit → d.solution = some S → family.SolvedBy S →
      Ends family d

theorem ends_of_direct (h : direct rhs = .ok d) : Ends (.direct rhs) d := by
  unfold direct at h
  split at h
  · cases h
  · rename_i hF
    cases h
    exact .explicit rfl rfl (.direct hF)

theorem ends_of_separable {xPart yPart yReciprocal : Expr α}
    (h : separable xPart yPart yReciprocal = .ok d) :
    Ends (.separable xPart yPart yReciprocal) d := by
  unfold separable at h
  obtain ⟨left, hleft, h⟩ := bind_eq_ok.mp h
  obtain ⟨right, hright, h⟩ := bind_eq_ok.mp h
  simp only at h
  split at h
  · rename_i hlog
    cases h
    rw [mapError_eq_ok, eq_lnAbs_of_isLnAbsY hlog] at hleft
    exact .explicit rfl rfl (.separable hleft (mapError_eq_ok.mp hright))
  · cases h
    exact .implicit rfl rfl

theorem ends_of_linear {a b : Expr α} (h : linear a b = .ok d) : Ends (.linear a b) d := by
  unfold linear at h
  split at h
  · cases h
  · rename_i hfactor
    obtain ⟨P, hP, hfactor⟩ := bind_eq_ok.mp hfactor
    cases hfactor
    simp only at h
    split at h
    · rename_i hF
      cases h
      exact .explicit rfl rfl (.linear hP rfl hF)
    · cases h
      exact .implicit rfl rfl

theorem ends_of_ofFamily {family : Family α} (h : ofFamily family = .ok (some d)) :
    Ends family d := by
  cases family with
  | direct f =>
    obtain ⟨_, hd, h⟩ := bind_eq_ok.mp h
    cases h
    exact ends_of_direct hd
  | separable xPart yPart yReciprocal =>
    obtain ⟨_, hd, h⟩ := bind_eq_ok.mp h
    cases h
    exact ends_of_separable hd
  | linear a b =>
    obtain ⟨_, hd, h⟩ := bind_eq_ok.mp h
    cases h
    exact ends_of_linear hd
  | unsupported => cases h

end Derivation

theorem parseEquation_isNormal {text : String} (h : parseEquation text = .ok rhs) :
    rhs.IsNormal := by
  unfold parseEquation at h
  split at h
  · cases h
  · split at h
    · obtain ⟨e, -, he⟩ := bind_eq_ok.mp h
      cases he
      exact Expr.simplify_isNormal e
    · cases h

theorem solveEquation_eq_ok {text : String} {s : Solution α} (h : solveEquation text = .ok s) :
    parseEquation text = .ok s.rhs ∧ s.rhs.undefinedConstant = none ∧
      s.family = Family.classify s.rhs ∧ Derivation.ofFamily s.family = .ok s.derivation := by
  obtain ⟨rhs, hrhs, h⟩ := bind_eq_ok.mp h
  split at h
  · cases h
  · rename_i hdef
    obtain ⟨d, hd, h⟩ := bind_eq_ok.mp h
    cases h
    exact ⟨mapError_eq_ok.mp hrhs, hdef, rfl, hd⟩

section
variable (s : Solution α)

@[simp] theorem Solution.record_rhs : s.record.rhs = some s.rhs := by
  unfold record
  split <;> rfl

@[simp] theorem Solution.record_family : s.record.family = some s.family := by
  unfold record
  split <;> rfl

@[simp] theorem Solution.record_solution :
    s.record.solution = s.derivation.bind (·.solution) := by
  unfold record
  split <;> simp [*]

@[simp] theorem Solution.record_form : s.record.form = s.derivation.map (·.form) := by
  unfold record
  split <;> simp [*]

end

theorem solve_eq (text : String) :
    (∃ s, solveEquation text = .ok s ∧ solve text = (s.record : SolveRecord α)) ∨
      ∃ message, solve text = ({ status := .error, message } : SolveRecord α) := by
  unfold solve
  split
  · rename_i s hs
    exact .inl ⟨s, hs, rfl⟩
  · exact .inr ⟨_, rfl⟩

/-- An explicit solution is one of the family of the right-hand side that was
read. -/
theorem solvedBy_of_solve {text : String}
    (hform : (solve text : SolveRecord α).form = some .explicit) :
    ∃ R S, parseEquation text = .ok R ∧ (solve text : SolveRecord α).rhs = some R ∧
      (solve text).solution = some S ∧ (Family.classify R).SolvedBy S := by
  obtain ⟨s, hs, heq⟩ | ⟨message, heq⟩ := solve_eq (α := α) text
  · rw [heq] at hform ⊢
    simp only [Solution.record_form, Option.map_eq_some_iff] at hform
    obtain ⟨d, hsome, hform⟩ := hform
    obtain ⟨hparse, -, hf, hd⟩ := solveEquation_eq_ok hs
    rw [hf, hsome] at hd
    cases Derivation.ends_of_ofFamily hd with
    | implicit hi => cases hi.symm.trans hform
    | explicit _ hS hsolved => exact ⟨s.rhs, _, hparse, by simp, by simp [hsome, hS], hsolved⟩
  · rw [heq] at hform
    cases hform

theorem closedForm_of_solve {text : String}
    (hform : (solve text : SolveRecord α).form = some .explicit) :
    ∃ R S, (solve text : SolveRecord α).rhs = some R ∧ (solve text).solution = some S ∧
      R.IsNormal ∧ ClosedForm R S := by
  obtain ⟨R, S, hparse, hR, hS, hsolved⟩ := solvedBy_of_solve hform
  exact ⟨R, S, hR, hS, parseEquation_isNormal hparse, .of_solvedBy hsolved⟩

end SlopeField
