import SlopeField.Binary64
import SlopeField.Proofs.Equation.ClosedForm

/-!
# Coherent records

The fields of a record fit together whatever happened on the way
(`solve_record_coherent`): a solved equation shows a derivation that ends in the
final text, an unsupported one shows what was read and why it stops there, and
an error shows a message alone, exactly where `Refused` says.
-/

namespace SlopeField

variable {α : Type} [Scalar α] [Numeral α]

-- ---------------------------------------------------------------------------
-- Derivations
-- ---------------------------------------------------------------------------

namespace Derivation

/-- The last step arrives at the final text, and there is a solution exactly in
the explicit form, where the final text states it. -/
structure Concludes (d : Derivation α) : Prop where
  last : ∃ step, d.steps.getLast? = some step ∧ step.equation = some d.finalText
  explicit : d.solution.isSome = true ↔ d.form = .explicit
  text : ∀ S, d.solution = some S → d.finalText = "y(x) = " ++ S.render

variable {d : Derivation α}

theorem concludes_of_direct {rhs : Expr α} (h : direct rhs = .ok d) : d.Concludes := by
  unfold direct at h
  split at h
  · cases h
  · cases h
    exact ⟨⟨_, rfl, rfl⟩, by simp, by simp⟩

theorem concludes_of_separable {xPart yPart yReciprocal : Expr α}
    (h : separable xPart yPart yReciprocal = .ok d) : d.Concludes := by
  unfold separable at h
  obtain ⟨left, -, h⟩ := bind_eq_ok.mp h
  obtain ⟨right, -, h⟩ := bind_eq_ok.mp h
  simp only at h
  split at h <;> cases h <;> exact ⟨⟨_, rfl, rfl⟩, by simp, by simp⟩

theorem concludes_of_linear {a b : Expr α} (h : linear a b = .ok d) : d.Concludes := by
  unfold linear at h
  split at h
  · cases h
  · simp only at h
    split at h <;> cases h <;> exact ⟨⟨_, rfl, rfl⟩, by simp, by simp⟩

theorem concludes_of_ofFamily {family : Family α} (h : ofFamily family = .ok (some d)) :
    family ≠ .unsupported ∧ d.Concludes := by
  cases family with
  | direct f =>
    obtain ⟨_, hd, h⟩ := bind_eq_ok.mp h
    cases h
    exact ⟨nofun, concludes_of_direct hd⟩
  | separable xPart yPart yReciprocal =>
    obtain ⟨_, hd, h⟩ := bind_eq_ok.mp h
    cases h
    exact ⟨nofun, concludes_of_separable hd⟩
  | linear a b =>
    obtain ⟨_, hd, h⟩ := bind_eq_ok.mp h
    cases h
    exact ⟨nofun, concludes_of_linear hd⟩
  | unsupported => cases h

theorem unsupported_of_ofFamily {family : Family α} (h : ofFamily family = .ok none) :
    family = .unsupported := by
  cases family with
  | unsupported => rfl
  | _ =>
    obtain ⟨_, -, h⟩ := bind_eq_ok.mp h
    cases h

end Derivation

-- ---------------------------------------------------------------------------
-- Refused equations
-- ---------------------------------------------------------------------------

inductive Refused (α : Type) [Scalar α] [Numeral α] (text : String) : Prop
  | unread {cause : ParseError} : parseEquation (α := α) text = .error cause → Refused α text
  | undefined {R part : Expr α} : parseEquation text = .ok R → R.undefinedConstant = some part →
      Refused α text
  | underivable {R : Expr α} {cause : SolveError α} : parseEquation text = .ok R →
      Derivation.ofFamily (Family.classify R) = .error cause → Refused α text

variable {text : String}

theorem refused_of_solveEquation {cause : SolveError α}
    (h : solveEquation text = .error cause) : Refused α text := by
  unfold solveEquation at h
  cases hR : parseEquation (α := α) text with
  | error cause => exact .unread hR
  | ok R =>
    rw [mapError_eq_ok.mpr hR] at h
    cases hpart : R.undefinedConstant with
    | some part => exact .undefined hR hpart
    | none =>
      cases hd : Derivation.ofFamily (Family.classify R) with
      | error cause => exact .underivable hR hd
      | ok d => simp [hpart, hd, pure, Except.pure] at h

theorem Refused.not_solved {s : Solution α} (h : Refused α text) :
    solveEquation text ≠ .ok s := by
  intro hs
  obtain ⟨hparse, hdef, hfamily, hd⟩ := solveEquation_eq_ok hs
  cases h with
  | unread hR => cases hparse.symm.trans hR
  | undefined hR hpart =>
    cases hparse.symm.trans hR
    cases hdef.symm.trans hpart
  | underivable hR hfails =>
    cases hparse.symm.trans hR
    rw [hfamily] at hd
    cases hd.symm.trans hfails

-- ---------------------------------------------------------------------------
-- Records
-- ---------------------------------------------------------------------------

namespace SolveRecord

structure Solved (text : String) (r : SolveRecord α) : Prop where
  rhs : ∃ R, parseEquation text = .ok R ∧ r.rhs = some R ∧
    r.normalizedEquation = some ("dy/dx = " ++ R.render) ∧
    r.family = some (Family.classify R) ∧ Family.classify R ≠ .unsupported
  message : r.message = none
  last : ∃ step, r.steps.getLast? = some step ∧ step.equation.isSome = true ∧
    step.equation = r.finalText
  explicit : r.solution.isSome = true ↔ r.form = some .explicit
  text : ∀ S, r.solution = some S → r.finalText = some ("y(x) = " ++ S.render)

structure Unsupported (text : String) (r : SolveRecord α) : Prop where
  rhs : ∃ R, parseEquation text = .ok R ∧ r.rhs = some R ∧
    r.normalizedEquation = some ("dy/dx = " ++ R.render) ∧
    r.family = some (Family.classify R) ∧ Family.classify R = .unsupported
  steps : r.steps = []
  finalText : r.finalText = none
  solution : r.solution = none
  form : r.form = none
  message : r.message.isSome = true

def IsMessage (r : SolveRecord α) : Prop :=
  ∃ message, r = { status := r.status, message := some message }

end SolveRecord

theorem solved_of_derivation {s : Solution α} {d : Derivation α}
    (hs : solveEquation text = .ok s) (hd : s.derivation = some d) : s.record.Solved text := by
  obtain ⟨hparse, -, hfamily, hof⟩ := solveEquation_eq_ok hs
  rw [hd] at hof
  obtain ⟨hsupported, hlast, hexplicit, htext⟩ := Derivation.concludes_of_ofFamily hof
  rw [hfamily] at hsupported
  simp only [Solution.record, hd]
  obtain ⟨step, hstep, hequation⟩ := hlast
  exact {
    rhs := ⟨s.rhs, hparse, rfl, rfl, by rw [hfamily], hsupported⟩
    message := rfl
    last := ⟨step, hstep, by simp [hequation], hequation⟩
    explicit := by simpa using hexplicit
    text := fun S hS => congrArg some (htext S hS) }

theorem unsupported_of_derivation {s : Solution α} (hs : solveEquation text = .ok s)
    (hd : s.derivation = none) : s.record.Unsupported text := by
  obtain ⟨hparse, -, hfamily, hof⟩ := solveEquation_eq_ok hs
  rw [hd] at hof
  have hunsupported := Derivation.unsupported_of_ofFamily hof
  simp only [Solution.record, hd]
  exact {
    rhs := ⟨s.rhs, hparse, rfl, rfl, by rw [hfamily], hfamily ▸ hunsupported⟩
    steps := rfl
    finalText := rfl
    solution := rfl
    form := rfl
    message := rfl }

/-- The status says which record it is, and the status is an error exactly for
the equations that are refused. -/
theorem solve_record_coherent (text : String) :
    ((solve text : SolveRecord α).status = .ok → (solve text : SolveRecord α).Solved text) ∧
    ((solve text : SolveRecord α).status = .unsupported →
      (solve text : SolveRecord α).Unsupported text) ∧
    ((solve text : SolveRecord α).status = .error → (solve text : SolveRecord α).IsMessage) ∧
    ((solve text : SolveRecord α).status = .error ↔ Refused α text) := by
  cases hs : solveEquation (α := α) text with
  | error cause =>
    have heq : solve text = ({ status := .error, message := some cause.message } :
      SolveRecord α) := by rw [solve, hs]
    rw [heq]
    exact ⟨nofun, nofun, fun _ => ⟨_, rfl⟩, fun _ => refused_of_solveEquation hs, fun _ => rfl⟩
  | ok s =>
    have heq : solve text = s.record := by rw [solve, hs]
    rw [heq]
    cases hd : s.derivation with
    | some d =>
      have hstatus : s.record.status = .ok := by rw [Solution.record, hd]
      rw [hstatus]
      exact ⟨fun _ => solved_of_derivation hs hd, nofun, nofun, nofun,
        fun h => (h.not_solved hs).elim⟩
    | none =>
      have hstatus : s.record.status = .unsupported := by rw [Solution.record, hd]
      rw [hstatus]
      exact ⟨nofun, fun _ => unsupported_of_derivation hs hd, nofun, nofun,
        fun h => (h.not_solved hs).elim⟩

/-- Every status occurs. -/
theorem solve_record_statuses :
    (solve "dy/dx = x + y" : SolveRecord Float).Solved "dy/dx = x + y" ∧
    (solve "dy/dx = y^2 + x" : SolveRecord Float).Unsupported "dy/dx = y^2 + x" ∧
    (solve "dy/dx = x +" : SolveRecord Float).IsMessage :=
  ⟨(solve_record_coherent _).1 (by decide +kernel),
    (solve_record_coherent _).2.1 (by decide +kernel),
    (solve_record_coherent _).2.2.1 (by decide +kernel)⟩

end SlopeField
