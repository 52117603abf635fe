import SlopeField.Task
import SlopeField.Proofs.Success
import SlopeField.Proofs.Trajectory

/-!
# The curve of a task

A task that was read takes at least one step and at most `maxSteps`
(`steps_of_parse`), so that its curve runs the way its span points
(`trajectory_order`).
-/

namespace SlopeField

namespace Task

theorem steps_of_readSteps {d : Document} {n : Nat} (h : readSteps d = .ok n) :
    0 < n ∧ n ≤ maxSteps := by
  obtain ⟨v, -, h⟩ := bind_eq_ok.mp h
  cases v with
  | none =>
    cases h
    decide
  | some v =>
    simp only at h
    split at h
    · split at h
      · cases h
        omega
      · cases h
    · cases h

theorem steps_of_ofDocument {d : Document} {task : Task} (h : ofDocument d = .ok task) :
    0 < task.steps ∧ task.steps ≤ maxSteps := by
  obtain ⟨equation, -, h⟩ := bind_eq_ok.mp h
  cases equation with
  | none => cases h
  | some equation =>
    obtain ⟨steps, hsteps, h⟩ := bind_eq_ok.mp h
    obtain ⟨_, -, h⟩ := bind_eq_ok.mp h
    obtain ⟨_, -, h⟩ := bind_eq_ok.mp h
    obtain ⟨_, -, h⟩ := bind_eq_ok.mp h
    obtain ⟨_, -, h⟩ := bind_eq_ok.mp h
    obtain ⟨_, -, h⟩ := bind_eq_ok.mp h
    obtain ⟨_, -, h⟩ := bind_eq_ok.mp h
    cases h
    exact steps_of_readSteps hsteps

theorem steps_of_parse {text : String} {task : Task} (h : parse text = .ok task) :
    0 < task.steps ∧ task.steps ≤ maxSteps := by
  obtain ⟨d, -, h⟩ := bind_eq_ok.mp h
  exact steps_of_ofDocument h

theorem report_of_run {task : Task} {w w' : Workspace} {r : TaskReport}
    (h : task.run w = .ok (r, w')) : r = task.report := by
  obtain ⟨_, -, h⟩ := bind_eq_ok.mp h
  obtain ⟨_, -, h⟩ := bind_eq_ok.mp h
  cases h
  rfl

theorem trajectory_of_report {task : Task} {curve : Trajectory Float}
    (h : task.report.trajectory = some curve) :
    ∃ rhs : Expr Float, curve = sampleTrajectory rhs.slope task.start task.span task.steps := by
  simp only [report] at h
  split at h
  · cases h
  · exact ⟨_, (Option.some.inj h).symm⟩
  · cases h

end Task

/-- The points of a task's curve run the way its span points. A start at an `x`
that is not a number leaves none to compare, and a span that is not finite leaves
no point but the start. -/
theorem trajectory_order {text : String} {task : Task} {w w' : Workspace} {r : TaskReport}
    {curve : Trajectory Float} (hparse : Task.parse text = .ok task)
    (hrun : task.run w = .ok (r, w')) (hcurve : r.trajectory = some curve) :
    (task.x0.isNaN = false → 0 ≤ task.span → curve.points.IsChain fun p q => p.x ≤ q.x) ∧
    (task.x0.isNaN = false → task.span ≤ 0 → curve.points.IsChain fun p q => q.x ≤ p.x) ∧
    (task.x0.isNaN = true → ∀ p ∈ curve.points, p.x.isNaN = true) ∧
    (task.span.isFinite = false → curve.points.length ≤ 1) := by
  obtain ⟨hpos, hmax⟩ := Task.steps_of_parse hparse
  obtain rfl := Task.report_of_run hrun
  obtain ⟨rhs, rfl⟩ := Task.trajectory_of_report hcurve
  exact sampleTrajectory_order rhs.slope task.start hpos (Nat.lt_of_le_of_lt hmax (by decide))

def curveOf (text : String) : Option (Task × Trajectory Float) := do
  let task ← (Task.parse text).toOption
  let (r, _) ← (task.run {}).toOption
  return (task, ← r.trajectory)

theorem run_of_curveOf {text : String} {task : Task} {curve : Trajectory Float}
    (h : curveOf text = some (task, curve)) :
    ∃ r w, Task.parse text = .ok task ∧ task.run {} = .ok (r, w) ∧ r.trajectory = some curve := by
  obtain ⟨task', hparse, h⟩ := Option.bind_eq_some_iff.mp h
  obtain ⟨⟨r, w⟩, hrun, h⟩ := Option.bind_eq_some_iff.mp h
  obtain ⟨curve', hcurve, h⟩ := Option.bind_eq_some_iff.mp h
  cases h
  exact ⟨r, w, toOption_eq_some.mp hparse, toOption_eq_some.mp hrun, hcurve⟩

theorem trajectory_order_unit_span :
    ∃ task curve,
      curveOf "equation\n  text: dy/dx = 1\nsampler\n  span: 1\n  steps: 1\n" = some (task, curve) ∧
      curve.points.length = 3 ∧ curve.points.IsChain fun p q => p.x ≤ q.x := by
  have hcurve : (curveOf "equation\n  text: dy/dx = 1\nsampler\n  span: 1\n  steps: 1\n").any
      (fun (task, curve) => !task.x0.isNaN && decide (0 ≤ task.span) &&
        curve.points.length == 3) = true := by decide +kernel
  obtain ⟨⟨task, curve⟩, hcurve, hall⟩ := (Option.any_eq_true _ _).mp hcurve
  simp only [Bool.and_eq_true, Bool.not_eq_true', decide_eq_true_eq, beq_iff_eq] at hall
  obtain ⟨⟨hx, hspan⟩, hlength⟩ := hall
  obtain ⟨r, w, hparse, hrun, htrajectory⟩ := run_of_curveOf hcurve
  exact ⟨task, curve, hcurve, hlength, (trajectory_order hparse hrun htrajectory).1 hx hspan⟩

/-- A negative span is accepted, and turns the curve around. -/
theorem negative_span_not_ordered :
    ∃ task r w curve,
      Task.parse "equation\n  text: dy/dx = 1\nsampler\n  span: -1\n  steps: 1\n" = .ok task ∧
      task.run {} = .ok (r, w) ∧ r.trajectory = some curve ∧
      ¬curve.points.IsChain fun p q => p.x ≤ q.x := by
  have hcurve : (curveOf "equation\n  text: dy/dx = 1\nsampler\n  span: -1\n  steps: 1\n").any
      (fun (_, curve) => !decide (curve.points.IsChain fun p q => p.x ≤ q.x)) = true := by
    decide +kernel
  obtain ⟨⟨task, curve⟩, hcurve, hnot⟩ := (Option.any_eq_true _ _).mp hcurve
  obtain ⟨r, w, hparse, hrun, htrajectory⟩ := run_of_curveOf hcurve
  exact ⟨task, r, w, curve, hparse, hrun, htrajectory, by simpa using hnot⟩

end SlopeField
