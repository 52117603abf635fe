import SlopeField.Binary64
import SlopeField.Proofs.Expr.Value
import SlopeField.Proofs.Trajectory.Iterates

/-!
# Equations without `x`

Where the right-hand side has no `x`, the curves through all points of one height
have the same heights, and end after as many steps (`sampleTrajectory_autonomous`).
Two samplers that differ in `x` alone stay so (`Sampler.Level.step`), since `x` enters
a step only through the slopes, and whether a state is a point is decided by `y`.
-/

namespace SlopeField

variable {α : Type}

def Autonomous (f : α → α → α) : Prop := ∃ g : α → α, f = fun _ y => g y

theorem Expr.autonomous_slope [Scalar α] {e : Expr α} (h : e.mentions independent = false) :
    Autonomous e.slope := by
  refine ⟨e.slope Scalar.undefined, ?_⟩
  funext x y
  exact congrArg Scalar.finiteOrUndefined (compile_congr_independent h x _ y)

section
variable [Arithmetic α] {f : α → α → α} {s s' : Sampler α}

namespace Sampler

structure Level (s s' : Sampler α) : Prop where
  y : s.y = s'.y
  h : s.h = s'.h

theorem Level.step (hf : Autonomous f) (hs : Level s s') : Level (s.step f) (s'.step f) := by
  obtain ⟨g, rfl⟩ := hf
  obtain ⟨hy, hh⟩ := hs
  constructor
  · simp only [Sampler.step, hy, hh]
  · exact hh

theorem Level.isValid (hs : Level s s') : s.isValid = s'.isValid :=
  congrArg Arithmetic.isFinite hs.y

theorem Level.heights_run (hf : Autonomous f) (hs : Level s s') (n : Nat) :
    (s.run f n).points.map Point.y = (s'.run f n).points.map Point.y := by
  induction n generalizing s s' with
  | zero => rfl
  | succ n ih =>
    have hstep := hs.step hf
    rw [points_run_succ, points_run_succ, hstep.isValid]
    split
    · rw [List.map_cons, List.map_cons, ih hstep]
      exact congrArg (· :: _) hstep.y
    · rfl

end Sampler

theorem heights_sampleTrajectory (hf : Autonomous f) (x x' y span : α) (steps : Nat) :
    (sampleTrajectory f ⟨x, y⟩ span steps).forward.map Point.y =
      (sampleTrajectory f ⟨x', y⟩ span steps).forward.map Point.y ∧
    (sampleTrajectory f ⟨x, y⟩ span steps).backward.map Point.y =
      (sampleTrajectory f ⟨x', y⟩ span steps).backward.map Point.y := by
  by_cases hdegenerate : steps = 0 ∨ Arithmetic.isFinite y = false
  · rw [sampleTrajectory_of_degenerate f ⟨x, y⟩ span hdegenerate,
      sampleTrajectory_of_degenerate f ⟨x', y⟩ span hdegenerate]
    exact ⟨rfl, rfl⟩
  · obtain ⟨hpos, hy⟩ := not_or.mp hdegenerate
    replace hpos := Nat.pos_of_ne_zero hpos
    replace hy := Bool.eq_true_of_not_eq_false hy
    have hlevel (h : α) : Sampler.Level ⟨x, y, h⟩ ⟨x', y, h⟩ := ⟨rfl, rfl⟩
    have hrun (h : α) := (hlevel h).heights_run hf steps
    rw [sampleTrajectory_of_pos f ⟨x, y⟩ span hpos hy,
      sampleTrajectory_of_pos f ⟨x', y⟩ span hpos hy]
    refine ⟨congrArg (y :: ·) (hrun _), ?_⟩
    rw [List.map_reverse, List.map_reverse, hrun]

end

/-- Moving the start along `x` moves no height and no end of a curve whose
equation has no `x`. -/
theorem sampleTrajectory_autonomous [Scalar α] {e : Expr α} (he : e.mentions independent = false)
    (x x' y span : α) (steps : Nat) :
    let curve (x : α) : Trajectory α := sampleTrajectory e.slope ⟨x, y⟩ span steps
    (curve x).forward.length = (curve x').forward.length ∧
    (curve x).forward.map Point.y = (curve x').forward.map Point.y ∧
    (curve x).backward.length = (curve x').backward.length ∧
    (curve x).backward.map Point.y = (curve x').backward.map Point.y := by
  intro curve
  obtain ⟨hforward, hbackward⟩ :=
    heights_sampleTrajectory (Expr.autonomous_slope he) x x' y span steps
  have hlength {p q : List (Point α)} (h : p.map Point.y = q.map Point.y) :
      p.length = q.length := by
    simpa using congrArg List.length h
  exact ⟨hlength hforward, hforward, hlength hbackward, hbackward⟩

/-- The curve of `y' = y` through a point near the largest float. -/
def steepGrowth (x : Float) : Trajectory Float :=
  sampleTrajectory (Expr.slope (.var dependent)) ⟨x, 4e307⟩ 2 2

/-- The growth ends at once, from zero as from infinity, and the decay on the other
side does not. -/
theorem steepGrowth_autonomous :
    (.var dependent : Expr Float).mentions independent = false ∧
    (steepGrowth 0).forward.length = 1 ∧ (steepGrowth (1 / 0)).forward.length = 1 ∧
    (steepGrowth 0).backward.length = 2 ∧ (steepGrowth (1 / 0)).backward.length = 2 ∧
    (steepGrowth 0).backward.map Point.y = (steepGrowth (1 / 0)).backward.map Point.y := by
  have hfree : (.var dependent : Expr Float).mentions independent = false := by decide
  have hone : (steepGrowth 0).forward.length = 1 := by decide +kernel
  have htwo : (steepGrowth 0).backward.length = 2 := by decide +kernel
  obtain ⟨hforward, -, hbackward, hheights⟩ :=
    sampleTrajectory_autonomous hfree 0 (1 / 0) 4e307 2 2
  exact ⟨hfree, hone, hforward.symm.trans hone, htwo, hbackward.symm.trans htwo, hheights⟩

end SlopeField
