import SlopeField.Scalar

/-!
# Sampled curves

The classical fourth-order method follows the curve of `dy/dx = f(x, y)`
through a point, in both directions. An undefined slope counts as zero, so a
step always has a result; a direction ends before the first point whose `y` is
not finite.
-/

namespace SlopeField

variable {α : Type}

structure Point (α : Type) where
  x : α
  y : α
  deriving Repr

/-- A sampled curve. `forward` starts at the initial point, and `backward`
holds the points on the other side of it, the farthest first. -/
structure Trajectory (α : Type) where
  forward : List (Point α) := []
  backward : List (Point α) := []
  deriving Repr

def Trajectory.points (t : Trajectory α) : List (Point α) := t.backward ++ t.forward

def defaultSteps : Nat := 160

def maxSteps : Nat := 1000000

structure Sampler (α : Type) where
  x : α
  y : α
  h : α
  deriving Repr

/-- The points a run has passed, and the state it ended in: behind the last
point, or at the first one that is not finite. -/
structure Run (α : Type) where
  points : List (Point α)
  final : Sampler α
  deriving Repr

namespace Sampler

variable [Arithmetic α]

def zero : Sampler α := ⟨Arithmetic.ofNat 0, Arithmetic.ofNat 0, Arithmetic.ofNat 0⟩

def aim (s : Sampler α) (p : Point α) (h : α) : Sampler α := { s with x := p.x, y := p.y, h }

@[specialize]
def step (f : α → α → α) (s : Sampler α) : Sampler α :=
  let two : α := Arithmetic.ofNat 2
  let slope (x y : α) : α := Arithmetic.finiteOrZero (f x y)
  let half := s.x + s.h / two
  let k1 := slope s.x s.y
  let k2 := slope half (s.y + s.h * k1 / two)
  let k3 := slope half (s.y + s.h * k2 / two)
  let k4 := slope (s.x + s.h) (s.y + s.h * k3)
  { s with
    x := s.x + s.h
    y := s.y + s.h / Arithmetic.ofNat 6 * (k1 + two * k2 + two * k3 + k4) }

def isValid (s : Sampler α) : Bool := Arithmetic.isFinite s.y

def point (s : Sampler α) : Point α := ⟨s.x, s.y⟩

/-- Takes up to `n` steps and puts each new point before those in `passed`. -/
@[specialize]
def advance (f : α → α → α) : Nat → Sampler α → List (Point α) → Run α
  | 0, s, passed => ⟨passed, s⟩
  | n + 1, s, passed =>
    let next := s.step f
    if next.isValid then advance f n next (next.point :: passed) else ⟨passed, next⟩

@[specialize]
def run (f : α → α → α) (s : Sampler α) (n : Nat) : Run α :=
  let r := advance f n s []
  { r with points := r.points.reverse }

end Sampler

/-- The curve through a point, with `steps` steps of width `span / steps` in
each direction, taken by one sampler. There is no curve without steps or from a
point that is not finite. -/
@[specialize]
def sampleTrajectory [Arithmetic α] (f : α → α → α) (start : Point α) (span : α) (steps : Nat) :
    Trajectory α :=
  if steps == 0 || !Arithmetic.isFinite start.y then {}
  else
    let h := span / Arithmetic.ofNat steps
    let right := (Sampler.zero.aim start h).run f steps
    let left := (right.final.aim start (-h)).run f steps
    { forward := start :: right.points
      backward := left.points.reverse }

end SlopeField
