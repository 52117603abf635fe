import Mathlib.Logic.Function.Iterate
import Mathlib.Order.Bounds.Basic
import SlopeField.Proofs.Trajectory

/-!
# Runs as iterations

The states of a sampler are the iterates of its step (`Sampler.after`). A run
passes them up to the first one that is not a point (`Sampler.reaches_run`,
`Sampler.points_run_eq_map`), so a curve is made of the iterates on both sides of
its start (`sampleTrajectory_eq_iterates`). Where a sum with a number that is not
finite is not finite either, a state that is not finite stays so under every
step; a run that stopped is then over for good, and runs one after the other make
a single run (`Sampler.points_run_add`).
-/

namespace SlopeField

variable {α : Type} [Arithmetic α] {f g : α → α → α} {s : Sampler α} {n m : Nat}

namespace Sampler

/-- The state after `k` steps, finite or not. -/
def after (f : α → α → α) (s : Sampler α) (k : Nat) : Sampler α := (step f)^[k] s

@[simp] theorem after_zero : s.after f 0 = s := rfl

@[simp] theorem after_succ (k : Nat) : s.after f (k + 1) = (s.step f).after f k := rfl

-- ---------------------------------------------------------------------------
-- One run
-- ---------------------------------------------------------------------------

def IsLast (states : Nat → Sampler α) (n m : Nat) : Prop :=
  IsGreatest {m | m ≤ n ∧ ∀ k ≤ m, (states k).isValid = true} m

/-- Of `n` steps the first `m` lead to points, and the next one does not. -/
structure Reaches (f : α → α → α) (s : Sampler α) (n m : Nat) : Prop where
  le : m ≤ n
  valid : ∀ k < m, (s.after f (k + 1)).isValid = true
  stop : m < n → (s.after f (m + 1)).isValid = false

theorem reaches_run (f : α → α → α) (s : Sampler α) (n : Nat) :
    s.Reaches f n (s.run f n).points.length := by
  induction n generalizing s with
  | zero => exact ⟨Nat.le_refl _, nofun, nofun⟩
  | succ n ih =>
    rw [points_run_succ]
    split
    · rename_i hvalid
      obtain ⟨hle, hall, hstop⟩ := ih (s.step f)
      refine ⟨Nat.succ_le_succ hle, fun k hk => ?_, fun hm => hstop (Nat.lt_of_succ_lt_succ hm)⟩
      cases k with
      | zero => exact hvalid
      | succ k => exact hall k (Nat.lt_of_succ_lt_succ hk)
    · rename_i hvalid
      exact ⟨Nat.zero_le _, nofun, fun _ => Bool.eq_false_of_not_eq_true hvalid⟩

theorem points_run_eq_map (f : α → α → α) (s : Sampler α) (n : Nat) :
    (s.run f n).points =
      (List.range (s.run f n).points.length).map fun k => (s.after f (k + 1)).point := by
  induction n generalizing s with
  | zero => rfl
  | succ n ih =>
    rw [points_run_succ]
    split
    · rw [List.length_cons, List.range_succ_eq_map, List.map_cons, List.map_map]
      exact congrArg (_ :: ·) (ih (s.step f))
    · rfl

theorem cons_points_run_eq_map (f : α → α → α) (s : Sampler α) (n : Nat) :
    s.point :: (s.run f n).points =
      (List.range ((s.run f n).points.length + 1)).map fun k => (s.after f k).point := by
  rw [List.range_succ_eq_map, List.map_cons, List.map_map]
  exact congrArg (s.point :: ·) (points_run_eq_map f s n)

theorem Reaches.isLast (h : s.Reaches f n m) (hs : s.isValid = true) :
    IsLast (s.after f) n m := by
  refine ⟨⟨h.le, fun k hk => ?_⟩, fun j ⟨hj, hall⟩ => Nat.not_lt.mp fun hlt => ?_⟩
  · cases k with
    | zero => exact hs
    | succ k => exact h.valid k hk
  · exact Bool.false_ne_true ((h.stop (Nat.lt_of_lt_of_le hlt hj)).symm.trans (hall (m + 1) hlt))

theorem isFinite_of_mem_run {p : Point α} (h : p ∈ (s.run f n).points) :
    Arithmetic.isFinite p.y = true := by
  rw [points_run_eq_map] at h
  obtain ⟨k, hk, rfl⟩ := List.mem_map.mp h
  exact (reaches_run f s n).valid k (List.mem_range.mp hk)

theorem points_run_congr (h : ∀ k ≤ n, s.after g k = s.after f k) :
    (s.run g n).points = (s.run f n).points := by
  induction n generalizing s with
  | zero => rfl
  | succ n ih =>
    have hstep : s.step g = s.step f := h 1 (Nat.succ_le_succ (Nat.zero_le n))
    have hrest := ih (s := s.step f) fun k hk => by
      simpa [hstep] using h (k + 1) (Nat.succ_le_succ hk)
    rw [points_run_succ, points_run_succ, hstep, hrest]

end Sampler

-- ---------------------------------------------------------------------------
-- Curves
-- ---------------------------------------------------------------------------

section
variable (f : α → α → α) (start : Point α) (span : α) {steps : Nat}

theorem sampleTrajectory_of_degenerate
    (h : steps = 0 ∨ Arithmetic.isFinite start.y = false) :
    sampleTrajectory f start span steps = {} := by
  have htest : (steps == 0 || !Arithmetic.isFinite start.y) = true := by simpa using h
  rw [sampleTrajectory, if_pos htest]

theorem sampleTrajectory_of_pos (hpos : 0 < steps) (hy : Arithmetic.isFinite start.y = true) :
    sampleTrajectory f start span steps =
      { forward :=
          start :: (Sampler.run f ⟨start.x, start.y, span / Arithmetic.ofNat steps⟩ steps).points
        backward :=
          (Sampler.run f ⟨start.x, start.y, -(span / Arithmetic.ofNat steps)⟩ steps).points.reverse
        } := by
  have htest : ¬(steps == 0 || !Arithmetic.isFinite start.y) = true := by
    simp [hy, Nat.ne_of_gt hpos]
  rw [sampleTrajectory, if_neg htest]
  rfl

end

/-- A curve is made of the iterates to the right and to the left of its start, in
each direction up to the last one with a finite `y` before it; neither direction
depends on the states of the other. -/
theorem sampleTrajectory_eq_iterates (f : α → α → α) (start : Point α) (span : α) (steps : Nat) :
    let curve (f : α → α → α) := sampleTrajectory f start span steps
    let right (f : α → α → α) := Sampler.after f ⟨start.x, start.y, span / Arithmetic.ofNat steps⟩
    let left (f : α → α → α) :=
      Sampler.after f ⟨start.x, start.y, -(span / Arithmetic.ofNat steps)⟩
    (steps = 0 ∨ Arithmetic.isFinite start.y = false →
      (curve f).forward = [] ∧ (curve f).backward = []) ∧
    (0 < steps → Arithmetic.isFinite start.y = true →
      (∃ m, Sampler.IsLast (right f) steps m ∧
        (curve f).forward = (List.range (m + 1)).map (fun k => (right f k).point) ∧
        (m < steps → (right f (m + 1)).isValid = false)) ∧
      (∃ n, Sampler.IsLast (left f) steps n ∧
        (curve f).backward = ((List.range n).map fun k => (left f (k + 1)).point).reverse ∧
        (n < steps → (left f (n + 1)).isValid = false)) ∧
      (curve f).forward.head? = some start) ∧
    (∀ p ∈ (curve f).points, Arithmetic.isFinite p.y = true) ∧
    (curve f).forward.length ≤ steps + 1 ∧ (curve f).backward.length ≤ steps ∧
    (∀ g, (∀ k ≤ steps, right g k = right f k) → (curve g).forward = (curve f).forward) ∧
    (∀ g, (∀ k ≤ steps, left g k = left f k) → (curve g).backward = (curve f).backward) := by
  intro curve right left
  by_cases hdegenerate : steps = 0 ∨ Arithmetic.isFinite start.y = false
  · have hcurve (g : α → α → α) : curve g = {} :=
      sampleTrajectory_of_degenerate g start span hdegenerate
    simp only [hcurve]
    refine ⟨fun _ => ⟨trivial, trivial⟩, fun hpos hy => ?_, nofun, Nat.zero_le _, Nat.zero_le _,
      fun _ _ => trivial, fun _ _ => trivial⟩
    exact (hdegenerate.elim (Nat.ne_of_gt hpos) (by simp [hy])).elim
  · obtain ⟨hpos, hy⟩ := not_or.mp hdegenerate
    replace hy := Bool.eq_true_of_not_eq_false hy
    have hcurve (g : α → α → α) := sampleTrajectory_of_pos g start span (Nat.pos_of_ne_zero hpos) hy
    simp only [curve, hcurve]
    have hright := Sampler.reaches_run f ⟨start.x, start.y, span / Arithmetic.ofNat steps⟩ steps
    have hleft := Sampler.reaches_run f ⟨start.x, start.y, -(span / Arithmetic.ofNat steps)⟩ steps
    refine ⟨fun h => (hdegenerate h).elim, fun _ _ => ⟨?_, ?_, rfl⟩, fun p hp => ?_,
      Nat.succ_le_succ hright.le, ?_, fun g hg => ?_, fun g hg => ?_⟩
    · refine ⟨_, hright.isLast hy, ?_, hright.stop⟩
      exact Sampler.cons_points_run_eq_map f ⟨start.x, start.y, span / Arithmetic.ofNat steps⟩ steps
    · refine ⟨_, hleft.isLast hy, ?_, hleft.stop⟩
      exact congrArg List.reverse (Sampler.points_run_eq_map f _ steps)
    · obtain hp | hp := List.mem_append.mp hp
      · exact Sampler.isFinite_of_mem_run (List.mem_reverse.mp hp)
      · obtain rfl | hp := List.mem_cons.mp hp
        · exact hy
        · exact Sampler.isFinite_of_mem_run hp
    · rw [List.length_reverse]
      exact hleft.le
    · rw [Sampler.points_run_congr hg]
    · rw [Sampler.points_run_congr hg]

def cliff (x _ : Float) : Float := if 0 < x then 1e308 else 1

theorem cliff_stops_right :
    (sampleTrajectory cliff ⟨0, 0⟩ 2 2).forward.length = 1 ∧
    (sampleTrajectory cliff ⟨0, 0⟩ 2 2).backward.length = 2 ∧
    Sampler.IsLast (Sampler.after cliff ⟨0, 0, 1⟩) 2 0 ∧
    (Sampler.after cliff ⟨0, 0, 1⟩ 1).isValid = false ∧
    Sampler.IsLast (Sampler.after cliff ⟨0, 0, -1⟩) 2 2 := by
  have hforward : (sampleTrajectory cliff ⟨0, 0⟩ 2 2).forward.length = 1 := by decide +kernel
  have hbackward : (sampleTrajectory cliff ⟨0, 0⟩ 2 2).backward.length = 2 := by decide +kernel
  have hwidth : (2 / Arithmetic.ofNat 2 : Float) = 1 := by decide +kernel
  have hcurve :=
    (sampleTrajectory_eq_iterates cliff ⟨0, 0⟩ 2 2).2.1 (by decide) (by decide +kernel)
  obtain ⟨⟨m, hm, hright, hstop⟩, ⟨n, hn, hleft, -⟩, -⟩ := hcurve
  rw [hwidth] at hm hn hstop
  obtain rfl : m = 0 := by simpa [hright] using hforward
  obtain rfl : n = 2 := by simpa [hleft] using hbackward
  exact ⟨hforward, hbackward, hm, hstop (by decide), hn⟩

-- ---------------------------------------------------------------------------
-- Runs one after the other
-- ---------------------------------------------------------------------------

namespace Sampler

theorem final_run_eq_after (f : α → α → α) (s : Sampler α) (n : Nat) :
    (s.run f n).final = s.after f (min n ((s.run f n).points.length + 1)) := by
  induction n generalizing s with
  | zero => rw [Nat.zero_min]; rfl
  | succ n ih =>
    rw [final_run_succ, points_run_succ]
    split
    · rw [ih, List.length_cons, Nat.add_min_add_right, after_succ]
    · rw [List.length_nil, Nat.add_min_add_right, Nat.min_zero]; rfl

theorem not_isValid_final_of_stopped (h : (s.run f n).points.length < n) :
    (s.run f n).final.isValid = false := by
  rw [final_run_eq_after, Nat.min_eq_right h]
  exact (reaches_run f s n).stop h

def afterRuns (f : α → α → α) (s : Sampler α) (lengths : List Nat) : Sampler α :=
  lengths.foldl (fun s n => (s.run f n).final) s

section
variable (hadd : ∀ a b : α, Arithmetic.isFinite a = false → Arithmetic.isFinite (a + b) = false)
include hadd

theorem not_isValid_after (hs : s.isValid = false) (k : Nat) : (s.after f k).isValid = false := by
  induction k generalizing s with
  | zero => exact hs
  | succ k ih => exact ih (hadd s.y _ hs)

theorem points_run_of_not_finite (hs : s.isValid = false) (n : Nat) : (s.run f n).points = [] :=
  points_run_of_not_isValid (not_isValid_after hadd hs 1) n

theorem not_isValid_afterRuns (hs : s.isValid = false) (lengths : List Nat) :
    (s.afterRuns f lengths).isValid = false := by
  induction lengths generalizing s with
  | nil => exact hs
  | cons n lengths ih =>
    have hfinal : (s.run f n).final.isValid = false := by
      rw [final_run_eq_after]
      exact not_isValid_after hadd hs _
    exact ih hfinal

/-- Where the first run stops, the second one starts from a state that the single
run never goes on from; that state is not finite, so the second run is empty. -/
theorem points_run_add (f : α → α → α) (s : Sampler α) (n m : Nat) :
    (s.run f (n + m)).points = (s.run f n).points ++ ((s.run f n).final.run f m).points := by
  induction n generalizing s with
  | zero => rw [Nat.zero_add]; rfl
  | succ n ih =>
    rw [Nat.succ_add, points_run_succ, points_run_succ, final_run_succ]
    split
    · rw [ih, List.cons_append]
    · rename_i hstop
      rw [points_run_of_not_finite hadd (Bool.eq_false_of_not_eq_true hstop), List.append_nil]

end

/-- Two runs of floats, one after the other, pass the points of a single one, from
every state. A run that is cut short ends in a state that is not finite, and from
such a state no run passes a point, whatever runs came before it. -/
theorem points_run_append_run (f : Float → Float → Float) (s : Sampler Float) (n m : Nat) :
    (s.run f n).points ++ ((s.run f n).final.run f m).points = (s.run f (n + m)).points ∧
    ((s.run f n).points.length < n → (s.run f n).final.isValid = false) ∧
    (s.isValid = false →
      ∀ (lengths : List Nat) (k : Nat), ((s.afterRuns f lengths).run f k).points = []) := by
  have hadd (a b : Float) (ha : a.isFinite = false) : (a + b).isFinite = false :=
    Bool.eq_false_iff.mpr fun h => Bool.eq_false_iff.mp ha (Binary64.isFinite_left_of_add h)
  refine ⟨(points_run_add hadd f s n m).symm, not_isValid_final_of_stopped, fun hs lengths k => ?_⟩
  exact points_run_of_not_finite hadd (not_isValid_afterRuns hadd hs lengths) k

theorem cliff_runs_end :
    (Sampler.run cliff ⟨-1, 0, 1⟩ 5).points.length = 1 ∧
    (Sampler.run cliff ⟨-1, 0, 1⟩ 3).final.isValid = false ∧
    (Sampler.run cliff ⟨-1, 0, 1⟩ 3).points ++
        ((Sampler.run cliff ⟨-1, 0, 1⟩ 3).final.run cliff 2).points =
      (Sampler.run cliff ⟨-1, 0, 1⟩ 5).points ∧
    (((Sampler.run cliff ⟨-1, 0, 1⟩ 3).final.afterRuns cliff [4, 1]).run cliff 2).points = [] := by
  have hlength : (Sampler.run cliff ⟨-1, 0, 1⟩ 5).points.length = 1 := by decide +kernel
  obtain ⟨hcompose, hstop, -⟩ := points_run_append_run cliff ⟨-1, 0, 1⟩ 3 2
  have hfinal := hstop (by decide +kernel)
  obtain ⟨-, -, hlater⟩ := points_run_append_run cliff (Sampler.run cliff ⟨-1, 0, 1⟩ 3).final 0 0
  exact ⟨hlength, hfinal, hcompose, hlater hfinal [4, 1] 2⟩

end Sampler

end SlopeField
