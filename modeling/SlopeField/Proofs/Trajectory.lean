import SlopeField.Binary64
import SlopeField.Trajectory
import SlopeField.Proofs.Binary64.Operations

/-!
# The order of a sampled curve

A point is one step width away from the one before it (`isChain_run`), so the
points of a curve run the way its span points (`sampleTrajectory_order`): up for
a positive span, down for a negative one. A step width that is not finite leaves
no point but the first.
-/

namespace SlopeField

variable {α : Type} [Arithmetic α] {f : α → α → α} {s : Sampler α}

-- ---------------------------------------------------------------------------
-- Runs
-- ---------------------------------------------------------------------------

namespace Sampler

theorem advance_passed (f : α → α → α) (n : Nat) (s : Sampler α) (passed : List (Point α)) :
    advance f n s passed =
      ⟨(advance f n s []).points ++ passed, (advance f n s []).final⟩ := by
  induction n generalizing s passed with
  | zero => rfl
  | succ n ih =>
    simp only [advance]
    split
    · rw [ih _ (_ :: passed), ih _ [_]]
      simp
    · rfl

theorem run_succ (f : α → α → α) (s : Sampler α) (n : Nat) :
    s.run f (n + 1) =
      if (s.step f).isValid then
        ⟨(s.step f).point :: ((s.step f).run f n).points, ((s.step f).run f n).final⟩
      else ⟨[], s.step f⟩ := by
  simp only [run, advance]
  split
  · rw [advance_passed]
    simp
  · rfl

theorem points_run_succ (f : α → α → α) (s : Sampler α) (n : Nat) :
    (s.run f (n + 1)).points =
      if (s.step f).isValid then (s.step f).point :: ((s.step f).run f n).points else [] := by
  rw [run_succ]
  split <;> rfl

theorem final_run_succ (f : α → α → α) (s : Sampler α) (n : Nat) :
    (s.run f (n + 1)).final =
      if (s.step f).isValid then ((s.step f).run f n).final else s.step f := by
  rw [run_succ]
  split <;> rfl

theorem points_run_of_not_isValid (h : (s.step f).isValid = false) (n : Nat) :
    (s.run f n).points = [] := by
  cases n with
  | zero => rfl
  | succ n => simp [points_run_succ, h]

theorem isChain_run (f : α → α → α) (s : Sampler α) (n : Nat) :
    (s.point :: (s.run f n).points).IsChain fun p q => q.x = p.x + s.h := by
  induction n generalizing s with
  | zero => exact List.isChain_singleton _
  | succ n ih =>
    rw [points_run_succ]
    split
    · exact (ih (s.step f)).cons_cons rfl
    · exact List.isChain_singleton _

/-- What a step keeps holds at every point, and what a step makes true holds
between neighbours. -/
theorem forall_run {P : α → Prop} {R : α → α → Prop} (f : α → α → α) (s : Sampler α) (n : Nat)
    (hstep : ∀ x, P x → P (x + s.h) ∧ R x (x + s.h)) (hs : P s.x) :
    (∀ p ∈ s.point :: (s.run f n).points, P p.x) ∧
      (s.point :: (s.run f n).points).IsChain fun p q => R p.x q.x := by
  have hchain := isChain_run f s n
  generalize (s.run f n).points = l at hchain ⊢
  generalize hp : s.point = p at hchain ⊢
  have hs : P p.x := hp ▸ hs
  clear hp
  induction l generalizing p with
  | nil => simpa using hs
  | cons q l ih =>
    rw [List.isChain_cons_cons] at hchain ⊢
    obtain ⟨hnext, hrel⟩ := hstep p.x hs
    rw [← hchain.1] at hnext hrel
    obtain ⟨hall, hrest⟩ := ih q hchain.2 hnext
    exact ⟨List.forall_mem_cons.mpr ⟨hs, hall⟩, hrel, hrest⟩

end Sampler

-- ---------------------------------------------------------------------------
-- Curves
-- ---------------------------------------------------------------------------

theorem points_sampleTrajectory (f : α → α → α) (start : Point α) (span : α) (steps : Nat) :
    (sampleTrajectory f start span steps).points = [] ∨
    (sampleTrajectory f start span steps).points =
      (Sampler.run f ⟨start.x, start.y, -(span / Arithmetic.ofNat steps)⟩ steps).points.reverse ++
        start ::
          (Sampler.run f ⟨start.x, start.y, span / Arithmetic.ofNat steps⟩ steps).points := by
  unfold sampleTrajectory
  split
  · exact .inl rfl
  · exact .inr rfl

omit [Arithmetic α] in
theorem isChain_of_runs {R : Point α → Point α → Prop} {start : Point α}
    {backward forward : List (Point α)} (hback : (start :: backward).IsChain fun p q => R q p)
    (hforth : (start :: forward).IsChain R) :
    (backward.reverse ++ start :: forward).IsChain R := by
  rw [List.isChain_split, ← List.reverse_cons, List.isChain_reverse]
  exact ⟨hback, hforth⟩

section
variable {f : Float → Float → Float}

theorem Sampler.isFinite_of_isValid {s : Sampler Float} (h : (s.step f).isValid = true) :
    s.h.isFinite = true :=
  Binary64.isFinite_of_div (Binary64.isFinite_of_mul (Binary64.isFinite_of_add h))

variable (f) (start : Point Float) {span : Float} {steps : Nat}

theorem isChain_of_width {h : Float} {n : Nat} (hfinite : h.isFinite = true)
    (hx : start.x.isNaN = false) :
    (0 ≤ h → (start :: (Sampler.run f ⟨start.x, start.y, h⟩ n).points).IsChain
      fun p q => p.x ≤ q.x) ∧
    (h ≤ 0 → (start :: (Sampler.run f ⟨start.x, start.y, h⟩ n).points).IsChain
      fun p q => q.x ≤ p.x) := by
  refine ⟨fun hsign => ?_, fun hsign => ?_⟩
  · refine (Sampler.forall_run (P := fun x : Float => x.isNaN = false) (R := (· ≤ ·)) f
      ⟨start.x, start.y, h⟩ n (fun x hx => ?_) hx).2
    obtain ⟨hnan, hle, -⟩ := Binary64.le_add_and_add_le hx hfinite
    exact ⟨hnan, hle hsign⟩
  · refine (Sampler.forall_run (P := fun x : Float => x.isNaN = false) (R := (· ≥ ·)) f
      ⟨start.x, start.y, h⟩ n (fun x hx => ?_) hx).2
    obtain ⟨hnan, -, hge⟩ := Binary64.le_add_and_add_le hx hfinite
    exact ⟨hnan, hge hsign⟩

theorem isNaN_of_mem_run {h : Float} {n : Nat} (hx : start.x.isNaN = true) :
    ∀ p ∈ start :: (Sampler.run f ⟨start.x, start.y, h⟩ n).points, p.x.isNaN = true :=
  (Sampler.forall_run (P := fun x : Float => x.isNaN = true) (R := fun _ _ => True) f
    ⟨start.x, start.y, h⟩ n (fun _ hx => ⟨Binary64.isNaN_add hx, trivial⟩) hx).1

theorem points_run_of_not_isFinite {h : Float} (hh : h.isFinite = false) (n : Nat) :
    (Sampler.run f ⟨start.x, start.y, h⟩ n).points = [] := by
  refine Sampler.points_run_of_not_isValid ?_ n
  by_contra hvalid
  have hfinite := Sampler.isFinite_of_isValid (Bool.eq_true_of_not_eq_false hvalid)
  exact Bool.false_ne_true (hh.symm.trans hfinite)

/-- The points run the way the span points. -/
theorem sampleTrajectory_order (hpos : 0 < steps) (hmax : steps < 2 ^ 53) :
    (start.x.isNaN = false → 0 ≤ span →
      (sampleTrajectory f start span steps).points.IsChain fun p q => p.x ≤ q.x) ∧
    (start.x.isNaN = false → span ≤ 0 →
      (sampleTrajectory f start span steps).points.IsChain fun p q => q.x ≤ p.x) ∧
    (start.x.isNaN = true →
      ∀ p ∈ (sampleTrajectory f start span steps).points, p.x.isNaN = true) ∧
    (span.isFinite = false → (sampleTrajectory f start span steps).points.length ≤ 1) := by
  obtain hpoints | hpoints := points_sampleTrajectory f start span steps
  · simp [hpoints]
  rw [hpoints]
  generalize hh : span / Arithmetic.ofNat steps = h
  cases hfinite : h.isFinite with
  | false =>
    have hneg : (-h).isFinite = false :=
      Bool.eq_false_iff.mpr fun hneg => by simp [Binary64.isFinite_of_neg hneg] at hfinite
    simp [points_run_of_not_isFinite f start hfinite, points_run_of_not_isFinite f start hneg]
  | true =>
    obtain ⟨m, e, hm, hsteps⟩ := Binary64.unpack_ofNat hpos hmax
    have hspan : span.isFinite = true := Binary64.isFinite_of_div (hh ▸ hfinite)
    obtain ⟨-, hnonneg, hnonpos⟩ := Binary64.div_nonneg_and_nonpos hsteps hspan
    have hdiv : span / Float.ofNat steps = h := hh
    rw [hdiv] at hnonneg hnonpos
    obtain ⟨hneg, hnegNonpos, hnegNonneg⟩ := Binary64.neg_nonpos_and_nonneg hfinite
    refine ⟨fun hx hsign => ?_, fun hx hsign => ?_, fun hx => ?_, by simp [hspan]⟩
    · exact isChain_of_runs ((isChain_of_width f start hneg hx).2 (hnegNonpos (hnonneg hsign)))
        ((isChain_of_width f start hfinite hx).1 (hnonneg hsign))
    · exact isChain_of_runs ((isChain_of_width f start hneg hx).1 (hnegNonneg (hnonpos hsign)))
        ((isChain_of_width f start hfinite hx).2 (hnonpos hsign))
    · intro p hp
      obtain hp | hp := List.mem_append.mp hp
      · exact isNaN_of_mem_run f start hx p (.tail _ (List.mem_reverse.mp hp))
      · exact isNaN_of_mem_run f start hx p hp

end

end SlopeField
