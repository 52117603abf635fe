import Mathlib.Algebra.Polynomial.Derivative
import Mathlib.Tactic.Ring
import SlopeField.Proofs.Trajectory.Iterates

/-!
# The order of the method

Over the rationals no value overflows, so a curve has all its points
(`getElem?_sampleTrajectory`), and on two kinds of equations they have a closed
form in which every weight and every stage of the method takes part. A slope that
is a cubic in `x` is integrated exactly (`Sampler.step_cubic`), and the slope
`L y` multiplies `y` by the first five terms of the exponential series at each
step (`Sampler.step_linear`).
-/

namespace SlopeField

open Polynomial

/-- The weighted mean of three values of a cubic gives its integral. -/
theorem weighted_mean_eq_integral {p P : ℚ[X]} (hp : p.natDegree ≤ 3) (hP : derivative P = p)
    (x h : ℚ) :
    h / 6 * (p.eval x + 4 * p.eval (x + h / 2) + p.eval (x + h)) = P.eval (x + h) - P.eval x := by
  have hdegree : P.natDegree ≤ 4 := by
    rw [← hP, natDegree_derivative] at hp
    omega
  -- Both sides in terms of the coefficients of `P`.
  have hp' (z : ℚ) := eval_eq_sum_range' (Nat.lt_succ_of_le hp) z
  have hP' (z : ℚ) := eval_eq_sum_range' (Nat.lt_succ_of_le hdegree) z
  simp only [hp', hP', Finset.sum_range_succ, Finset.sum_range_zero]
  simp only [← hP, coeff_derivative]
  push_cast
  ring

/-- The first five terms of the exponential series. -/
def growth (z : ℚ) : ℚ := 1 + z + z ^ 2 / 2 + z ^ 3 / 6 + z ^ 4 / 24

local instance exactRational : Arithmetic ℚ where
  ofNat n := n
  isFinite _ := true

-- ---------------------------------------------------------------------------
-- Steps
-- ---------------------------------------------------------------------------

namespace Sampler

variable (x y h : ℚ)

theorem step_rational (f : ℚ → ℚ → ℚ) :
    step f ⟨x, y, h⟩ =
      let k₁ := f x y
      let k₂ := f (x + h / 2) (y + h * k₁ / 2)
      let k₃ := f (x + h / 2) (y + h * k₂ / 2)
      let k₄ := f (x + h) (y + h * k₃)
      ⟨x + h, y + h / 6 * (k₁ + 2 * k₂ + 2 * k₃ + k₄), h⟩ := rfl

theorem step_cubic {p P : ℚ[X]} (hp : p.natDegree ≤ 3) (hP : derivative P = p) :
    step (fun x _ => p.eval x) ⟨x, y, h⟩ = ⟨x + h, y + P.eval (x + h) - P.eval x, h⟩ := by
  have hmean := weighted_mean_eq_integral hp hP x h
  rw [step_rational, add_sub_assoc, ← hmean]
  simp only [mk.injEq, true_and, and_true]
  ring

theorem step_linear (L : ℚ) :
    step (fun _ y => L * y) ⟨x, y, h⟩ = ⟨x + h, y * growth (L * h), h⟩ := by
  rw [step_rational, growth]
  simp only [mk.injEq, true_and, and_true]
  ring

theorem add_width (k : ℕ) : x + h + k * h = x + (k + 1 : ℕ) * h := by
  push_cast
  ring

theorem after_cubic {p P : ℚ[X]} (hp : p.natDegree ≤ 3) (hP : derivative P = p) (k : ℕ) :
    after (fun x _ => p.eval x) ⟨x, y, h⟩ k =
      ⟨x + k * h, y + P.eval (x + k * h) - P.eval x, h⟩ := by
  induction k generalizing x y with
  | zero => simp
  | succ k ih =>
    rw [after_succ, step_cubic x y h hp hP, ih, add_width]
    simp only [mk.injEq, true_and, and_true]
    ring

theorem after_linear (L : ℚ) (k : ℕ) :
    after (fun _ y => L * y) ⟨x, y, h⟩ k = ⟨x + k * h, y * growth (L * h) ^ k, h⟩ := by
  induction k generalizing x y with
  | zero => simp
  | succ k ih =>
    rw [after_succ, step_linear, ih, add_width, pow_succ', mul_assoc]

end Sampler

-- ---------------------------------------------------------------------------
-- Curves
-- ---------------------------------------------------------------------------

theorem Sampler.getElem?_run (f : ℚ → ℚ → ℚ) (s : Sampler ℚ) {n k : ℕ} (hk : k ≤ n) :
    (s.point :: (s.run f n).points)[k]? = some (s.after f k).point := by
  have hlength : (s.run f n).points.length = n := by
    by_contra hne
    have hreach := reaches_run f s n
    exact Bool.false_ne_true (hreach.stop (lt_of_le_of_ne hreach.le hne)).symm
  rw [cons_points_run_eq_map, hlength, List.getElem?_map,
    List.getElem?_range (Nat.lt_succ_of_le hk), Option.map_some]

variable (start : Point ℚ) (span : ℚ) {steps k : ℕ}

theorem getElem?_sampleTrajectory (f : ℚ → ℚ → ℚ) (hpos : 0 < steps) (hk : k ≤ steps) :
    (sampleTrajectory f start span steps).forward[k]? =
      some (Sampler.after f ⟨start.x, start.y, span / steps⟩ k).point ∧
    (start :: (sampleTrajectory f start span steps).backward.reverse)[k]? =
      some (Sampler.after f ⟨start.x, start.y, -(span / steps)⟩ k).point := by
  rw [sampleTrajectory_of_pos f start span hpos rfl, List.reverse_reverse]
  exact ⟨Sampler.getElem?_run f ⟨start.x, start.y, span / steps⟩ hk,
    Sampler.getElem?_run f ⟨start.x, start.y, -(span / steps)⟩ hk⟩

/-- In exact arithmetic the `k`-th point on either side of the start, which counts
as the zeroth, lies on the curve through the start where the slope is a cubic in
`x`; where it is `L y`, each step multiplies `y` by the exponential to the fourth
order. -/
theorem sampleTrajectory_fourth_order (hpos : 0 < steps) (hk : k ≤ steps) :
    (∀ p P : ℚ[X], p.natDegree ≤ 3 → derivative P = p →
      let h := span / steps
      let curve := sampleTrajectory (fun x _ => p.eval x) start span steps
      curve.forward[k]? =
        some ⟨start.x + k * h, start.y + P.eval (start.x + k * h) - P.eval start.x⟩ ∧
      (start :: curve.backward.reverse)[k]? =
        some ⟨start.x - k * h, start.y + P.eval (start.x - k * h) - P.eval start.x⟩) ∧
    ∀ L : ℚ,
      let h := span / steps
      let curve := sampleTrajectory (fun _ y => L * y) start span steps
      curve.forward[k]? = some ⟨start.x + k * h, start.y * growth (L * h) ^ k⟩ ∧
      (start :: curve.backward.reverse)[k]? =
        some ⟨start.x - k * h, start.y * growth (-(L * h)) ^ k⟩ := by
  have hback (h : ℚ) : start.x + k * -h = start.x - k * h := by ring
  refine ⟨fun p P hp hP => ?_, fun L => ?_⟩
  · have hcurve := getElem?_sampleTrajectory start span (fun x _ => p.eval x) hpos hk
    rw [Sampler.after_cubic _ _ _ hp hP, Sampler.after_cubic _ _ _ hp hP, hback] at hcurve
    exact hcurve
  · have hcurve := getElem?_sampleTrajectory start span (fun _ y => L * y) hpos hk
    rw [Sampler.after_linear, Sampler.after_linear, hback, mul_neg] at hcurve
    exact hcurve

/-- Two steps of width one along `y' = x ^ 3` and along `y' = 3 y`. -/
theorem sampleTrajectory_fourth_order_two_steps :
    (X ^ 3 : ℚ[X]).natDegree ≤ 3 ∧ derivative (C (1 / 4) * X ^ 4 : ℚ[X]) = X ^ 3 ∧
    (sampleTrajectory (fun x _ => (X ^ 3 : ℚ[X]).eval x) ⟨1, 0⟩ 2 2).forward[2]? =
      some ⟨3, 20⟩ ∧
    (sampleTrajectory (fun _ y : ℚ => 3 * y) ⟨1, 5⟩ 2 2).forward[2]? =
      some ⟨3, 5 * (131 / 8) ^ 2⟩ := by
  have hdegree : (X ^ 3 : ℚ[X]).natDegree ≤ 3 := natDegree_X_pow_le 3
  have hderivative : derivative (C (1 / 4) * X ^ 4 : ℚ[X]) = X ^ 3 := by
    rw [derivative_C_mul_X_pow]
    norm_num
  obtain ⟨hcubic, -⟩ := (sampleTrajectory_fourth_order ⟨1, 0⟩ 2 (by decide) (Nat.le_refl 2)).1
    _ _ hdegree hderivative
  obtain ⟨hlinear, -⟩ := (sampleTrajectory_fourth_order ⟨1, 5⟩ 2 (by decide) (Nat.le_refl 2)).2 3
  refine ⟨hdegree, hderivative, hcubic.trans ?_, hlinear.trans ?_⟩
  · norm_num
  · norm_num [growth]

end SlopeField
