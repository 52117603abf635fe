import Mathlib
import SlopeField.Proofs.Exact.Basic

/-!
# Slopes of partial functions

`HasSlope f d x`: the partial function `f` has values around `x`, and they have
the derivative `d` there. The laws of differentiation carry over, with the
quotient and the logarithm wherever their value at the point exists.
-/

open Filter Topology

namespace SlopeField.Exact

/-- The partial function has values around `x` and the derivative `d` there. -/
def HasSlope (f : ℝ → Exact) (d x : ℝ) : Prop :=
  ∃ g : ℝ → ℝ, (∀ᶠ t in 𝓝 x, f t = some (g t)) ∧ HasDerivAt g d x

variable {f g : ℝ → Exact} {c d d' x u w : ℝ}

namespace HasSlope

theorem exists_value (h : HasSlope f d x) : ∃ y, f x = some y := by
  obtain ⟨g, hg, -⟩ := h
  exact ⟨g x, hg.self_of_nhds⟩

theorem of_eventually_eq (h : HasSlope f d x) (he : ∀ᶠ t in 𝓝 x, f t = g t) :
    HasSlope g d x := by
  obtain ⟨φ, hφ, hd⟩ := h
  refine ⟨φ, ?_, hd⟩
  filter_upwards [hφ, he] with t ht he
  rw [← he, ht]

theorem mono (h : HasSlope f d x) (hr : ∀ t, Refines (f t) (g t)) : HasSlope g d x := by
  obtain ⟨φ, hφ, hd⟩ := h
  exact ⟨φ, hφ.mono fun t ht => hr t _ ht, hd⟩

theorem unique (h : HasSlope f d x) (h' : HasSlope f d' x) : d = d' := by
  obtain ⟨φ, hφ, hd⟩ := h
  obtain ⟨γ, hγ, hd'⟩ := h'
  refine hd.unique (hd'.congr_of_eventuallyEq ?_)
  filter_upwards [hφ, hγ] with t ht ht'
  exact Option.some.inj (ht.symm.trans ht')

theorem hasDerivAt_getD (h : HasSlope f d x) (default : ℝ) :
    HasDerivAt (fun t => (f t).getD default) d x := by
  obtain ⟨φ, hφ, hd⟩ := h
  refine hd.congr_of_eventuallyEq ?_
  filter_upwards [hφ] with t ht
  simp [ht]

theorem const (c x : ℝ) : HasSlope (fun _ => some c) 0 x :=
  ⟨fun _ => c, .of_forall fun _ => rfl, hasDerivAt_const x c⟩

theorem id (x : ℝ) : HasSlope some 1 x := ⟨fun t => t, .of_forall fun _ => rfl, hasDerivAt_id x⟩

theorem neg (h : HasSlope f d x) : HasSlope (fun t => -f t) (-d) x := by
  obtain ⟨φ, hφ, hd⟩ := h
  refine ⟨fun t => -φ t, ?_, hd.neg⟩
  filter_upwards [hφ] with t ht
  rw [ht, neg_some]

theorem add (hf : HasSlope f d x) (hg : HasSlope g d' x) :
    HasSlope (fun t => f t + g t) (d + d') x := by
  obtain ⟨φ, hφ, hd⟩ := hf
  obtain ⟨γ, hγ, hd'⟩ := hg
  refine ⟨fun t => φ t + γ t, ?_, hd.add hd'⟩
  filter_upwards [hφ, hγ] with t ht ht'
  rw [ht, ht', add_some]

theorem sub (hf : HasSlope f d x) (hg : HasSlope g d' x) :
    HasSlope (fun t => f t - g t) (d - d') x := by
  obtain ⟨φ, hφ, hd⟩ := hf
  obtain ⟨γ, hγ, hd'⟩ := hg
  refine ⟨fun t => φ t - γ t, ?_, hd.sub hd'⟩
  filter_upwards [hφ, hγ] with t ht ht'
  rw [ht, ht', sub_some]

theorem mul (hf : HasSlope f d x) (hg : HasSlope g d' x) (hu : f x = some u) (hw : g x = some w) :
    HasSlope (fun t => f t * g t) (d * w + u * d') x := by
  obtain ⟨φ, hφ, hd⟩ := hf
  obtain ⟨γ, hγ, hd'⟩ := hg
  cases hφ.self_of_nhds.symm.trans hu
  cases hγ.self_of_nhds.symm.trans hw
  refine ⟨fun t => φ t * γ t, ?_, hd.mul hd'⟩
  filter_upwards [hφ, hγ] with t ht ht'
  rw [ht, ht', mul_some]

theorem div (hf : HasSlope f d x) (hg : HasSlope g d' x) (hu : f x = some u) (hw : g x = some w)
    (h0 : w ≠ 0) : HasSlope (fun t => f t / g t) ((d * w - u * d') / w ^ 2) x := by
  obtain ⟨φ, hφ, hd⟩ := hf
  obtain ⟨γ, hγ, hd'⟩ := hg
  cases hφ.self_of_nhds.symm.trans hu
  cases hγ.self_of_nhds.symm.trans hw
  refine ⟨fun t => φ t / γ t, ?_, hd.div hd' h0⟩
  filter_upwards [hφ, hγ, hd'.continuousAt.eventually_ne h0] with t ht ht' hn
  rw [ht, ht', div_some hn]

/-- The chain rule, where the outer function is undefined on what has no value. -/
theorem comp {p : Exact → Exact} (hp : HasSlope (fun t => p (some t)) d' u)
    (hf : HasSlope f d x) (hu : f x = some u) : HasSlope (fun t => p (f t)) (d' * d) x := by
  obtain ⟨φ, hφ, hd⟩ := hf
  obtain ⟨π, hπ, hd'⟩ := hp
  cases hφ.self_of_nhds.symm.trans hu
  refine ⟨fun t => π (φ t), ?_, hd'.comp x hd⟩
  filter_upwards [hφ, hd.continuousAt.eventually hπ] with t ht ht'
  rw [ht, ht']

end HasSlope

-- ---------------------------------------------------------------------------
-- Elementary functions
-- ---------------------------------------------------------------------------

theorem hasSlope_pow {p : ℝ} (hd : ∀ᶠ t in 𝓝 x, PowDefined t p) (hp : x ≠ 0 ∨ 1 ≤ p) :
    HasSlope (fun t => pow (some t) (some p)) (p * x ^ (p - 1)) x :=
  ⟨fun t => t ^ p, hd.mono fun _ h => pow_some h, Real.hasDerivAt_rpow_const hp⟩

/-- Around a point where a power has a value, the next power has values. At
zero this asks for values of the power on both sides. -/
theorem eventually_powDefined_succ {p : ℝ} (hp : PowDefined x p)
    (hx : x = 0 → ∀ᶠ t in 𝓝 x, PowDefined t p) : ∀ᶠ t in 𝓝 x, PowDefined t (p + 1) := by
  obtain h | ⟨h, -⟩ | ⟨h, n, rfl⟩ := hp
  · exact (eventually_gt_nhds h).mono fun t ht => .inl ht
  · exact (hx h).mono fun t ht => ht.succ
  · exact (eventually_lt_nhds h).mono fun t ht => PowDefined.succ (.inr (.inr ⟨ht, n, rfl⟩))

theorem hasSlope_pow_succ {p : ℝ} (hp : p + 1 ≠ 0) (hd : pow (some x) (some p) = some d)
    (hx : x = 0 → ∀ᶠ t in 𝓝 x, (pow (some t) (some p)).isSome) :
    HasSlope (fun t => pow (some t) (some (p + 1)) / some (p + 1)) d x := by
  obtain ⟨hpow, rfl⟩ := pow_some_eq_some.mp hd
  have hnear : x = 0 → ∀ᶠ t in 𝓝 x, PowDefined t p := fun h0 => (hx h0).mono fun t ht => by
    obtain ⟨z, hz⟩ := Option.isSome_iff_exists.mp ht
    exact (pow_some_eq_some.mp hz).1
  have hside : x ≠ 0 ∨ 1 ≤ p + 1 := by
    obtain h | ⟨-, h⟩ | ⟨h, -⟩ := hpow
    · exact .inl h.ne'
    · exact .inr (by linarith)
    · exact .inl h.ne
  have hdef := eventually_powDefined_succ hpow hnear
  have hs := (hasSlope_pow hdef hside).div (.const (p + 1) x) (pow_some hdef.self_of_nhds) rfl hp
  convert hs using 1
  rw [add_sub_cancel_right]
  field_simp
  ring

variable [ZeroTests]

theorem hasSlope_exp (u : ℝ) : HasSlope (fun t => Fn.exp.apply (some t)) (Real.exp u) u :=
  ⟨Real.exp, .of_forall fun _ => rfl, Real.hasDerivAt_exp u⟩

theorem hasSlope_sin (u : ℝ) : HasSlope (fun t => Fn.sin.apply (some t)) (Real.cos u) u :=
  ⟨Real.sin, .of_forall fun _ => rfl, Real.hasDerivAt_sin u⟩

theorem hasSlope_cos (u : ℝ) : HasSlope (fun t => Fn.cos.apply (some t)) (-Real.sin u) u :=
  ⟨Real.cos, .of_forall fun _ => rfl, Real.hasDerivAt_cos u⟩

theorem lnAbs_some (hu : u ≠ 0) :
    Fn.ln.apply (Fn.abs.apply (some u : Exact)) = some (Real.log u) := by
  rw [← Real.log_abs u]
  exact if_pos (abs_pos.mpr hu)

theorem lnAbs_zero : Fn.ln.apply (Fn.abs.apply (some 0 : Exact)) = none :=
  if_neg (by simp)

theorem hasSlope_lnAbs (hu : u ≠ 0) :
    HasSlope (fun t => Fn.ln.apply (Fn.abs.apply (some t))) u⁻¹ u :=
  ⟨Real.log, (eventually_ne_nhds hu).mono fun _ h => lnAbs_some h, Real.hasDerivAt_log hu⟩

theorem tan_eq_some : Fn.tan.apply (some u : Exact) = some w ↔ Real.cos u ≠ 0 ∧ Real.tan u = w := by
  by_cases h : Real.cos u = 0
  · have hn : Fn.tan.apply (some u : Exact) = none := if_pos h
    simp [hn, h]
  · have hs : Fn.tan.apply (some u : Exact) = some (Real.tan u) := if_neg h
    simp [hs, h]

end SlopeField.Exact
