import SlopeField.Proofs.Exact.Simplify
import SlopeField.Proofs.Exact.Slope
import SlopeField.Proofs.Expr.Integral

/-!
# Antiderivatives differentiate back

`IsAntiderivative.hasSlope`: where the integrand has a value, the slope of an
antiderivative is that value. At zero the integrand must have values around the
point, since a root of the variable has one only on one side of it.
`hasSlope_integrate` is the same for the simplified result.

The antiderivative also has a value at every single point where the integrand
has one (`IsAntiderivative.exists_value`).
-/

open Filter Topology
open Function (update)

namespace SlopeField

open Exact (HasSlope)

namespace Expr

variable [tests : ZeroTests] {env : String → Exact} {v : String} {e l r F : Expr Exact}
  {c d x w : ℝ}

noncomputable def along (e : Expr Exact) (env : String → Exact) (v : String) (t : ℝ) : Exact :=
  e.value (update env v (some t))

theorem along_free (h : e.mentions v = false) (t t' : ℝ) : e.along env v t = e.along env v t' := by
  rw [along, along, value_update h, value_update h]

theorem along_var (t : ℝ) : (var v).along env v t = some t := Function.update_self ..

/-- A tree without the variable that has a value has it everywhere. -/
theorem along_eq_of_free (h : e.mentions v = false) (hx : e.along env v x = some c) :
    e.along env v = fun _ => some c :=
  funext fun t => (along_free h t x).trans hx

theorem along_eq_of_numericValue {p : Exact} (h : e.numericValue = some p) :
    ∃ q, p = some q ∧ e.along env v = fun _ => some q := by
  obtain ⟨-, q, rfl, hq⟩ := numericValue_eq_some h
  exact ⟨q, rfl, funext fun t => hq _⟩

-- ---------------------------------------------------------------------------
-- Affine trees
-- ---------------------------------------------------------------------------

/-- A linear tree with a value at one point has values at all points, on a
line of the given slope. -/
theorem IsLinear.along_eq {form : LinearForm Exact} (h : IsLinear v e form)
    (hx : e.along env v x = some w) :
    ∃ m, form.slope = some m ∧ ∀ t, e.along env v t = some (w + m * (t - x)) := by
  induction h generalizing w with
  | @free e hf =>
    refine ⟨0, by simp [Arithmetic.ofNat], fun t => ?_⟩
    rw [along_free hf t x, hx]
    simp
  | var =>
    cases (along_var x).symm.trans hx
    refine ⟨1, by simp [Arithmetic.ofNat], fun t => ?_⟩
    rw [along_var]
    simp
  | neg _ ih =>
    obtain ⟨u, hu, rfl⟩ := Exact.neg_eq_some.mp hx
    obtain ⟨m, hm, ht⟩ := ih hu
    refine ⟨-m, by simp [LinearForm.neg, hm], fun t => ?_⟩
    refine Exact.neg_eq_some.mpr ⟨_, ht t, by ring⟩
  | add _ _ ihl ihr =>
    obtain ⟨a, b, ha, hb, rfl⟩ := Exact.add_eq_some.mp hx
    obtain ⟨m, hm, hl⟩ := ihl ha
    obtain ⟨n, hn, hr⟩ := ihr hb
    refine ⟨m + n, by simp [LinearForm.add, hm, hn], fun t => ?_⟩
    exact Exact.add_eq_some.mpr ⟨_, _, hl t, hr t, by ring⟩
  | sub _ _ ihl ihr =>
    obtain ⟨a, b, ha, hb, rfl⟩ := Exact.sub_eq_some.mp hx
    obtain ⟨m, hm, hl⟩ := ihl ha
    obtain ⟨n, hn, hr⟩ := ihr hb
    refine ⟨m - n, by simp [LinearForm.sub, hm, hn], fun t => ?_⟩
    exact Exact.sub_eq_some.mpr ⟨_, _, hl t, hr t, by ring⟩
  | scaleLeft hc _ ih =>
    obtain ⟨a, b, ha, hb, rfl⟩ := Exact.mul_eq_some.mp hx
    obtain ⟨q, rfl, hq⟩ := along_eq_of_numericValue hc
    obtain ⟨m, hm, ht⟩ := ih hb
    cases (congrFun hq x).symm.trans ha
    refine ⟨a * m, by simp [LinearForm.scale, hm], fun t => ?_⟩
    exact Exact.mul_eq_some.mpr ⟨_, _, congrFun hq t, ht t, by ring⟩
  | scaleRight hc _ ih =>
    obtain ⟨a, b, ha, hb, rfl⟩ := Exact.mul_eq_some.mp hx
    obtain ⟨q, rfl, hq⟩ := along_eq_of_numericValue hc
    obtain ⟨m, hm, ht⟩ := ih ha
    cases (congrFun hq x).symm.trans hb
    refine ⟨b * m, by simp [LinearForm.scale, hm], fun t => ?_⟩
    exact Exact.mul_eq_some.mpr ⟨_, _, ht t, congrFun hq t, by ring⟩
  | divide hc _ _ ih =>
    obtain ⟨a, b, ha, hb, h0, rfl⟩ := Exact.div_eq_some.mp hx
    obtain ⟨q, rfl, hq⟩ := along_eq_of_numericValue hc
    obtain ⟨m, hm, ht⟩ := ih ha
    cases (congrFun hq x).symm.trans hb
    refine ⟨m / b, by simp [LinearForm.divide, hm, h0], fun t => ?_⟩
    exact Exact.div_eq_some.mpr ⟨_, _, ht t, congrFun hq t, h0, by ring⟩

theorem IsAffine.along_eq [tests.Lawful] {a : Exact} (h : IsAffine v e a)
    (hx : e.along env v x = some w) :
    ∃ m ≠ 0, a = some m ∧ ∀ t, e.along env v t = some (w + m * (t - x)) := by
  obtain ⟨form, hl, rfl, hs⟩ := h
  obtain ⟨m, hm, ht⟩ := hl.along_eq hx
  rw [hm] at hs ⊢
  exact ⟨m, ZeroTests.Lawful.ne_zero hs, rfl, ht⟩

theorem IsAffine.hasSlope [tests.Lawful] {a : Exact} (h : IsAffine v e a)
    (hx : e.along env v x = some w) :
    ∃ m ≠ 0, a = some m ∧ HasSlope (e.along env v) m x := by
  obtain ⟨m, h0, hm, ht⟩ := h.along_eq hx
  refine ⟨m, h0, hm, fun t => w + m * (t - x), .of_forall ht, ?_⟩
  simpa using (((hasDerivAt_id x).sub_const x).const_mul m).const_add w

-- ---------------------------------------------------------------------------
-- Antiderivatives
-- ---------------------------------------------------------------------------

section
variable [tests.Lawful]

omit [tests.Lawful] in
theorem hasSlope_var (x : ℝ) : HasSlope ((var v).along env v) 1 x := by
  refine HasSlope.of_eventually_eq (.id x) (.of_forall fun t => ?_)
  exact (along_var t).symm

omit [tests.Lawful] in
theorem hasSlope_lnAbs {m : ℝ} (hs : HasSlope (e.along env v) m x)
    (hw : e.along env v x = some w) (h0 : w ≠ 0) :
    HasSlope (e.lnAbs.along env v) (w⁻¹ * m) x :=
  (Exact.hasSlope_lnAbs h0).comp (p := fun a => Fn.ln.apply (Fn.abs.apply a)) hs hw

omit [tests.Lawful] in
theorem hasSlope_lnAbs_var (hx : x ≠ 0) : HasSlope ((lnAbs (var v)).along env v) x⁻¹ x :=
  mul_one x⁻¹ ▸ hasSlope_lnAbs (hasSlope_var x) (along_var x) hx

omit [tests.Lawful] in
theorem pow_along {q : ℝ} (hq : e.along env v = fun _ => some q)
    (hd : (pow (var v) e).along env v x = some d) : Exact.pow (some x) (some q) = some d := by
  have h : Exact.pow ((var v).along env v x) (e.along env v x) = some d := hd
  rwa [along_var, hq] at h

omit [tests.Lawful] in
theorem hasSlope_pow_var {p : ℝ} (hp : p + 1 ≠ 0) (hd : Exact.pow (some x) (some p) = some d)
    (hx : x = 0 → ∀ᶠ t in 𝓝 x, (Exact.pow (some t) (some p)).isSome) :
    HasSlope ((div (pow (var v) (const (some (p + 1)))) (const (some (p + 1)))).along env v)
      d x := by
  refine (Exact.hasSlope_pow_succ hp hd hx).of_eventually_eq (.of_forall fun t => ?_)
  show _ = Exact.pow ((var v).along env v t) (some (p + 1)) / some (p + 1)
  rw [along_var]

omit [tests.Lawful] in
theorem hasSlope_mul_free (hf : l.mentions v = false) (hl : l.along env v x = some c)
    (hF : HasSlope (F.along env v) d x) : HasSlope ((mul l F).along env v) (c * d) x := by
  obtain ⟨y, hy⟩ := hF.exists_value
  have hc : HasSlope (l.along env v) 0 x := along_eq_of_free hf hl ▸ .const c x
  have h := hc.mul hF hl hy
  rw [zero_mul, zero_add] at h
  exact h

omit [tests.Lawful] in
theorem hasSlope_div_free (hf : r.mentions v = false) (hr : r.along env v x = some c)
    (h0 : c ≠ 0) (hF : HasSlope (F.along env v) d x) :
    HasSlope ((div F r).along env v) (d / c) x := by
  obtain ⟨y, hy⟩ := hF.exists_value
  have hc : HasSlope (r.along env v) 0 x := along_eq_of_free hf hr ▸ .const c x
  have h := hF.div hc hy hr h0
  have hq : (d * c - y * 0) / c ^ 2 = d / c := by
    field_simp
    ring
  rw [hq] at h
  exact h

/-- A function of an affine tree, divided by the slope of the tree. -/
theorem hasSlope_div_slope {a : Exact} {p : Exact → Exact} {q : ℝ} (h : IsAffine v e a)
    (hx : e.along env v x = some w) (hp : HasSlope (fun t => p (some t)) q w) :
    HasSlope (fun t => p (e.along env v t) / a) q x := by
  obtain ⟨m, h0, rfl, hs⟩ := h.hasSlope hx
  obtain ⟨y, hy⟩ := (hp.comp hs hx).exists_value
  convert (hp.comp hs hx).div (.const m x) hy rfl h0 using 1
  field_simp
  ring

-- Each rule with a tree at its leaf that has the variable.

omit [tests.Lawful] in
theorem hasSlope_half_square (hd : (var v).along env v x = some d) :
    HasSlope ((div (pow (var v) (const (Arithmetic.ofNat 2)))
      (const (Arithmetic.ofNat 2))).along env v) d x := by
  cases (along_var x).symm.trans hd
  have hone (t : ℝ) : Exact.pow (some t) (some 1) = some t := by
    rw [Exact.pow_some (Exact.powDefined_one t), Real.rpow_one]
  have htwo : (Arithmetic.ofNat 2 : Exact) = some (1 + 1) := by norm_num [Arithmetic.ofNat]
  rw [htwo]
  exact hasSlope_pow_var (by norm_num) (hone _) fun _ => .of_forall fun t => by rw [hone]; rfl

omit [tests.Lawful] in
theorem hasSlope_log_quotient (hl : l.mentions v = false)
    (hd : (div l (var v)).along env v x = some d) :
    HasSlope ((mul l (lnAbs (var v))).along env v) d x := by
  obtain ⟨a, b, ha, hb, h0, rfl⟩ := Exact.div_eq_some.mp hd
  cases (along_var x).symm.trans hb
  exact hasSlope_mul_free hl ha (hasSlope_lnAbs_var h0)

theorem hasSlope_log_affine {a : Exact} (hl : l.mentions v = false) (hr : IsAffine v r a)
    (hd : (div l r).along env v x = some d) :
    HasSlope ((mul (div l (const a)) r.lnAbs).along env v) d x := by
  obtain ⟨c, w, hc, hw, h0, rfl⟩ := Exact.div_eq_some.mp hd
  obtain ⟨m, hm, rfl, hs⟩ := hr.hasSlope hw
  have hq : (div l (const (some m))).along env v x = some (c / m) :=
    Exact.div_eq_some.mpr ⟨c, m, hc, rfl, hm, rfl⟩
  have hf : (div l (const (some m))).mentions v = false := by simpa [mentions] using hl
  have h := hasSlope_mul_free hf hq (hasSlope_lnAbs hs hw h0)
  have hval : c / m * (w⁻¹ * m) = c / w := by field_simp
  rw [hval] at h
  exact h

theorem hasSlope_log_power {p : Exact} (hp : e.numericValue = some p)
    (h0 : Scalar.negligible (p + Arithmetic.ofNat 1) = true)
    (hd : (pow (var v) e).along env v x = some d) :
    HasSlope ((lnAbs (var v)).along env v) d x := by
  obtain ⟨q, rfl, hq⟩ := along_eq_of_numericValue hp
  have hq1 : q + (1 : ℕ) = 0 := ZeroTests.Lawful.eq_zero h0
  obtain rfl : q = -1 := by push_cast at hq1; linarith
  obtain ⟨hdef, rfl⟩ := Exact.pow_some_eq_some.mp (pow_along hq hd)
  have hne : x ≠ 0 := by
    rintro rfl
    obtain h | ⟨-, h⟩ | ⟨h, -⟩ := hdef
    · exact lt_irrefl _ h
    · linarith
    · exact lt_irrefl _ h
  rw [Real.rpow_neg_one]
  exact hasSlope_lnAbs_var hne

omit [tests.Lawful] in
theorem along_eq_of_power {p : Exact} (hp : e.numericValue = some p)
    (h0 : Scalar.negligible (p + Arithmetic.ofNat 1) = false) :
    ∃ q : ℝ, q + 1 ≠ 0 ∧ (e.along env v = fun _ => some q) ∧
      p + Arithmetic.ofNat 1 = some (q + 1) := by
  obtain ⟨q, rfl, hq⟩ := along_eq_of_numericValue hp
  refine ⟨q, fun h => ?_, hq, by simp [Arithmetic.ofNat]⟩
  have hz : tests.negligible (q + (1 : ℕ)) = false := h0
  rw [Nat.cast_one, h, tests.negligible_zero] at hz
  cases hz

theorem hasSlope_exp_affine {a : Exact} (ha : IsAffine v e a)
    (hd : (func .exp e).along env v x = some d) :
    HasSlope ((div (func .exp e) (const a)).along env v) d x := by
  obtain ⟨u, hu, rfl⟩ := Option.map_eq_some_iff.mp hd
  exact hasSlope_div_slope ha hu (Exact.hasSlope_exp u)

theorem hasSlope_sin_affine {a : Exact} (ha : IsAffine v e a)
    (hd : (func .sin e).along env v x = some d) :
    HasSlope ((div (neg (func .cos e)) (const a)).along env v) d x := by
  obtain ⟨u, hu, rfl⟩ := Option.map_eq_some_iff.mp hd
  refine hasSlope_div_slope (p := fun a => -Fn.cos.apply a) ha hu ?_
  simpa using (Exact.hasSlope_cos u).neg

theorem hasSlope_cos_affine {a : Exact} (ha : IsAffine v e a)
    (hd : (func .cos e).along env v x = some d) :
    HasSlope ((div (func .sin e) (const a)).along env v) d x := by
  obtain ⟨u, hu, rfl⟩ := Option.map_eq_some_iff.mp hd
  exact hasSlope_div_slope ha hu (Exact.hasSlope_sin u)

theorem hasSlope_tan_affine {a : Exact} (ha : IsAffine v e a)
    (hd : (func .tan e).along env v x = some d) :
    HasSlope ((div (neg (lnAbs (func .cos e))) (const a)).along env v) d x := by
  obtain ⟨u, hu, hd⟩ := Option.bind_eq_some_iff.mp hd
  obtain ⟨hc, rfl⟩ := Exact.tan_eq_some.mp hd
  refine hasSlope_div_slope (p := fun a => -Fn.ln.apply (Fn.abs.apply (Fn.cos.apply a))) ha hu ?_
  have hln := (Exact.hasSlope_lnAbs hc).comp (p := fun a => Fn.ln.apply (Fn.abs.apply a))
    (Exact.hasSlope_cos u) rfl
  have hval : -((Real.cos u)⁻¹ * -Real.sin u) = Real.tan u := by
    rw [Real.tan_eq_sin_div_cos]
    ring
  rw [← hval]
  exact hln.neg

theorem IsAntiderivative.exists_value (h : IsAntiderivative v e F)
    (hd : e.along env v x = some d) : ∃ y, F.along env v x = some y := by
  induction h generalizing d with
  | free => exact ⟨_, Exact.mul_eq_some.mpr ⟨_, _, hd, along_var x, rfl⟩⟩
  | neg _ ih =>
    obtain ⟨u, hu, rfl⟩ := Exact.neg_eq_some.mp hd
    obtain ⟨y, hy⟩ := ih hu
    exact ⟨-y, Exact.neg_eq_some.mpr ⟨y, hy, rfl⟩⟩
  | add _ _ ihl ihr =>
    obtain ⟨a, b, ha, hb, rfl⟩ := Exact.add_eq_some.mp hd
    obtain ⟨y, hy⟩ := ihl ha
    obtain ⟨z, hz⟩ := ihr hb
    exact ⟨y + z, Exact.add_eq_some.mpr ⟨y, z, hy, hz, rfl⟩⟩
  | sub _ _ ihl ihr =>
    obtain ⟨a, b, ha, hb, rfl⟩ := Exact.sub_eq_some.mp hd
    obtain ⟨y, hy⟩ := ihl ha
    obtain ⟨z, hz⟩ := ihr hb
    exact ⟨y - z, Exact.sub_eq_some.mpr ⟨y, z, hy, hz, rfl⟩⟩
  | scaleLeft _ _ ih =>
    obtain ⟨a, b, ha, hb, rfl⟩ := Exact.mul_eq_some.mp hd
    obtain ⟨y, hy⟩ := ih hb
    exact ⟨a * y, Exact.mul_eq_some.mpr ⟨a, y, ha, hy, rfl⟩⟩
  | scaleRight _ _ ih =>
    obtain ⟨a, b, ha, hb, rfl⟩ := Exact.mul_eq_some.mp hd
    obtain ⟨y, hy⟩ := ih ha
    exact ⟨b * y, Exact.mul_eq_some.mpr ⟨b, y, hb, hy, rfl⟩⟩
  | divide _ _ ih =>
    obtain ⟨a, b, ha, hb, h0, rfl⟩ := Exact.div_eq_some.mp hd
    obtain ⟨y, hy⟩ := ih ha
    exact ⟨y / b, Exact.div_eq_some.mpr ⟨y, b, hy, hb, h0, rfl⟩⟩
  | power hp h0 =>
    obtain ⟨q, hq1, hq, hone⟩ := along_eq_of_power hp h0
    rw [hone]
    obtain ⟨hdef, -⟩ := Exact.pow_some_eq_some.mp (pow_along hq hd)
    have hpow : (pow (.var v) (const (some (q + 1)))).along env v x = some (x ^ (q + 1)) := by
      show Exact.pow ((Expr.var v).along env v x) (some (q + 1)) = _
      rw [along_var, Exact.pow_some hdef.succ]
    exact ⟨_, Exact.div_eq_some.mpr ⟨_, _, hpow, rfl, hq1, rfl⟩⟩
  | var => exact (hasSlope_half_square hd).exists_value
  | log hl => exact (hasSlope_log_quotient hl hd).exists_value
  | logAffine hl hr => exact (hasSlope_log_affine hl hr hd).exists_value
  | logPower hp h0 => exact (hasSlope_log_power hp h0 hd).exists_value
  | exp ha => exact (hasSlope_exp_affine ha hd).exists_value
  | sin ha => exact (hasSlope_sin_affine ha hd).exists_value
  | cos ha => exact (hasSlope_cos_affine ha hd).exists_value
  | tan ha => exact (hasSlope_tan_affine ha hd).exists_value

/-- Where the integrand has a value, around the point if that is zero, the
slope of the antiderivative is this value. -/
theorem IsAntiderivative.hasSlope (h : IsAntiderivative v e F) (hd : e.along env v x = some d)
    (hx : x = 0 → ∀ᶠ t in 𝓝 x, (e.along env v t).isSome) :
    HasSlope (F.along env v) d x := by
  induction h generalizing d with
  | free hf =>
    have hm := hasSlope_mul_free hf hd (hasSlope_var x)
    rwa [mul_one] at hm
  | neg _ ih =>
    obtain ⟨u, hu, rfl⟩ := Exact.neg_eq_some.mp hd
    exact (ih hu fun h0 => (hx h0).mono fun _ => Exact.isSome_of_neg).neg
  | add _ _ ihl ihr =>
    obtain ⟨a, b, ha, hb, rfl⟩ := Exact.add_eq_some.mp hd
    exact (ihl ha fun h0 => (hx h0).mono fun _ ht => (Exact.isSome_of_map₂ ht).1).add
      (ihr hb fun h0 => (hx h0).mono fun _ ht => (Exact.isSome_of_map₂ ht).2)
  | sub _ _ ihl ihr =>
    obtain ⟨a, b, ha, hb, rfl⟩ := Exact.sub_eq_some.mp hd
    exact (ihl ha fun h0 => (hx h0).mono fun _ ht => (Exact.isSome_of_map₂ ht).1).sub
      (ihr hb fun h0 => (hx h0).mono fun _ ht => (Exact.isSome_of_map₂ ht).2)
  | scaleLeft hl _ ih =>
    obtain ⟨a, b, ha, hb, rfl⟩ := Exact.mul_eq_some.mp hd
    exact hasSlope_mul_free hl ha
      (ih hb fun h0 => (hx h0).mono fun _ ht => (Exact.isSome_of_map₂ ht).2)
  | scaleRight hr _ ih =>
    obtain ⟨a, b, ha, hb, rfl⟩ := Exact.mul_eq_some.mp hd
    rw [mul_comm]
    exact hasSlope_mul_free hr hb
      (ih ha fun h0 => (hx h0).mono fun _ ht => (Exact.isSome_of_map₂ ht).1)
  | divide hr _ ih =>
    obtain ⟨a, b, ha, hb, h0, rfl⟩ := Exact.div_eq_some.mp hd
    exact hasSlope_div_free hr hb h0
      (ih ha fun h0 => (hx h0).mono fun _ ht => (Exact.isSome_of_div ht).1)
  | power hp h0 =>
    obtain ⟨q, hq1, hq, hone⟩ := along_eq_of_power hp h0
    rw [hone]
    refine hasSlope_pow_var hq1 (pow_along hq hd) fun h => (hx h).mono fun t ht => ?_
    obtain ⟨z, hz⟩ := Option.isSome_iff_exists.mp ht
    exact Option.isSome_iff_exists.mpr ⟨z, pow_along hq hz⟩
  | var => exact hasSlope_half_square hd
  | log hl => exact hasSlope_log_quotient hl hd
  | logAffine hl hr => exact hasSlope_log_affine hl hr hd
  | logPower hp h0 => exact hasSlope_log_power hp h0 hd
  | exp ha => exact hasSlope_exp_affine ha hd
  | sin ha => exact hasSlope_sin_affine ha hd
  | cos ha => exact hasSlope_cos_affine ha hd
  | tan ha => exact hasSlope_tan_affine ha hd

theorem hasSlope_integrate (h : e.integrate v = .ok F) (hd : e.along env v x = some d)
    (hx : x = 0 → ∀ᶠ t in 𝓝 x, (e.along env v t).isSome) :
    HasSlope (F.along env v) d x := by
  obtain ⟨G, hG, rfl⟩ := isAntiderivative_of_integrate h
  exact (hG.hasSlope hd hx).mono fun t => simplify_refines G

theorem integrate_exists_value (h : e.integrate v = .ok F) (hd : e.along env v x = some d) :
    ∃ y, F.along env v x = some y := by
  obtain ⟨G, hG, rfl⟩ := isAntiderivative_of_integrate h
  obtain ⟨y, hy⟩ := hG.exists_value hd
  exact ⟨y, simplify_refines G y hy⟩

end

end Expr

end SlopeField
