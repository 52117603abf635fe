import SlopeField.Proofs.Equation.Leaves
import SlopeField.Proofs.Exact.Defined

/-!
# Families are faithful to their equations

Where all parts of a right-hand side have values, the trees of its family put
its value together again: the part in `x` times the part in `y`, or `a * y + b`
(`classify_faithful`). The reciprocal of the part in `y` is its inverse wherever
that part is not zero. There the factors above the fraction line may change
sides, and a power may stay above it with its exponent negated.
-/

noncomputable section

namespace SlopeField

namespace Exact

variable {a : Exact} {x p k : ℝ}

theorem PowDefined.neg (h : PowDefined x p) (h0 : x ^ p ≠ 0) :
    PowDefined x (-p) ∧ x ^ (-p) = (x ^ p)⁻¹ := by
  obtain h | ⟨rfl, -⟩ | ⟨h, n, rfl⟩ := h
  · exact ⟨.inl h, Real.rpow_neg h.le p⟩
  · -- The zeroth power of zero is the only one that is not zero.
    obtain rfl : p = 0 := by
      by_contra hp
      exact h0 (Real.zero_rpow hp)
    simpa using powDefined_zero 0
  · refine ⟨.inr (.inr ⟨h, -n, by push_cast; rfl⟩), ?_⟩
    rw [← Int.cast_neg, Real.rpow_intCast, Real.rpow_intCast, zpow_neg]

theorem pow_neg (h : pow a (some p) = some k) (hk : k ≠ 0) : pow a (some (-p)) = some k⁻¹ := by
  by_cases hp : p = 0
  · subst hp
    cases pow_zero.symm.trans h
    rw [neg_zero, pow_zero, inv_one]
  · obtain ⟨x, rfl⟩ := base_of_pow hp h
    obtain ⟨hdef, rfl⟩ := pow_some_eq_some.mp h
    exact pow_some_eq_some.mpr (hdef.neg hk)

end Exact

namespace Expr

variable [ZeroTests] {e : Expr Exact} {x x' y y' : Exact}

/-- Moving the point along a variable that does not occur changes nothing. -/
theorem eval_of_free {v : String} {a : Exact} (h : e.mentions v = false)
    (hmove : Function.update (lookup · x y) v a = (lookup · x' y')) :
    e.eval x y = e.eval x' y' := by
  rw [eval_eq_value, eval_eq_value, ← hmove, value_update h]

end Expr

namespace Family

open SlopeField.Expr (HasValue real)

variable [tests : ZeroTests] {env : String → Exact} {rhs : Expr Exact} {z : ℝ}

-- ---------------------------------------------------------------------------
-- The reciprocal
-- ---------------------------------------------------------------------------

theorem reciprocalPower?_value {f g : Expr Exact} (h : reciprocalPower? f = some g)
    (hz : f.value env = some z) (h0 : z ≠ 0) : g.value env = some z⁻¹ := by
  unfold reciprocalPower? at h
  split at h
  · obtain ⟨p, hp, rfl⟩ := Option.map_eq_some_iff.mp h
    obtain ⟨-, q, rfl, -⟩ := Expr.numericValue_eq_some hp
    exact Exact.pow_neg (value_power hp hz) h0
  · cases h

/-- The powers with their exponents negated, over the other factors, are the
inverse of the product of all factors. -/
theorem prod_reciprocalPowers {fs : List (Expr Exact)} (hv : ∀ f ∈ fs, HasValue env f)
    (h0 : ∀ f ∈ fs, real env f ≠ 0) :
    (∀ g ∈ fs.filterMap reciprocalPower?, HasValue env g) ∧
      ((fs.filterMap reciprocalPower?).map (real env)).prod /
          ((fs.filter fun f => (reciprocalPower? f).isNone).map (real env)).prod =
        ((fs.map (real env)).prod)⁻¹ := by
  induction fs with
  | nil => simp
  | cons f fs ih =>
    obtain ⟨hall, hprod⟩ := ih (fun g hg => hv g (by simp [hg])) fun g hg => h0 g (by simp [hg])
    rw [List.map_cons, List.prod_cons, mul_inv, ← hprod]
    cases hr : reciprocalPower? f with
    | none =>
      rw [List.filterMap_cons_none hr, List.filter_cons_of_pos (by simp [hr]), List.map_cons,
        List.prod_cons]
      exact ⟨hall, by ring⟩
    | some g =>
      have hg := reciprocalPower?_value hr (hv f (by simp)).value_eq (h0 f (by simp))
      rw [List.filterMap_cons_some hr, List.filter_cons_of_neg (by simp [hr]), List.map_cons,
        List.prod_cons, Expr.real_eq hg]
      exact ⟨List.forall_mem_cons.mpr ⟨Expr.hasValue_of_eq hg, hall⟩, by ring⟩

variable [tests.Lawful]

theorem value_reciprocal {num den : List (Expr Exact)} (hnum : ∀ f ∈ num, HasValue env f)
    (hden : ∀ f ∈ den, HasValue env f) (h0 : ∀ f ∈ num, real env f ≠ 0) :
    (reciprocal num den).value env =
      some ((num.map (real env)).prod / (den.map (real env)).prod)⁻¹ := by
  obtain ⟨hpowers, hprod⟩ := prod_reciprocalPowers hnum h0
  have hothers {f} (hf : f ∈ num.filter fun f => (reciprocalPower? f).isNone) : f ∈ num :=
    (List.mem_filter.mp hf).1
  have hfraction := value_fraction (List.forall_mem_append.mpr ⟨hden, hpowers⟩)
    (fun f hf => hnum f (hothers hf)) (fun f hf => h0 f (hothers hf)) false
  refine hfraction.trans (congrArg some ?_)
  rw [List.map_append, List.prod_append, mul_div_assoc, hprod, sign, if_neg Bool.false_ne_true,
    one_mul, inv_div, div_eq_mul_inv]

/-- The two parts multiply to the right-hand side, and the reciprocal is the
inverse of the part in `y`. -/
theorem separate_values {xPart yPart yReciprocal : Expr Exact}
    (h : separate rhs = .ok (.separable xPart yPart yReciprocal)) (hz : rhs.value env = some z) :
    ∃ p q, xPart.value env = some p ∧ yPart.value env = some q ∧ z = p * q ∧
      (q ≠ 0 → yReciprocal.value env = some q⁻¹) := by
  obtain ⟨p, hp, hval⟩ := separate_value h hz
  have hf := factored_of hz
  have hnum (f) (hm : f ∈ withY (ProductFactors.of rhs).numerator) :=
    hf.numerator f (List.mem_filter.mp hm).1
  have hden (f) (hm : f ∈ withY (ProductFactors.of rhs).denominator) :=
    hf.denominator f (List.mem_filter.mp hm).1
  have hnonzero (f) (hm : f ∈ withY (ProductFactors.of rhs).denominator) :=
    hf.nonzero f (List.mem_filter.mp hm).1
  cases separate_eq_ok h
  refine ⟨p, _, hp, ?_, hval, fun h0 => value_reciprocal hnum hden fun f hm hzero => ?_⟩
  · have hy := value_fraction hnum hden hnonzero false
    rwa [sign, if_neg Bool.false_ne_true, one_mul] at hy
  · have hprod := List.prod_eq_zero (List.mem_map.mpr ⟨f, hm, hzero⟩)
    exact h0 (by rw [hprod, zero_div])

omit [tests.Lawful]

-- ---------------------------------------------------------------------------
-- Families
-- ---------------------------------------------------------------------------

/-- The trees of the family, each at the coordinate it depends on, put the
right-hand side together at the point `(x, y)`. -/
def Faithful (rhs : Expr Exact) (x y : ℝ) : Family Exact → Prop
  | .direct f => f.eval (some x) none = rhs.eval (some x) (some y)
  | .separable xPart yPart yReciprocal =>
    ∃ p q : ℝ, xPart.eval (some x) none = some p ∧ yPart.eval none (some y) = some q ∧
      rhs.eval (some x) (some y) = some (p * q) ∧
      (q ≠ 0 → ∃ r, yReciprocal.eval none (some y) = some r ∧ r * q = 1)
  | .linear a b =>
    ∃ p q : ℝ, a.eval (some x) none = some p ∧ b.eval (some x) none = some q ∧
      rhs.eval (some x) (some y) = some (p * y + q)
  | .unsupported => True

theorem faithful_of_classify [tests.Lawful] {x y : ℝ} (hz : rhs.eval (some x) (some y) = some z) :
    (classify rhs).Faithful rhs x y := by
  have hvalue := hz
  rw [Expr.eval_eq_value] at hvalue
  generalize hf : classify rhs = family
  cases family with
  | direct f =>
    obtain ⟨hy, rfl⟩ := classify_eq_direct hf
    exact Expr.eval_of_free hy (Expr.update_lookup_dependent ..)
  | separable xPart yPart yReciprocal =>
    have hs := classify_eq_separable hf
    obtain ⟨hx, -, hy, hr⟩ := separated_of_separate hs
    obtain ⟨p, q, hp, hq, rfl, hinv⟩ := separate_values hs hvalue
    simp only [← Expr.eval_eq_value] at hp hq hinv
    refine ⟨p, q, ?_, ?_, hz, fun h0 => ⟨q⁻¹, ?_, inv_mul_cancel₀ h0⟩⟩
    · exact (Expr.eval_of_free hx (Expr.update_lookup_dependent ..)).trans hp
    · exact (Expr.eval_of_free hy (Expr.update_lookup_independent ..)).trans hq
    · exact (Expr.eval_of_free hr (Expr.update_lookup_independent ..)).trans (hinv h0)
  | linear a b =>
    have hc := classify_eq_linear hf
    obtain ⟨ha, hb⟩ := collect_free hc
    obtain ⟨p, q, hp, hq, rfl⟩ := collect_value (s := y) hc rfl hvalue
    simp only [← Expr.eval_eq_value] at hp hq
    refine ⟨p, q, ?_, ?_, hz⟩
    · exact (Expr.eval_of_free ha (Expr.update_lookup_dependent ..)).trans hp
    · exact (Expr.eval_of_free hb (Expr.update_lookup_dependent ..)).trans hq
  | unsupported => trivial

omit tests in
theorem faithful_tests (tests tests' : ZeroTests) (family : Family Exact) (x y : ℝ) :
    @Faithful tests rhs x y family ↔ @Faithful tests' rhs x y family := by
  cases family <;> simp only [Faithful, eval_tests tests tests']

def ClassifiesExactly (rhs : Expr Exact) : Prop :=
  classify rhs = @classify Exact (@Exact.scalar tests.exact) rhs

/-- At every point where all parts of a right-hand side have values, the trees of
its family put it together. -/
theorem classify_faithful {x y : ℝ} (hexact : ClassifiesExactly rhs)
    (hdef : rhs.DefinedAt (Expr.lookup · (some x) (some y))) :
    (classify rhs).Faithful rhs x y := by
  obtain ⟨z, hz⟩ := Option.isSome_iff_exists.mp hdef.isSome
  rw [← Expr.eval_eq_value, eval_tests tests tests.exact] at hz
  rw [hexact, faithful_tests tests tests.exact]
  let _ := tests.exact
  exact faithful_of_classify hz

end Family

/-- A square with a minus sign, left of zero, where the reciprocal is a power with
a negative base. -/
theorem signed_square_faithful :
    letI := ZeroTests.within 1e-9 (by norm_num)
    letI square : Expr Exact := .pow (.var "y") (.const (some 2))
    letI inverse : Expr Exact := .pow (.var "y") (.const (some (-2)))
    letI rhs : Expr Exact := .neg (.mul (.var "x") square)
    Family.ClassifiesExactly rhs ∧
      Family.classify rhs = .separable (.neg (.var "x")) square inverse ∧
      rhs.DefinedAt (Expr.lookup · (some 3) (some (-2))) ∧
      rhs.eval (some 3) (some (-2)) = some (-3 * 4) ∧
      inverse.eval none (some (-2)) = some (1 / 4) := by
  let tests := ZeroTests.within 1e-9 (by norm_num)
  let square : Expr Exact := .pow (.var "y") (.const (some 2))
  let inverse : Expr Exact := .pow (.var "y") (.const (some (-2)))
  let rhs : Expr Exact := .neg (.mul (.var "x") square)
  have hrun (tests : ZeroTests) (hn : ∀ v : ℝ, 1 ≤ |v| → tests.negligible v = false) :
      Family.classify rhs = .separable (.neg (.var "x")) square inverse := by
    have hdiv (e : Expr Exact) (h : ∀ c, e ≠ .const c) : Expr.simplifyDiv e .one = e := by
      rw [Expr.simplifyDiv_of_not_const fun a _ ha => (h a ha).elim, if_pos Expr.isOne_one]
    have hx : (Expr.signed true (.div (.product [.var "x"]) (.product []))).simplify =
        (.neg (.var "x") : Expr Exact) := by
      simp [Expr.signed, Expr.product, Expr.simplify, Expr.simplifyBin, hdiv, Expr.simplifyNeg]
    have hpow (p : ℝ) (h0 : tests.negligible p = false) (h1 : tests.negligible (p - 1) = false) :
        (Expr.pow (.var "y") (.const (some p))).simplify = .pow (.var "y") (.const (some p)) := by
      simp [Expr.simplify, Expr.simplifyBin, Expr.simplifyPow, Expr.isZero, Expr.isOne,
        Scalar.negligible, Arithmetic.ofNat, h0, h1]
    have hy : (Expr.div (.product [square]) (.product [])).simplify = square := by
      show Expr.simplifyDiv square.simplify .one = square
      rw [hpow 2 (hn 2 (by norm_num)) (hn (2 - 1) (by norm_num))]
      exact hdiv _ (by rintro c ⟨⟩)
    have hr : Family.reciprocal [square] [] = inverse := by
      show Expr.simplifyDiv inverse.simplify .one = inverse
      rw [hpow (-2) (hn (-2) (by norm_num)) (hn (-2 - 1) (by norm_num))]
      exact hdiv _ (by rintro c ⟨⟩)
    have hof : ProductFactors.of rhs = ⟨true, [.var "x", square], []⟩ := rfl
    have hmixed : List.find? Expr.mentionsBoth [.var "x", square] = none := rfl
    have hwith : List.filter (Expr.mentions dependent) [.var "x", square] = [square] := rfl
    have hwithout : List.filter (fun e => !e.mentions dependent) [.var "x", square] =
        [.var "x"] := rfl
    have hseparate : Family.separate rhs = .ok (.separable (.neg (.var "x")) square inverse) := by
      simp only [Family.separate, hof, List.append_nil, hmixed, hwith, hwithout, List.filter_nil,
        hx, hy, hr]
      rfl
    rw [Family.classify, hseparate]
    rfl
  have hn (v : ℝ) (hv : 1 ≤ |v|) : tests.negligible v = false := by
    show decide (|v| < 1e-9) = false
    rw [decide_eq_false_iff_not, not_lt]
    exact le_trans (by norm_num) hv
  have hexact : Family.ClassifiesExactly rhs :=
    (hrun tests hn).trans
      (hrun tests.exact fun v hv => ZeroTests.exact_negligible (hn v hv)).symm
  have hfour : Exact.pow (some (-2)) (some 2) = some 4 := by
    rw [Exact.pow_some (.inr (.inr ⟨by norm_num, 2, by norm_num⟩))]
    norm_num
  have hdef : rhs.DefinedAt (Expr.lookup · (some 3) (some (-2))) := by
    simp [rhs, square, Expr.DefinedAt, Expr.parts, Expr.value, BinOp.apply, Expr.lookup,
      independent, dependent, Scalar.pow, hfour]
  have hfaithful := Family.classify_faithful hexact hdef
  rw [hrun tests hn] at hfaithful
  obtain ⟨p, q, hp, hq, hz, hinverse⟩ := hfaithful
  have hp' : (Expr.neg (.var "x") : Expr Exact).eval (some 3) none = some (-3) := rfl
  have hq' : square.eval none (some (-2)) = some 4 := by
    rw [Expr.eval_eq_value]
    exact hfour
  cases hp'.symm.trans hp
  cases hq'.symm.trans hq
  obtain ⟨r, hr, hmul⟩ := hinverse (by norm_num)
  obtain rfl : r = 1 / 4 := by linarith
  exact ⟨hexact, hrun tests hn, hdef, hz, hr⟩

end SlopeField

end
