import SlopeField.Proofs.Equation.Family
import SlopeField.Proofs.Exact.Factors

/-!
# Values of the parts of a family

At every point where a right-hand side has a value, the parts it is split into
have values there that put it together again: `a * y + b` for a linear one, and
the part in `x` times the fraction of the factors in `y` for a separable one.
-/

namespace SlopeField.Family

open SlopeField.Expr (HasValue real)

theorem prod_filter {β : Type} (p : β → Bool) (f : β → ℝ) (l : List β) :
    (l.map f).prod = ((l.filter p).map f).prod * ((l.filter (!p ·)).map f).prod := by
  simpa using (List.prod_map_filter_mul_prod_map_filter_not (p · = true) f l).symm

theorem sum_filter {β : Type} (p : β → Bool) (f : β → ℝ) (l : List β) :
    (l.map f).sum = ((l.filter p).map f).sum + ((l.filter (!p ·)).map f).sum := by
  simpa using (List.sum_map_filter_add_sum_map_filter_not (p · = true) f l).symm

variable [tests : ZeroTests] [tests.Lawful] {env : String → Exact} {rhs : Expr Exact} {s z : ℝ}

theorem value_fraction {ns ds : List (Expr Exact)} (hn : ∀ f ∈ ns, HasValue env f)
    (hd : ∀ f ∈ ds, HasValue env f) (h0 : ∀ f ∈ ds, real env f ≠ 0) (negative : Bool) :
    (Expr.signed negative (.div (.product ns) (.product ds))).simplify.value env =
      some (sign negative * ((ns.map (real env)).prod / (ds.map (real env)).prod)) := by
  have hne : (ds.map (real env)).prod ≠ 0 := by
    refine List.prod_ne_zero fun h => ?_
    obtain ⟨f, hf, hz⟩ := List.mem_map.mp h
    exact h0 f hf hz
  have hq : (Expr.div (.product ns) (.product ds)).value env =
      some ((ns.map (real env)).prod / (ds.map (real env)).prod) :=
    Exact.div_eq_some.mpr ⟨_, _, Expr.value_product hn, Expr.value_product hd, hne, rfl⟩
  exact Expr.simplify_refines _ _ (Expr.value_signed hq negative)

-- ---------------------------------------------------------------------------
-- Linear equations
-- ---------------------------------------------------------------------------

theorem coefficient?_value {term c : Expr Exact} (h : coefficient? term = some c)
    (hs : env dependent = some s) (hz : term.value env = some z) :
    ∃ k, c.value env = some k ∧ z = k * s := by
  have hf := factored_of hz
  unfold coefficient? at h
  simp only at h
  split at h
  · cases h
  · split at h
    · rename_i name hone
      cases h
      have hname : Expr.real env (.var name) = s := by
        have hmem : Expr.var name ∈ (ProductFactors.of term).numerator.filter
            (·.mentions dependent) := by rw [hone]; simp
        have hn : name = dependent := by simpa [Expr.mentions] using (List.mem_filter.mp hmem).2
        exact Expr.real_eq (by rw [hn]; exact hs)
      refine ⟨_, value_fraction (fun f hm => hf.numerator f (List.mem_filter.mp hm).1)
        hf.denominator hf.nonzero _, ?_⟩
      rw [hf.value, prod_filter (·.mentions dependent) (real env), hone, List.map_singleton,
        List.prod_singleton, hname]
      ring
    · cases h

theorem value_coefficients (hs : env dependent = some s) {ts : List (Bool × Expr Exact)}
    (hc : ∀ t ∈ ts, (coefficient? t.2).isSome) (hv : ∀ t ∈ ts, HasValue env t.2) :
    let coefficients := ts.filterMap fun t => (coefficient? t.2).map (Expr.signed t.1)
    (∀ c ∈ coefficients, HasValue env c) ∧
      (ts.map (termValue env)).sum = (coefficients.map (real env)).sum * s := by
  induction ts with
  | nil => simp
  | cons t ts ih =>
    obtain ⟨hall, hsum⟩ := ih (fun u hu => hc u (by simp [hu])) fun u hu => hv u (by simp [hu])
    obtain ⟨c, hct⟩ := Option.isSome_iff_exists.mp (hc t (by simp))
    obtain ⟨k, hk, hz⟩ := coefficient?_value hct hs (hv t (by simp)).value_eq
    have hsigned := Expr.value_signed hk t.1
    simp only [List.filterMap_cons, hct, Option.map_some, List.mem_cons, List.map_cons,
      List.sum_cons]
    refine ⟨?_, ?_⟩
    · rintro d (rfl | hd)
      · exact Expr.hasValue_of_eq hsigned
      · exact hall d hd
    · rw [hsum, termValue, hz, Expr.real_eq hsigned]
      ring

omit [tests.Lawful] in
theorem value_signed_terms {ts : List (Bool × Expr Exact)} (hv : ∀ t ∈ ts, HasValue env t.2) :
    (∀ e ∈ ts.map fun t => t.2.signed t.1, HasValue env e) ∧
      ((ts.map fun t => t.2.signed t.1).map (real env)).sum = (ts.map (termValue env)).sum := by
  have hsigned (t) (ht : t ∈ ts) := Expr.value_signed (hv t ht).value_eq t.1
  refine ⟨fun e he => ?_, ?_⟩
  · obtain ⟨t, ht, rfl⟩ := List.mem_map.mp he
    exact Expr.hasValue_of_eq (hsigned t ht)
  · rw [List.map_map]
    congr 1
    exact List.map_congr_left fun t ht => Expr.real_eq (hsigned t ht)

/-- A linear right-hand side is `a * y + b` wherever it has a value. -/
theorem collect_value {a b : Expr Exact} (h : collect rhs = .ok (.linear a b))
    (hs : env dependent = some s) (hz : rhs.value env = some z) :
    ∃ p q, a.value env = some p ∧ b.value env = some q ∧ z = p * s + q := by
  obtain ⟨hc, hab⟩ := collect_eq_ok h
  cases hab
  have ht := termed_signedTerms hz
  have hmem {p : Bool × Expr Exact → Bool} (t) (h : t ∈ (signedTerms rhs).filter p) :
      HasValue env t.2 := ht.terms t (List.mem_filter.mp h).1
  obtain ⟨hca, hsa⟩ := value_coefficients hs hc hmem
  obtain ⟨hcb, hsb⟩ := value_signed_terms (hmem (p := fun t => !t.2.mentions dependent))
  refine ⟨_, _, Expr.simplify_refines _ _ (Expr.value_sum hca),
    Expr.simplify_refines _ _ (Expr.value_sum hcb), ?_⟩
  rw [ht.value, sum_filter (fun t => t.2.mentions dependent), hsa, hsb]

-- ---------------------------------------------------------------------------
-- Separable equations
-- ---------------------------------------------------------------------------

/-- A separable right-hand side is its part in `x` times the fraction of its
factors in `y` wherever it has a value. -/
theorem separate_value {xPart yPart yReciprocal : Expr Exact}
    (h : separate rhs = .ok (.separable xPart yPart yReciprocal))
    (hz : rhs.value env = some z) :
    ∃ p, xPart.value env = some p ∧
      z = p * (((withY (ProductFactors.of rhs).numerator).map (real env)).prod /
        ((withY (ProductFactors.of rhs).denominator).map (real env)).prod) := by
  cases separate_eq_ok h
  have hf := factored_of hz
  refine ⟨_, value_fraction (fun f hm => hf.numerator f (List.mem_filter.mp hm).1)
    (fun f hm => hf.denominator f (List.mem_filter.mp hm).1)
    (fun f hm => hf.nonzero f (List.mem_filter.mp hm).1) _, ?_⟩
  rw [hf.value, prod_filter (·.mentions dependent), prod_filter (·.mentions dependent) _
    (ProductFactors.of rhs).denominator, withY, withY]
  ring

end SlopeField.Family
