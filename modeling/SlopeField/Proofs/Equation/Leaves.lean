import SlopeField.Proofs.Equation.ClosedForm
import SlopeField.Proofs.Token.Leaves

/-!
# The leaves of families

Sorting a right-hand side into a family brings in no variable, and of constants
only the exponents of reciprocal powers (`leavesIn_of_classify`). The parts have
the variables apart: each is free of the one that it is not integrated over
(`classify_separated`).
-/

namespace SlopeField

open SlopeField.Expr (Stable LeavesIn)

variable {α : Type} {V : String → Prop} {K : α → Prop} {e rhs : Expr α}

namespace Family

def parts : Family α → List (Expr α)
  | .direct f => [f]
  | .separable xPart yPart yReciprocal => [xPart, yPart, yReciprocal]
  | .linear a b => [a, b]
  | .unsupported => []

def xParts : Family α → List (Expr α)
  | .direct f => [f]
  | .separable xPart _ _ => [xPart]
  | .linear a b => [a, b]
  | .unsupported => []

theorem mem_parts_of_mem_xParts {family : Family α} (h : e ∈ family.xParts) :
    e ∈ family.parts := by
  cases family with
  | separable => exact List.mem_cons.mpr (.inl (List.mem_singleton.mp h))
  | _ => exact h

variable [Scalar α]

theorem mentions_of_mem_xParts (h : e ∈ (classify rhs).xParts) :
    e.mentions dependent = false := by
  generalize hf : classify rhs = family at h
  cases family with
  | direct f =>
    obtain ⟨hy, rfl⟩ := classify_eq_direct hf
    exact List.mem_singleton.mp h ▸ hy
  | separable => exact List.mem_singleton.mp h ▸ separate_free (classify_eq_separable hf)
  | linear a b =>
    obtain ⟨ha, hb⟩ := collect_free (classify_eq_linear hf)
    simp only [xParts, List.mem_cons, List.not_mem_nil, or_false] at h
    rcases h with rfl | rfl
    · exact ha
    · exact hb
  | unsupported => cases h

theorem leavesIn_fraction (hK : Stable K) {num den : List (Expr α)}
    (hnum : ∀ f ∈ num, f.LeavesIn V K) (hden : ∀ f ∈ den, f.LeavesIn V K) :
    (Expr.div (.product num) (.product den)).LeavesIn V K :=
  ⟨.product hK.one hnum, .product hK.one hden⟩

theorem leavesIn_reciprocal (hK : Stable K) {num den : List (Expr α)}
    (hnum : ∀ f ∈ num, f.LeavesIn V K) (hden : ∀ f ∈ den, f.LeavesIn V K) :
    (reciprocal num den).LeavesIn V K := by
  have hpower {f g : Expr α} (hg : reciprocalPower? f = some g) (hf : f.LeavesIn V K) :
      g.LeavesIn V K := by
    unfold reciprocalPower? at hg
    split at hg
    · obtain ⟨p, hp, rfl⟩ := Option.map_eq_some_iff.mp hg
      exact ⟨hf.1, hK.neg (hK.finite (Expr.isFinite_of_numericValue hp))⟩
    · cases hg
  refine .simplify hK (leavesIn_fraction hK ?_ ?_)
  · simp only [List.mem_append, List.mem_filterMap]
    rintro g (hg | ⟨f, hf, hg⟩)
    · exact hden g hg
    · exact hpower hg (hnum f hf)
  · exact fun f hf => hnum f (List.mem_filter.mp hf).1

theorem leavesIn_coefficient? (hK : Stable K) {term c : Expr α} (h : coefficient? term = some c)
    (hterm : term.LeavesIn V K) : c.LeavesIn V K := by
  obtain ⟨hnum, hden⟩ := Expr.leavesIn_factors hterm
  unfold coefficient? at h
  simp only at h
  split at h
  · cases h
  · split at h
    · cases h
      refine .simplify hK (.signed (leavesIn_fraction hK ?_ hden) _)
      exact fun f hf => hnum f (List.mem_filter.mp hf).1
    · cases h

theorem leavesIn_of_separate (hK : Stable K) {family : Family α} (hrhs : rhs.LeavesIn V K)
    (h : separate rhs = .ok family) : ∀ e ∈ family.parts, e.LeavesIn V K := by
  obtain ⟨hnum, hden⟩ := Expr.leavesIn_factors hrhs
  have hfilter {p : Expr α → Bool} {fs : List (Expr α)} (hfs : ∀ f ∈ fs, f.LeavesIn V K) :
      ∀ f ∈ fs.filter p, f.LeavesIn V K := fun f hf => hfs f (List.mem_filter.mp hf).1
  cases separate_eq_ok h
  simp only [parts, List.mem_cons, List.not_mem_nil, or_false]
  rintro e (rfl | rfl | rfl)
  · exact .simplify hK (.signed (leavesIn_fraction hK (hfilter hnum) (hfilter hden)) _)
  · exact .simplify hK (leavesIn_fraction hK (hfilter hnum) (hfilter hden))
  · exact leavesIn_reciprocal hK (hfilter hnum) (hfilter hden)

theorem leavesIn_of_collect (hK : Stable K) {family : Family α} (hrhs : rhs.LeavesIn V K)
    (h : collect rhs = .ok family) : ∀ e ∈ family.parts, e.LeavesIn V K := by
  have hterms := Expr.leavesIn_signedTerms hrhs
  cases (collect_eq_ok h).2
  simp only [parts, List.mem_cons, List.not_mem_nil, or_false]
  rintro e (rfl | rfl)
  · refine .simplify hK (.sum hK.zero fun f hf => ?_)
    obtain ⟨t, ht, hf⟩ := List.mem_filterMap.mp hf
    obtain ⟨c, hc, rfl⟩ := Option.map_eq_some_iff.mp hf
    exact (leavesIn_coefficient? hK hc (hterms t (List.mem_filter.mp ht).1)).signed _
  · refine .simplify hK (.sum hK.zero fun f hf => ?_)
    obtain ⟨t, ht, rfl⟩ := List.mem_map.mp hf
    exact (hterms t (List.mem_filter.mp ht).1).signed _

theorem leavesIn_of_classify (hK : Stable K) (hrhs : rhs.LeavesIn V K) :
    ∀ e ∈ (classify rhs).parts, e.LeavesIn V K := by
  obtain ⟨-, hf⟩ | hs | hc | hf := classify_eq (rfl : classify rhs = _)
  · rw [hf]
    simpa [parts] using hrhs
  · exact leavesIn_of_separate hK hrhs hs
  · exact leavesIn_of_collect hK hrhs hc
  · simp [hf, parts]

-- ---------------------------------------------------------------------------
-- Variables apart
-- ---------------------------------------------------------------------------

/-- The part in `x` is free of `y`, and the part in `y` has it and is free of
`x`, as is its reciprocal. -/
def Separated : Family α → Prop
  | .direct f => f.mentions dependent = false
  | .separable xPart yPart yReciprocal =>
    xPart.mentions dependent = false ∧ yPart.mentions dependent = true ∧
      yPart.mentions independent = false ∧ yReciprocal.mentions independent = false
  | .linear a b => a.mentions dependent = false ∧ b.mentions dependent = false
  | .unsupported => True

theorem separate_tests {xPart yPart yReciprocal : Expr α}
    (h : separate rhs = .ok (.separable xPart yPart yReciprocal)) :
    (∀ f ∈ (ProductFactors.of rhs).numerator ++ (ProductFactors.of rhs).denominator,
      f.mentionsBoth = false) ∧ yPart.mentions dependent = true := by
  unfold separate at h
  simp only at h
  split at h
  · cases h
  · rename_i hnone
    split at h
    · cases h
    · split at h
      · rename_i hy
        cases h
        exact ⟨fun f hf => by simpa using List.find?_eq_none.mp hnone f hf, hy⟩
      · cases h

theorem separated_of_separate {xPart yPart yReciprocal : Expr α}
    (h : separate rhs = .ok (.separable xPart yPart yReciprocal)) :
    (separable xPart yPart yReciprocal).Separated := by
  obtain ⟨hboth, hy⟩ := separate_tests h
  have hx := separate_free h
  -- A factor with `y` is free of `x`, since no factor has both.
  have hfactor {fs : List (Expr α)} (hfs : ∀ f ∈ fs, f.mentionsBoth = false) :
      ∀ f ∈ withY fs, f.LeavesIn (· ≠ independent) fun _ => True := by
    intro f hf
    have hnot := hfs f (List.mem_filter.mp hf).1
    rw [Expr.mentionsBoth, mentions_of_mem_withY hf, Bool.and_true] at hnot
    exact Expr.mentions_eq_false_iff.mp hnot
  obtain ⟨hnum, hden⟩ := List.forall_mem_append.mp hboth
  cases separate_eq_ok h
  refine ⟨hx, hy, ?_, ?_⟩
  · exact Expr.mentions_eq_false_iff.mpr
      (.simplify .trivial (leavesIn_fraction .trivial (hfactor hnum) (hfactor hden)))
  · exact Expr.mentions_eq_false_iff.mpr
      (leavesIn_reciprocal .trivial (hfactor hnum) (hfactor hden))

/-- The variables are apart in every family that a right-hand side is sorted
into, simplified or not. -/
theorem classify_separated (rhs : Expr α) : (classify rhs).Separated := by
  generalize hf : classify rhs = family
  cases family with
  | direct f =>
    obtain ⟨hy, rfl⟩ := classify_eq_direct hf
    exact hy
  | separable => exact separated_of_separate (classify_eq_separable hf)
  | linear => exact collect_free (classify_eq_linear hf)
  | unsupported => trivial

end Family

end SlopeField
