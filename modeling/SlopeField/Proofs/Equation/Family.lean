import SlopeField.Proofs.Expr.Mentions

/-!
# The parts of a family

What it means that a right-hand side was sorted into a family, for any
scalars: how its parts come from its factors or terms, and which variables they
are free of.
-/

namespace SlopeField.Family

variable {α : Type} {rhs f a b xPart yPart yReciprocal : Expr α} {family : Family α}

def withY (fs : List (Expr α)) : List (Expr α) := fs.filter (·.mentions dependent)

def withoutY (fs : List (Expr α)) : List (Expr α) := fs.filter (!·.mentions dependent)

theorem mentions_of_mem_withY {e : Expr α} {fs : List (Expr α)} (h : e ∈ withY fs) :
    e.mentions dependent = true := by
  simpa using (List.mem_filter.mp h).2

theorem mentions_of_mem_withoutY {e : Expr α} {fs : List (Expr α)} (h : e ∈ withoutY fs) :
    e.mentions dependent = false := by
  simpa using (List.mem_filter.mp h).2

variable [Scalar α]

theorem separate_eq_ok (h : separate rhs = .ok family) :
    let factors := ProductFactors.of rhs
    family = .separable
      (Expr.signed factors.negative (.div (.product (withoutY factors.numerator))
        (.product (withoutY factors.denominator)))).simplify
      (Expr.div (.product (withY factors.numerator))
        (.product (withY factors.denominator))).simplify
      (reciprocal (withY factors.numerator) (withY factors.denominator)) := by
  unfold separate at h
  simp only at h
  split at h
  · cases h
  · split at h
    · cases h
    · split at h
      · cases h
        rfl
      · cases h

theorem collect_eq_ok (h : collect rhs = .ok family) :
    (∀ t ∈ (signedTerms rhs).filter fun t => t.2.mentions dependent, (coefficient? t.2).isSome) ∧
    family = .linear
      (Expr.sum (((signedTerms rhs).filter fun t => t.2.mentions dependent).filterMap
        fun t => (coefficient? t.2).map (Expr.signed t.1))).simplify
      (Expr.sum (((signedTerms rhs).filter fun t => !t.2.mentions dependent).map
        fun t => t.2.signed t.1)).simplify := by
  unfold collect at h
  simp only at h
  split at h
  · cases h
  · rename_i hnone
    split at h
    · cases h
    · cases h
      refine ⟨fun t ht => ?_, rfl⟩
      simpa [Option.isSome_iff_ne_none] using List.find?_eq_none.mp hnone t ht

theorem classify_eq (h : classify rhs = family) :
    (rhs.mentions dependent = false ∧ family = .direct rhs) ∨ separate rhs = .ok family ∨
      collect rhs = .ok family ∨ family = .unsupported := by
  unfold classify at h
  split at h
  · rename_i hm
    exact .inl ⟨by simpa using hm, h.symm⟩
  · split at h
    · rename_i hs
      exact .inr (.inl (h ▸ hs))
    · split at h
      · rename_i hc
        exact .inr (.inr (.inl (h ▸ hc)))
      · exact .inr (.inr (.inr h.symm))

theorem classify_eq_direct (h : classify rhs = .direct f) :
    rhs.mentions dependent = false ∧ f = rhs := by
  obtain ⟨hm, hf⟩ | hs | hc | hu := classify_eq h
  · cases hf
    exact ⟨hm, rfl⟩
  · cases separate_eq_ok hs
  · cases (collect_eq_ok hc).2
  · cases hu

theorem classify_eq_separable (h : classify rhs = .separable xPart yPart yReciprocal) :
    separate rhs = .ok (.separable xPart yPart yReciprocal) := by
  obtain ⟨-, hf⟩ | hs | hc | hu := classify_eq h
  · cases hf
  · exact hs
  · cases (collect_eq_ok hc).2
  · cases hu

theorem classify_eq_linear (h : classify rhs = .linear a b) :
    collect rhs = .ok (.linear a b) := by
  obtain ⟨-, hf⟩ | hs | hc | hu := classify_eq h
  · cases hf
  · cases separate_eq_ok hs
  · exact hc
  · cases hu

-- ---------------------------------------------------------------------------
-- Variables of the parts
-- ---------------------------------------------------------------------------

theorem separate_free (h : separate rhs = .ok (.separable xPart yPart yReciprocal)) :
    xPart.mentions dependent = false := by
  cases separate_eq_ok h
  refine Expr.mentions_simplify (Expr.mentions_signed (Expr.mentions_bin.mpr ⟨?_, ?_⟩) _)
  · exact Expr.mentions_product fun f hf => mentions_of_mem_withoutY hf
  · exact Expr.mentions_product fun f hf => mentions_of_mem_withoutY hf

theorem coefficient?_free {term c : Expr α} (h : coefficient? term = some c) :
    c.mentions dependent = false := by
  unfold coefficient? at h
  simp only at h
  split at h
  · cases h
  · rename_i hden
    split at h
    · cases h
      refine Expr.mentions_simplify (Expr.mentions_signed (Expr.mentions_bin.mpr ⟨?_, ?_⟩) _)
      · exact Expr.mentions_product fun f hf => mentions_of_mem_withoutY hf
      · refine Expr.mentions_product fun f hf => ?_
        simp only [List.any_eq_true, not_exists, not_and] at hden
        simpa using hden f hf
    · cases h

theorem collect_free (h : collect rhs = .ok (.linear a b)) :
    a.mentions dependent = false ∧ b.mentions dependent = false := by
  obtain ⟨-, hab⟩ := collect_eq_ok h
  cases hab
  refine ⟨Expr.mentions_simplify (Expr.mentions_sum fun e he => ?_),
    Expr.mentions_simplify (Expr.mentions_sum fun e he => ?_)⟩
  · obtain ⟨t, -, ht⟩ := List.mem_filterMap.mp he
    obtain ⟨c, hc, rfl⟩ := Option.map_eq_some_iff.mp ht
    exact Expr.mentions_signed (coefficient?_free hc) _
  · obtain ⟨t, ht, rfl⟩ := List.mem_map.mp he
    exact Expr.mentions_signed (by simpa using (List.mem_filter.mp ht).2) _

end SlopeField.Family
