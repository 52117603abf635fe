import SlopeField.Binary64
import SlopeField.Proofs.Equation.Leaves
import SlopeField.Proofs.Expr.Depth
import SlopeField.Proofs.Expr.Printed

/-!
# The depth of the parts of a family

The parts of a family are chains of factors and terms, so their depth is bounded
by the deepest of these together with their number (`depth_of_classify`), and by
nothing that the depth of the right-hand side alone would give: see `wide`.
-/

namespace SlopeField

variable {α : Type} {e f rhs : Expr α} {d n : Nat}

-- ---------------------------------------------------------------------------
-- Factors and terms
-- ---------------------------------------------------------------------------

namespace ProductFactors

def factors (p : ProductFactors α) : List (Expr α) := p.numerator ++ p.denominator

@[simp] theorem mem_factors {p : ProductFactors α} :
    f ∈ p.factors ↔ f ∈ p.numerator ∨ f ∈ p.denominator := List.mem_append

@[simp] theorem length_factors (p : ProductFactors α) :
    p.factors.length = p.numerator.length + p.denominator.length := List.length_append

theorem length_factors_of_pos (e : Expr α) : 0 < (of e).factors.length := by
  fun_induction of e with
  | case1 l r ihl _ | case2 l r ihl _ =>
    simp [mul, inverse] at ihl ⊢
    omega
  | case3 _ ih => exact ih
  | case4 => simp

theorem depth_of_mem_factors (h : f ∈ (of e).factors) : f.depth ≤ e.depth := by
  fun_induction of e with
  | case1 l r ihl ihr | case2 l r ihl ihr =>
    have hlr : f ∈ (of l).factors ∨ f ∈ (of r).factors := by
      simp [mul, inverse] at h ⊢
      tauto
    have hf : f.depth ≤ max l.depth r.depth :=
      hlr.elim (fun h => Nat.le_trans (ihl h) (Nat.le_max_left _ _))
        fun h => Nat.le_trans (ihr h) (Nat.le_max_right _ _)
    exact Nat.le_succ_of_le hf
  | case3 _ ih => exact Nat.le_succ_of_le (ih h)
  | case4 => simp_all

end ProductFactors

theorem length_signedTerms_pos (e : Expr α) : 0 < (signedTerms e).length := by
  fun_induction signedTerms e with
  | case1 | case2 => simp; omega
  | case3 _ ih => simpa using ih
  | case4 => simp

theorem depth_of_mem_signedTerms (e : Expr α) : ∀ t ∈ signedTerms e, t.2.depth ≤ e.depth := by
  fun_induction signedTerms e with
  | case1 l r ihl ihr =>
    simp only [List.mem_append]
    rintro t (ht | ht)
    · exact Nat.le_succ_of_le (Nat.le_trans (ihl t ht) (Nat.le_max_left _ _))
    · exact Nat.le_succ_of_le (Nat.le_trans (ihr t ht) (Nat.le_max_right _ _))
  | case2 l r ihl ihr =>
    simp only [List.mem_append, List.mem_map]
    rintro t (ht | ⟨t, ht, rfl⟩)
    · exact Nat.le_succ_of_le (Nat.le_trans (ihl t ht) (Nat.le_max_left _ _))
    · exact Nat.le_succ_of_le (Nat.le_trans (ihr t ht) (Nat.le_max_right _ _))
  | case3 _ ih =>
    simp only [List.mem_map]
    rintro t ⟨t, ht, rfl⟩
    exact Nat.le_succ_of_le (ih t ht)
  | case4 => simp

namespace Family

def mostFactors (ts : List (Bool × Expr α)) : Nat :=
  ts.foldr (fun t n => max (ProductFactors.of t.2).factors.length n) 0

theorem length_factors_le {t : Bool × Expr α} {ts : List (Bool × Expr α)} (h : t ∈ ts) :
    (ProductFactors.of t.2).factors.length ≤ mostFactors ts :=
  le_foldr_max (fun t : Bool × Expr α => (ProductFactors.of t.2).factors.length) h

def termPieces (rhs : Expr α) : List (Expr α) :=
  (signedTerms rhs).flatMap fun t =>
    if t.2.mentions dependent then (ProductFactors.of t.2).factors else [t.2]

/-- The trees that the parts of a family are folded from. -/
def pieces (rhs : Expr α) : Family α → List (Expr α)
  | .direct _ => [rhs]
  | .separable .. => (ProductFactors.of rhs).factors
  | .linear .. => termPieces rhs
  | .unsupported => []

/-- How many trees a part of a family can be folded from, one after the other. -/
def links (rhs : Expr α) : Family α → Nat
  | .direct _ => 0
  | .separable .. => (ProductFactors.of rhs).factors.length
  | .linear .. => (signedTerms rhs).length + mostFactors (signedTerms rhs)
  | .unsupported => 0

theorem depth_of_mem_pieces {family : Family α} (h : f ∈ pieces rhs family) :
    f.depth ≤ rhs.depth := by
  cases family with
  | direct => exact Nat.le_of_eq (congrArg _ (List.mem_singleton.mp h))
  | separable => exact ProductFactors.depth_of_mem_factors h
  | linear =>
    obtain ⟨t, ht, hf⟩ := List.mem_flatMap.mp h
    have hterm := depth_of_mem_signedTerms rhs t ht
    split at hf
    · exact Nat.le_trans (ProductFactors.depth_of_mem_factors hf) hterm
    · exact List.mem_singleton.mp hf ▸ hterm
  | unsupported => cases h

theorem depth_signed_term_le {t : Bool × Expr α} (ht : t ∈ signedTerms rhs)
    (hy : t.2.mentions dependent = false) :
    (t.2.signed t.1).depth ≤ Expr.deepest (termPieces rhs) + 1 := by
  have hmem : t.2 ∈ termPieces rhs := List.mem_flatMap.mpr ⟨t, ht, by simp [hy]⟩
  exact Nat.le_trans (Expr.depth_signed_le _ _) (Nat.succ_le_succ (Expr.depth_le_deepest hmem))

-- ---------------------------------------------------------------------------
-- Parts
-- ---------------------------------------------------------------------------

variable [Scalar α]

theorem depth_fraction_le {num den : List (Expr α)} (hd : 0 < d) (hn : 0 < n)
    (hnum : ∀ f ∈ num, f.depth ≤ d) (hden : ∀ f ∈ den, f.depth ≤ d)
    (hnum' : num.length ≤ n) (hden' : den.length ≤ n) :
    (Expr.div (.product num) (.product den)).depth ≤ d + n := by
  have hnum := Expr.depth_product_le hd hnum
  have hden := Expr.depth_product_le hd hden
  simp only [Expr.depth]
  omega

theorem depth_fraction_of_sublist {num den : List (Expr α)} (hd : 0 < d)
    (hdeep : ∀ f ∈ (ProductFactors.of e).factors, f.depth ≤ d)
    (hnum : num.Sublist (ProductFactors.of e).numerator)
    (hden : den.Sublist (ProductFactors.of e).denominator) :
    (Expr.div (.product num) (.product den)).depth ≤
      d + (ProductFactors.of e).factors.length := by
  have hlen := (ProductFactors.of e).length_factors
  refine depth_fraction_le hd (ProductFactors.length_factors_of_pos e) (fun f hf => ?_)
    (fun f hf => ?_) (by have := hnum.length_le; omega) (by have := hden.length_le; omega)
  · exact hdeep f (ProductFactors.mem_factors.mpr (.inl (hnum.mem hf)))
  · exact hdeep f (ProductFactors.mem_factors.mpr (.inr (hden.mem hf)))

theorem depth_simplify_signed_le {negative : Bool} (h : e.depth ≤ d) :
    (e.signed negative).simplify.depth ≤ d + 1 :=
  Nat.le_trans (Expr.depth_simplify_le _)
    (Nat.le_trans (Expr.depth_signed_le _ _) (Nat.succ_le_succ h))

theorem depth_reciprocalPower?_le {g : Expr α} (h : reciprocalPower? f = some g) :
    g.depth ≤ f.depth := by
  unfold reciprocalPower? at h
  split at h
  · obtain ⟨p, -, rfl⟩ := Option.map_eq_some_iff.mp h
    rw [Expr.depth_bin_const]
    exact Nat.succ_le_succ (Nat.le_max_left _ _)
  · cases h

theorem depth_reciprocal_le {num den : List (Expr α)} (hd : 0 < d)
    (hdeep : ∀ f ∈ (ProductFactors.of e).factors, f.depth ≤ d)
    (hnum : num.Sublist (ProductFactors.of e).numerator)
    (hden : den.Sublist (ProductFactors.of e).denominator) :
    (reciprocal num den).depth ≤ d + (ProductFactors.of e).factors.length := by
  have hlen := (ProductFactors.of e).length_factors
  have hnum' := hnum.length_le
  have hden' := hden.length_le
  simp only [ProductFactors.mem_factors] at hdeep
  refine Nat.le_trans (Expr.depth_simplify_le _)
    (depth_fraction_le hd (ProductFactors.length_factors_of_pos e) ?_ ?_ ?_ ?_)
  · simp only [List.mem_append, List.mem_filterMap]
    rintro g (hg | ⟨f, hf, hg⟩)
    · exact hdeep g (.inr (hden.mem hg))
    · exact Nat.le_trans (depth_reciprocalPower?_le hg) (hdeep f (.inl (hnum.mem hf)))
  · exact fun f hf => hdeep f (.inl (hnum.mem (List.mem_filter.mp hf).1))
  · have hpowers := List.length_filterMap_le reciprocalPower? num
    rw [List.length_append]
    omega
  · have hothers := List.length_filter_le (fun f => (reciprocalPower? f).isNone) num
    omega

theorem depth_of_separate {family : Family α} (h : separate rhs = .ok family) :
    ∀ p ∈ family.parts, p.depth ≤ Expr.deepest (pieces rhs family) + links rhs family + 1 := by
  cases separate_eq_ok h
  have hd := Expr.deepest_pos (ProductFactors.of rhs).factors
  have hdeep (f) (hf : f ∈ (ProductFactors.of rhs).factors) := Expr.depth_le_deepest hf
  simp only [pieces, links, parts, List.mem_cons, List.not_mem_nil, or_false]
  rintro p (rfl | rfl | rfl)
  · exact depth_simplify_signed_le
      (depth_fraction_of_sublist hd hdeep List.filter_sublist List.filter_sublist)
  · exact Nat.le_succ_of_le (Nat.le_trans (Expr.depth_simplify_le _)
      (depth_fraction_of_sublist hd hdeep List.filter_sublist List.filter_sublist))
  · exact Nat.le_succ_of_le
      (depth_reciprocal_le hd hdeep List.filter_sublist List.filter_sublist)

theorem depth_coefficient?_le {term c : Expr α} (hd : 0 < d)
    (hdeep : ∀ f ∈ (ProductFactors.of term).factors, f.depth ≤ d) (h : coefficient? term = some c) :
    c.depth ≤ d + (ProductFactors.of term).factors.length + 1 := by
  unfold coefficient? at h
  simp only at h
  split at h
  · cases h
  · split at h
    · cases h
      exact depth_simplify_signed_le
        (depth_fraction_of_sublist hd hdeep List.filter_sublist (List.Sublist.refl _))
    · cases h

theorem depth_signed_coefficient_le {t : Bool × Expr α} {c : Expr α} (ht : t ∈ signedTerms rhs)
    (hy : t.2.mentions dependent = true) (hc : coefficient? t.2 = some c) :
    (c.signed t.1).depth ≤ Expr.deepest (termPieces rhs) + mostFactors (signedTerms rhs) + 2 := by
  have hdeep : ∀ f ∈ (ProductFactors.of t.2).factors, f.depth ≤ Expr.deepest (termPieces rhs) :=
    fun f hf => Expr.depth_le_deepest (List.mem_flatMap.mpr ⟨t, ht, by simpa [hy] using hf⟩)
  have hc := depth_coefficient?_le (Expr.deepest_pos _) hdeep hc
  have hsigned := Expr.depth_signed_le c t.1
  have hmost := length_factors_le ht
  omega

theorem depth_of_collect {family : Family α} (h : collect rhs = .ok family) :
    ∀ p ∈ family.parts, p.depth ≤ Expr.deepest (pieces rhs family) + links rhs family + 1 := by
  have hm := length_signedTerms_pos rhs
  have hfilter (p : Bool × Expr α → Bool) := List.length_filter_le p (signedTerms rhs)
  cases (collect_eq_ok h).2
  simp only [pieces, links, parts, List.mem_cons, List.not_mem_nil, or_false]
  rintro p (rfl | rfl)
  · refine Nat.le_trans (Expr.depth_simplify_le _) (Nat.le_trans (Expr.depth_sum_le
      (d := Expr.deepest (termPieces rhs) + mostFactors (signedTerms rhs) + 2)
      (Nat.succ_pos _) fun g hg => ?_) ?_)
    · obtain ⟨t, ht, hg⟩ := List.mem_filterMap.mp hg
      obtain ⟨c, hc, rfl⟩ := Option.map_eq_some_iff.mp hg
      obtain ⟨ht, hy⟩ := List.mem_filter.mp ht
      exact depth_signed_coefficient_le ht hy hc
    · have hlen := Nat.le_trans (List.length_filterMap_le
        (fun t => (coefficient? t.2).map (Expr.signed t.1)) _) (hfilter (·.2.mentions dependent))
      omega
  · refine Nat.le_trans (Expr.depth_simplify_le _) (Nat.le_trans (Expr.depth_sum_le
      (d := Expr.deepest (termPieces rhs) + 1) (Nat.succ_pos _) fun g hg => ?_) ?_)
    · obtain ⟨t, ht, rfl⟩ := List.mem_map.mp hg
      obtain ⟨ht, hy⟩ := List.mem_filter.mp ht
      exact depth_signed_term_le ht (by simpa using hy)
    · have hlen := hfilter (!·.2.mentions dependent)
      rw [List.length_map]
      omega

end Family

variable [Scalar α] [Numeral α]

/-- The parts of a right-hand side are no deeper than the deepest tree they are
folded from, which is within the bound, and the links of the chain together. -/
theorem depth_of_classify {text : String} (h : parseEquation text = .ok rhs) :
    Expr.deepest (Family.pieces rhs (Family.classify rhs)) ≤ maxDepth ∧
    ∀ p ∈ (Family.classify rhs).parts,
      p.depth ≤ Expr.deepest (Family.pieces rhs (Family.classify rhs)) +
        Family.links rhs (Family.classify rhs) + 1 := by
  constructor
  · refine Expr.deepest_le (by decide) fun f hf => ?_
    exact Nat.le_trans (Family.depth_of_mem_pieces hf) (depth_of_parseEquation h)
  · obtain ⟨-, hf⟩ | hs | hc | hf := Family.classify_eq (rfl : Family.classify rhs = _)
    · rw [hf]
      simp only [Family.parts, List.mem_singleton, forall_eq]
      exact Nat.le_trans (Expr.depth_le_deepest (List.mem_singleton.mpr rfl))
        (Nat.le_add_right _ _)
    · exact Family.depth_of_separate hs
    · exact Family.depth_of_collect hc
    · simp [hf, Family.parts]

theorem depth_of_linear_parts :
    ∃ rhs : Expr Float, parseEquation "dy/dx = x*y - y/(x+1) + sin(x)" = .ok rhs ∧
      Family.pieces rhs (Family.classify rhs) = [.var "x", .var "y", .var "y",
        .add (.var "x") (.const 1), .func .sin (.var "x")] ∧
      Family.links rhs (Family.classify rhs) = 5 ∧
      ∀ p ∈ (Family.classify rhs).parts, p.depth ≤ 8 := by
  have hparse : ((parseEquation (α := Float) "dy/dx = x*y - y/(x+1) + sin(x)").toOption.any
      fun rhs => decide (Family.pieces rhs (Family.classify rhs) = [.var "x", .var "y", .var "y",
        .add (.var "x") (.const 1), .func .sin (.var "x")] ∧
        Family.links rhs (Family.classify rhs) = 5)) = true := by decide +kernel
  obtain ⟨rhs, hrhs, hall⟩ := (Option.any_eq_true _ _).mp hparse
  obtain ⟨hpieces, hlinks⟩ := of_decide_eq_true hall
  have hrhs := toOption_eq_some.mp hrhs
  refine ⟨rhs, hrhs, hpieces, hlinks, fun p hp => ?_⟩
  have hdepth := (depth_of_classify hrhs).2 p hp
  rw [hpieces, hlinks] at hdepth
  exact hdepth

-- ---------------------------------------------------------------------------
-- A wide product
-- ---------------------------------------------------------------------------

/-- The text of a product of 141 factors in parentheses. -/
def chain : List Char := '(' :: (List.replicate 140 ['x', '*']).flatten ++ ['x', ')']

/-- The text of `y` divided by two products, one after the other. -/
def wide : String := String.ofList ('y' :: '/' :: chain ++ '/' :: chain)

/-- The factors of both products come together in the part of `x`. -/
theorem parts_deeper_than_bound :
    ∃ rhs : Expr Float, parseEquation ("dy/dx=" ++ wide) = .ok rhs ∧
      ∃ p ∈ (Family.classify rhs).parts, maxDepth + 8 < p.depth := by
  have hparse : ((Expr.parse wide : Except _ (Expr Float)).toOption.any fun rhs =>
      (Family.classify rhs).parts.any fun p => maxDepth + 8 < p.depth) = true := by
    rw [Expr.parse, Expr.read, tokenize, wide]
    simp only [String.toList_ofList]
    decide +kernel
  obtain ⟨rhs, hrhs, hdeep⟩ := (Option.any_eq_true _ _).mp hparse
  refine ⟨rhs, ?_, by simpa using hdeep⟩
  have hequals : '=' ∉ wide.toList := by
    rw [wide, String.toList_ofList]
    decide +kernel
  rw [parseEquation_append wide hequals]
  exact toOption_eq_some.mp hrhs

end SlopeField
