import SlopeField.Equation.Factors
import SlopeField.Proofs.Exact.Simplify
import SlopeField.Proofs.Expr.Mentions

/-!
# Simplified products

Simplifying a product drops the factors that are one and keeps those with a
variable, if all its factors are of these two kinds (`simplify_product`).
-/

namespace SlopeField

variable {α : Type} {v : String}

theorem ProductFactors.isNormal_of [Scalar α] {e : Expr α} (h : e.IsNormal) :
    (∀ f ∈ (of e).numerator, f.IsNormal) ∧ ∀ f ∈ (of e).denominator, f.IsNormal := by
  fun_induction of e with
  | case1 l r ihl ihr =>
    obtain ⟨hln, hld⟩ := ihl h.1
    obtain ⟨hrn, hrd⟩ := ihr h.2.1
    exact ⟨List.forall_mem_append.mpr ⟨hln, hrn⟩, List.forall_mem_append.mpr ⟨hld, hrd⟩⟩
  | case2 l r ihl ihr =>
    obtain ⟨hln, hld⟩ := ihl h.1
    obtain ⟨hrn, hrd⟩ := ihr h.2.1
    exact ⟨List.forall_mem_append.mpr ⟨hln, hrd⟩, List.forall_mem_append.mpr ⟨hld, hrn⟩⟩
  | case3 e ih => exact ih h.1
  | case4 e => exact ⟨fun f hf => List.mem_singleton.mp hf ▸ h, fun f hf => by cases hf⟩

namespace Expr

theorem mentions_foldl_mul {e : Expr α} {es : List (Expr α)} (h : e.mentions v = true) :
    (es.foldl .mul e).mentions v = true := by
  induction es generalizing e with
  | nil => exact h
  | cons f es ih => exact ih (by simp [mentions, h])

section
variable [Scalar α]

theorem simplify_foldl_mul (e : Expr α) (es : List (Expr α)) :
    (es.foldl .mul e).simplify = (es.map simplify).foldl simplifyMul e.simplify := by
  induction es generalizing e with
  | nil => rfl
  | cons f es ih => exact ih (mul e f)

theorem product_append_singleton {es : List (Expr α)} (h : es ≠ []) (e : Expr α) :
    product (es ++ [e]) = mul (product es) e := by
  cases es with
  | nil => exact (h rfl).elim
  | cons f es => simp [product]

theorem eq_singleton_of_product_eq_var {es : List (Expr α)} (h : product es = .var v) :
    es = [.var v] := by
  obtain rfl | ⟨fs, f, rfl⟩ := es.eq_nil_or_concat
  · cases h
  · rw [List.concat_eq_append] at *
    by_cases hne : fs = []
    · subst hne
      exact congrArg (fun e => [e]) h
    · rw [product_append_singleton hne] at h
      cases h

theorem mentions_product_of_ne_nil {es : List (Expr α)} (hne : es ≠ [])
    (h : ∀ e ∈ es, e.mentions v = true) : (product es).mentions v = true := by
  cases es with
  | nil => exact (hne rfl).elim
  | cons e es => exact mentions_foldl_mul (h e (by simp))

end

variable [tests : ZeroTests] [tests.Lawful] {e l r : Expr Exact}

noncomputable abbrev one : Expr Exact := .const (Arithmetic.ofNat 1)

theorem not_isZero_one : ¬one.isZero = true := by
  intro h
  have hz : one.value (fun _ => none) = some 0 := value_of_isZero h
  simp [value, Arithmetic.ofNat] at hz

omit [tests.Lawful] in
theorem isOne_one : one.isOne = true := by
  show tests.negligible ((1 : ℕ) - (1 : ℕ)) = true
  rw [sub_self]
  exact tests.negligible_zero

omit [tests.Lawful] in
theorem simplifyMul_one_one : simplifyMul one one = one := by
  show (const (some ((1 : ℕ) * (1 : ℕ))) : Expr Exact) = const (some ((1 : ℕ) : ℝ))
  simp

theorem one_simplifyMul (h : ∀ c, e ≠ .const c) : simplifyMul one e = e := by
  show scale _ e = e
  fun_cases scale (Arithmetic.ofNat 1) e with
  | case1 b => exact (h _ rfl).elim
  | case2 _ _ h0 => exact (not_isZero_one h0).elim
  | case3 => rfl
  | case4 _ _ _ _ h1 => exact (h1 isOne_one).elim
  | case5 _ _ _ h1 => exact (h1 isOne_one).elim
  | case6 _ _ _ _ h1 => exact (h1 isOne_one).elim
  | case7 _ _ _ h0 => exact (not_isZero_one h0).elim
  | case8 => rfl
  | case9 _ _ _ _ h1 => exact (h1 isOne_one).elim
  | case10 _ _ _ _ h1 => exact (h1 isOne_one).elim

theorem simplifyMul_one (h : ∀ c, e ≠ .const c) : simplifyMul e one = e := by
  have hs : simplifyMul e one = scaleRight e (Arithmetic.ofNat 1) := by
    cases e with
    | const c => exact (h c rfl).elim
    | _ => rfl
  rw [hs]
  unfold scaleRight
  rw [if_neg not_isZero_one, if_pos isOne_one]

theorem foldl_simplifyMul {ps ts : List (Expr Exact)} (hp : ∀ p ∈ ps, p.mentions v = true)
    (ht : ∀ t ∈ ts, t = one ∨ t.mentions v = true) :
    ts.foldl simplifyMul (product ps) = product (ps ++ ts.filter (·.mentions v)) := by
  induction ts generalizing ps with
  | nil => simp
  | cons t ts ih =>
    have hrest : ∀ u ∈ ts, u = one ∨ u.mentions v = true := fun u hu => ht u (by simp [hu])
    rw [List.foldl_cons]
    obtain rfl | hm := ht t (by simp)
    · have hdrop : simplifyMul (product ps) one = product ps := by
        by_cases hne : ps = []
        · subst hne
          exact simplifyMul_one_one
        · exact simplifyMul_one (ne_const_of_mentions (mentions_product_of_ne_nil hne hp))
      rw [hdrop, ih hp hrest]
      rfl
    · have hkeep : simplifyMul (product ps) t = product (ps ++ [t]) := by
        by_cases hne : ps = []
        · subst hne
          exact one_simplifyMul (ne_const_of_mentions hm)
        · rw [product_append_singleton hne]
          exact simplifyMul_of_ne_const
            (ne_const_of_mentions (mentions_product_of_ne_nil hne hp)) (ne_const_of_mentions hm)
      have hp' : ∀ p ∈ ps ++ [t], p.mentions v = true := by
        intro p h
        obtain h | h := List.mem_append.mp h
        · exact hp p h
        · exact List.mem_singleton.mp h ▸ hm
      rw [hkeep, ih hp' hrest, List.filter_cons_of_pos (by simpa using hm), List.append_assoc]
      rfl

theorem simplify_product {es : List (Expr Exact)}
    (h : ∀ e ∈ es, e.simplify = one ∨ e.simplify.mentions v = true) :
    (product es).simplify = product ((es.map simplify).filter (·.mentions v)) := by
  cases es with
  | nil => rfl
  | cons e es =>
    have hrest : ∀ t ∈ es.map simplify, t = one ∨ t.mentions v = true := by
      intro t ht
      obtain ⟨f, hf, rfl⟩ := List.mem_map.mp ht
      exact h f (by simp [hf])
    show (es.foldl .mul e).simplify = _
    rw [simplify_foldl_mul, List.map_cons]
    obtain h1 | hm := h e (by simp)
    · have hp : ∀ p ∈ ([] : List (Expr Exact)), p.mentions v = true := by simp
      rw [h1]
      exact foldl_simplifyMul hp hrest
    · have hp : ∀ p ∈ [e.simplify], p.mentions v = true := by simpa using hm
      rw [List.filter_cons_of_pos (by simpa using hm)]
      exact foldl_simplifyMul hp hrest

end Expr

end SlopeField
