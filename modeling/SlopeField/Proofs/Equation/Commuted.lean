import SlopeField.Binary64
import SlopeField.Proofs.Equation.Family
import SlopeField.Proofs.Exact.Products

/-!
# The order of operands

The family of a simplified right-hand side does not depend on the order in which
the operands of its sums and products are written (`classify_name_of_swapped`).

The order decides which factor or term is met first, so the parts of the family
differ, but not how many factors or terms pass a test that does not see the
order of operands itself (`Unordered`). The family is decided by such counts
alone. For a separable equation that needs the simplified tree: its factors with
`y` are never simplified away (`mentions_simplify_fraction`), so a factor with
both variables is all that can be in the way (`separate_eq_error`).
-/

namespace SlopeField

variable {α : Type}

def BinOp.commutes : BinOp → Bool
  | .add | .mul => true
  | .sub | .div | .pow => false

namespace Expr

/-- The trees are the same but for the order of the operands of sums and
products. -/
inductive Swapped : Expr α → Expr α → Prop
  | var (name : String) : Swapped (.var name) (.var name)
  | const (c : α) : Swapped (.const c) (.const c)
  | neg {e e' : Expr α} : Swapped e e' → Swapped (.neg e) (.neg e')
  | func {f : Fn} {e e' : Expr α} : Swapped e e' → Swapped (.func f e) (.func f e')
  | bin {op : BinOp} {l l' r r' : Expr α} : Swapped l l' → Swapped r r' →
      Swapped (.bin op l r) (.bin op l' r')
  | swap {op : BinOp} {l l' r r' : Expr α} : op.commutes = true → Swapped l l' → Swapped r r' →
      Swapped (.bin op l r) (.bin op r' l')

variable {v : String} {e : Expr α}

def isVar (v : String) : Expr α → Bool
  | .var name => name == v
  | _ => false

theorem isVar_iff : e.isVar v = true ↔ e = .var v := by
  cases e <;> simp [isVar]

end Expr

open SlopeField.Expr (Swapped)

def Unordered (p : Expr α → Bool) : Prop := ∀ ⦃e e'⦄, Swapped e e' → p e = p e'

variable {v : String} {e e' : Expr α}

theorem unordered_mentions (v : String) : Unordered (α := α) (·.mentions v) := by
  intro e e' h
  induction h with
  | var | const => rfl
  | neg _ ih | func _ ih => exact ih
  | bin _ _ ihl ihr =>
    simp only [Expr.mentions] at ihl ihr ⊢
    rw [ihl, ihr]
  | swap _ _ _ ihl ihr =>
    simp only [Expr.mentions] at ihl ihr ⊢
    rw [ihl, ihr, Bool.or_comm]

theorem unordered_mentionsBoth : Unordered (α := α) Expr.mentionsBoth := by
  intro e e' h
  exact congrArg₂ _ (unordered_mentions _ h) (unordered_mentions _ h)

theorem unordered_isVar (v : String) : Unordered (α := α) (·.isVar v) := by
  intro e e' h
  cases h <;> rfl

-- ---------------------------------------------------------------------------
-- Counting factors and terms
-- ---------------------------------------------------------------------------

section
variable {p : Expr α → Bool}

theorem Unordered.countP_factors (hp : Unordered p) (h : Swapped e e') :
    (ProductFactors.of e).numerator.countP p = (ProductFactors.of e').numerator.countP p ∧
      (ProductFactors.of e).denominator.countP p = (ProductFactors.of e').denominator.countP p := by
  induction h with
  | var | const => exact ⟨rfl, rfl⟩
  | neg _ ih => exact ih
  | func h => simp [ProductFactors.of, hp (.func h)]
  | @bin op _ _ _ _ hl hr ihl ihr =>
    cases op with
    | mul => simp [ProductFactors.of, ProductFactors.mul, ihl, ihr]
    | div => simp [ProductFactors.of, ProductFactors.mul, ProductFactors.inverse, ihl, ihr]
    | _ => simp [ProductFactors.of, hp (.bin hl hr)]
  | @swap op _ _ _ _ hop hl hr ihl ihr =>
    cases op with
    | mul => simp [ProductFactors.of, ProductFactors.mul, ihl, ihr, Nat.add_comm]
    | add => simp [ProductFactors.of, hp (.swap hop hl hr)]
    | _ => cases hop

theorem Unordered.countP_terms (hp : Unordered p) (h : Swapped e e') :
    (signedTerms e).countP (p ·.2) = (signedTerms e').countP (p ·.2) := by
  induction h with
  | var | const => rfl
  | neg _ ih => simpa [signedTerms, List.countP_map, Function.comp_def] using ih
  | func h => simp [signedTerms, hp (.func h)]
  | @bin op _ _ _ _ hl hr ihl ihr =>
    cases op with
    | add => simp [signedTerms, ihl, ihr]
    | sub => simp [signedTerms, List.countP_map, Function.comp_def, ihl, ihr]
    | _ => simp [signedTerms, hp (.bin hl hr)]
  | @swap op _ _ _ _ hop hl hr ihl ihr =>
    cases op with
    | add => simp [signedTerms, ihl, ihr, Nat.add_comm]
    | mul => simp [signedTerms, hp (.swap hop hl hr)]
    | _ => cases hop

end

-- ---------------------------------------------------------------------------
-- Simplified fractions
-- ---------------------------------------------------------------------------

theorem ProductFactors.any_mentions (e : Expr α) (v : String) :
    ((of e).numerator ++ (of e).denominator).any (·.mentions v) = e.mentions v := by
  fun_induction of e with
  | case1 l r ihl ihr =>
    rw [List.any_append] at ihl ihr
    rw [Expr.mentions, ← ihl, ← ihr]
    simp only [mul, List.any_append]
    grind
  | case2 l r ihl ihr =>
    rw [List.any_append] at ihl ihr
    rw [Expr.mentions, ← ihl, ← ihr]
    simp only [mul, inverse, List.any_append]
    grind
  | case3 e ih => exact ih
  | case4 e => simp

namespace Expr

variable [Scalar α] {es ns ds : List (Expr α)}

theorem isNormal_foldl_mul (he : e.IsNormal) (hm : e.mentions v = true)
    (hn : ∀ f ∈ es, f.IsNormal) (hv : ∀ f ∈ es, f.mentions v = true) :
    (es.foldl .mul e).IsNormal := by
  induction es generalizing e with
  | nil => exact he
  | cons f es ih =>
    refine ih ⟨he, hn f (by simp), ?_⟩ (by simp [mentions, hm]) (fun g hg => hn g (by simp [hg]))
      fun g hg => hv g (by simp [hg])
    exact simplifyMul_of_ne_const (ne_const_of_mentions hm) (ne_const_of_mentions (hv f (by simp)))

theorem isNormal_product (hn : ∀ f ∈ es, f.IsNormal) (hv : ∀ f ∈ es, f.mentions v = true) :
    (product es).IsNormal := by
  cases es with
  | nil => trivial
  | cons e es =>
    exact isNormal_foldl_mul (hn e (by simp)) (hv e (by simp)) (fun f hf => hn f (by simp [hf]))
      fun f hf => hv f (by simp [hf])

theorem mentions_simplify_fraction (hone : Scalar.negligible (Arithmetic.ofNat 1 : α) = false)
    (hns : ∀ f ∈ ns, f.IsNormal) (hds : ∀ f ∈ ds, f.IsNormal)
    (hnv : ∀ f ∈ ns, f.mentions v = true) (hdv : ∀ f ∈ ds, f.mentions v = true)
    (hne : ns ≠ [] ∨ ds ≠ []) : (div (product ns) (product ds)).simplify.mentions v = true := by
  show (simplifyDiv (product ns).simplify (product ds).simplify).mentions v = true
  rw [simplify_of_isNormal (isNormal_product hns hnv),
    simplify_of_isNormal (isNormal_product hds hdv)]
  by_cases hd : ds = []
  · subst hd
    have hfree : (product ([] : List (Expr α))).mentions v = false := rfl
    rw [mentions_simplifyDiv hfree]
    exact mentions_product_of_ne_nil (hne.resolve_right (by simp)) hnv
  · -- The denominator is not a constant, and the numerator is not a small one.
    have hD := mentions_product_of_ne_nil hd hdv
    have hN : (product ns).isZero = false := by
      by_cases hn : ns = []
      · subst hn
        exact hone
      · exact isZero_of_mentions (mentions_product_of_ne_nil hn hnv)
    have hdiv : simplifyDiv (product ns) (product ds) = div (product ns) (product ds) := by
      rw [simplifyDiv_of_not_const fun _ _ _ => ne_const_of_mentions hD _]
      simp [hN, isOne_of_mentions hD, isMinusOne_of_mentions hD]
    rw [hdiv, mentions, hD, Bool.or_true]

end Expr

-- ---------------------------------------------------------------------------
-- The families
-- ---------------------------------------------------------------------------

namespace Family

variable [Scalar α] {rhs : Expr α} {reason : NotSeparable α}

/-- A simplified right-hand side with `y` is not separable only because of a
factor with both variables. -/
theorem separate_eq_error (hone : Scalar.negligible (Arithmetic.ofNat 1 : α) = false)
    (hn : rhs.IsNormal) (hy : rhs.mentions dependent = true) (h : separate rhs = .error reason) :
    ∃ f ∈ (ProductFactors.of rhs).numerator ++ (ProductFactors.of rhs).denominator,
      f.mentionsBoth = true ∧ reason = .mixed f := by
  obtain ⟨hnum, hden⟩ := ProductFactors.isNormal_of hn
  have hsome : withY (ProductFactors.of rhs).numerator ≠ [] ∨
      withY (ProductFactors.of rhs).denominator ≠ [] := by
    rw [← ProductFactors.any_mentions, List.any_append, Bool.or_eq_true] at hy
    simpa [withY] using hy
  unfold separate at h
  simp only at h
  split at h
  · rename_i f hf
    cases h
    exact ⟨f, List.mem_of_find?_eq_some hf, List.find?_some hf, rfl⟩
  · split at h
    · rename_i hempty
      simp only [Bool.and_eq_true, List.isEmpty_iff] at hempty
      exact (hsome.elim (· hempty.1) (· hempty.2)).elim
    · split at h
      · cases h
      · rename_i hfree
        refine (hfree ?_).elim
        exact Expr.mentions_simplify_fraction hone
          (fun f hf => hnum f (List.mem_of_mem_filter hf))
          (fun f hf => hden f (List.mem_of_mem_filter hf))
          (fun f hf => mentions_of_mem_withY hf) (fun f hf => mentions_of_mem_withY hf) hsome

theorem isOk_separate_iff (hone : Scalar.negligible (Arithmetic.ofNat 1 : α) = false)
    (hn : rhs.IsNormal) (hy : rhs.mentions dependent = true) :
    (separate rhs).isOk = true ↔
      (ProductFactors.of rhs).numerator.countP Expr.mentionsBoth +
        (ProductFactors.of rhs).denominator.countP Expr.mentionsBoth = 0 := by
  rw [← List.countP_append, List.countP_eq_zero]
  constructor
  · intro hok f hf hboth
    unfold separate at hok
    simp only at hok
    split at hok
    · cases hok
    · rename_i hnone
      exact List.find?_eq_none.mp hnone f hf hboth
  · intro hnone
    cases hs : separate rhs with
    | ok => rfl
    | error reason =>
      obtain ⟨f, hf, hboth, -⟩ := separate_eq_error hone hn hy hs
      exact (hnone f hf hboth).elim

omit [Scalar α] in
theorem withY_eq_var_iff {fs : List (Expr α)} :
    (∃ w, withY fs = [.var w]) ↔
      fs.countP (·.mentions dependent) = 1 ∧ 0 < fs.countP (·.isVar dependent) := by
  rw [List.countP_eq_length_filter, List.countP_pos_iff]
  constructor
  · rintro ⟨w, hw⟩
    have hmem : .var w ∈ withY fs := by simp [hw]
    exact ⟨congrArg List.length hw, _, List.mem_of_mem_filter hmem, mentions_of_mem_withY hmem⟩
  · rintro ⟨hlength, f, hf, hvar⟩
    obtain ⟨g, hg⟩ := List.length_eq_one_iff.mp hlength
    have hmem : f ∈ fs.filter (·.mentions dependent) := by
      cases Expr.isVar_iff.mp hvar
      exact List.mem_filter.mpr ⟨hf, hvar⟩
    rw [hg, List.mem_singleton] at hmem
    exact ⟨dependent, hg.trans (by rw [← hmem, Expr.isVar_iff.mp hvar])⟩

theorem isSome_coefficient?_iff {t : Expr α} :
    (coefficient? t).isSome = true ↔
      (ProductFactors.of t).denominator.countP (·.mentions dependent) = 0 ∧
      (ProductFactors.of t).numerator.countP (·.mentions dependent) = 1 ∧
      0 < (ProductFactors.of t).numerator.countP (·.isVar dependent) := by
  rw [← withY_eq_var_iff, List.countP_eq_zero]
  unfold coefficient?
  simp only
  split
  · rename_i hden
    simp only [List.any_eq_true] at hden
    obtain ⟨f, hf, hm⟩ := hden
    exact iff_of_false nofun fun h => h.1 f hf hm
  · rename_i hden
    simp only [List.any_eq_true, not_exists, not_and] at hden
    split
    · rename_i w hw
      exact iff_of_true rfl ⟨hden, w, hw⟩
    · rename_i hvar
      refine iff_of_false nofun ?_
      rintro ⟨-, w, hw⟩
      exact hvar w hw

theorem unordered_coefficient? : Unordered (α := α) fun t => (coefficient? t).isSome := by
  intro t t' h
  obtain ⟨hnum, hden⟩ := (unordered_mentions dependent).countP_factors h
  rw [Bool.eq_iff_iff, isSome_coefficient?_iff, isSome_coefficient?_iff, hnum, hden,
    ((unordered_isVar dependent).countP_factors h).1]

theorem isOk_collect_iff :
    (collect rhs).isOk = true ↔
      (signedTerms rhs).countP (fun t => t.2.mentions dependent && !(coefficient? t.2).isSome) = 0 ∧
        0 < (signedTerms rhs).countP (·.2.mentions dependent) := by
  rw [List.countP_eq_zero, List.countP_pos_iff]
  unfold collect
  simp only
  split
  · rename_i negative t ht
    obtain ⟨hin, hm⟩ := List.mem_filter.mp (List.mem_of_find?_eq_some ht)
    have hnone := List.find?_some ht
    refine iff_of_false nofun fun h => h.1 _ hin ?_
    simp_all
  · rename_i hnone
    have hall := List.find?_eq_none.mp hnone
    split
    · rename_i hempty
      refine iff_of_false nofun ?_
      rintro ⟨-, t, ht, hm⟩
      exact List.filter_eq_nil_iff.mp (List.isEmpty_iff.mp hempty) t ht hm
    · rename_i hsome
      obtain ⟨t, ht⟩ := List.exists_mem_of_ne_nil _ (mt List.isEmpty_iff.mpr hsome)
      refine iff_of_true rfl ⟨fun u hu h => ?_, t, List.mem_filter.mp ht⟩
      obtain ⟨hm, hc⟩ := Bool.and_eq_true_iff.mp h
      exact hall u (List.mem_filter.mpr ⟨hu, hm⟩) (by simpa using hc)

theorem classify_name (rhs : Expr α) :
    (classify rhs).name =
      if rhs.mentions dependent then
        if (separate rhs).isOk then "separable"
        else if (collect rhs).isOk then "linear" else "unsupported"
      else "direct" := by
  unfold classify
  cases hm : rhs.mentions dependent with
  | false => rfl
  | true =>
    cases hs : separate rhs with
    | ok family =>
      cases separate_eq_ok hs
      rfl
    | error =>
      cases hc : collect rhs with
      | ok family =>
        cases (collect_eq_ok hc).2
        rfl
      | error => rfl

theorem classify_name_eq (hone : Scalar.negligible (Arithmetic.ofNat 1 : α) = false)
    (hn : e.IsNormal) (hn' : e'.IsNormal) (h : Swapped e e') :
    (classify e).name = (classify e').name := by
  have hy : e.mentions dependent = e'.mentions dependent := unordered_mentions dependent h
  have hcollect : (collect e).isOk = (collect e').isOk := by
    have hterm : Unordered fun t : Expr α => t.mentions dependent && !(coefficient? t).isSome := by
      intro t t' h
      exact congrArg₂ (· && !·) (unordered_mentions dependent h) (unordered_coefficient? h)
    rw [Bool.eq_iff_iff, isOk_collect_iff, isOk_collect_iff, hterm.countP_terms h,
      (unordered_mentions dependent).countP_terms h]
  rw [classify_name, classify_name, ← hy, hcollect]
  split
  · rename_i hm
    have hseparate : (separate e).isOk = (separate e').isOk := by
      obtain ⟨hnum, hden⟩ := unordered_mentionsBoth.countP_factors h
      rw [Bool.eq_iff_iff, isOk_separate_iff hone hn hm, isOk_separate_iff hone hn' (hy ▸ hm),
        hnum, hden]
    rw [hseparate]
  · rfl

theorem not_negligible_one : Scalar.negligible (Arithmetic.ofNat 1 : Float) = false := by
  decide +kernel

/-- Simplified right-hand sides that are the same but for the order of operands
are of one family, and one with `y` is not separable only because of a factor
with both variables. -/
theorem classify_name_of_swapped :
    (∀ r₁ r₂ : Expr Float, r₁.simplify = r₁ → r₂.simplify = r₂ → Swapped r₁ r₂ →
      (classify r₁).name = (classify r₂).name) ∧
    ∀ (r : Expr Float) (reason : NotSeparable Float), r.simplify = r →
      r.mentions dependent = true → separate r = .error reason →
      ∃ f ∈ (ProductFactors.of r).numerator ++ (ProductFactors.of r).denominator,
        f.mentionsBoth = true ∧ reason = .mixed f := by
  refine ⟨fun r₁ r₂ h₁ h₂ hswap => ?_, fun r reason hr hy hs => ?_⟩
  · exact classify_name_eq not_negligible_one (h₁ ▸ Expr.simplify_isNormal r₁)
      (h₂ ▸ Expr.simplify_isNormal r₂) hswap
  · exact separate_eq_error not_negligible_one (hr ▸ Expr.simplify_isNormal r) hy hs

/-- `2 * y + x` and `x + y * 2`, which are linear. -/
theorem classify_name_linear :
    letI r₁ : Expr Float := .add (.mul (.const 2) (.var "y")) (.var "x")
    letI r₂ : Expr Float := .add (.var "x") (.mul (.var "y") (.const 2))
    r₁.simplify = r₁ ∧ r₂.simplify = r₂ ∧ Swapped r₁ r₂ ∧
      (classify r₁).name = "linear" ∧ (classify r₁).name = (classify r₂).name ∧
      ∃ f ∈ (ProductFactors.of r₁).numerator ++ (ProductFactors.of r₁).denominator,
        f.mentionsBoth = true ∧ NotSeparable.mixed r₁ = .mixed f := by
  have h₁ : Expr.simplify (.add (.mul (.const 2) (.var "y")) (.var "x") : Expr Float) =
      .add (.mul (.const 2) (.var "y")) (.var "x") := by decide +kernel
  have h₂ : Expr.simplify (.add (.var "x") (.mul (.var "y") (.const 2)) : Expr Float) =
      .add (.var "x") (.mul (.var "y") (.const 2)) := by decide +kernel
  have hswap : Swapped (.add (.mul (.const 2) (.var "y")) (.var "x") : Expr Float)
      (.add (.var "x") (.mul (.var "y") (.const 2))) :=
    .swap rfl (.swap rfl (.const 2) (.var "y")) (.var "x")
  exact ⟨h₁, h₂, hswap, by decide +kernel, classify_name_of_swapped.1 _ _ h₁ h₂ hswap,
    classify_name_of_swapped.2 _ _ h₁ rfl rfl⟩

end Family

end SlopeField
