import SlopeField.Proofs.Exact.Simplify
import SlopeField.Proofs.Expr.Leaves
import Mathlib.Algebra.BigOperators.Group.List.Lemmas

/-!
# Values of factors and terms

Where a tree has a value, so have all its factors, those of the denominator are
not zero, and the value is the signed fraction of their products
(`factored_of`). Likewise it is the signed sum of the values of its terms
(`termed_signedTerms`).
-/

namespace SlopeField

def sign (negative : Bool) : ℝ := if negative then -1 else 1

@[simp] theorem sign_not (b : Bool) : sign (!b) = -sign b := by cases b <;> simp [sign]

@[simp] theorem sign_bne (b c : Bool) : sign (b != c) = sign b * sign c := by
  cases b <;> cases c <;> simp [sign]

@[simp] theorem sign_inv (b : Bool) : (sign b)⁻¹ = sign b := by cases b <;> norm_num [sign]

variable [ZeroTests] {env : String → Exact}

namespace Expr

noncomputable def real (env : String → Exact) (e : Expr Exact) : ℝ := (e.value env).getD 0

def HasValue (env : String → Exact) (e : Expr Exact) : Prop := (e.value env).isSome = true

variable {e : Expr Exact} {z : ℝ}

theorem real_eq (h : e.value env = some z) : e.real env = z := by simp [real, h]

theorem hasValue_of_eq (h : e.value env = some z) : e.HasValue env := by simp [HasValue, h]

theorem HasValue.value_eq (h : e.HasValue env) : e.value env = some (e.real env) := by
  obtain ⟨z, hz⟩ := Option.isSome_iff_exists.mp h
  rw [real_eq hz, hz]

theorem value_foldl_mul {es : List (Expr Exact)} (he : e.value env = some z)
    (h : ∀ f ∈ es, f.HasValue env) :
    (es.foldl .mul e).value env = some (z * (es.map (real env)).prod) := by
  induction es generalizing e z with
  | nil => simpa using he
  | cons f es ih =>
    have hf : (mul e f).value env = some (z * f.real env) :=
      Exact.mul_eq_some.mpr ⟨_, _, he, (h f (by simp)).value_eq, rfl⟩
    rw [List.foldl_cons, ih hf fun g hg => h g (by simp [hg]), List.map_cons, List.prod_cons,
      mul_assoc]

theorem value_product {es : List (Expr Exact)} (h : ∀ f ∈ es, f.HasValue env) :
    (product es).value env = some (es.map (real env)).prod := by
  cases es with
  | nil => simp [product, value, Arithmetic.ofNat]
  | cons e es =>
    exact value_foldl_mul (h e (by simp)).value_eq fun f hf => h f (by simp [hf])

theorem value_foldl_add {es : List (Expr Exact)} (he : e.value env = some z)
    (h : ∀ f ∈ es, f.HasValue env) :
    (es.foldl .add e).value env = some (z + (es.map (real env)).sum) := by
  induction es generalizing e z with
  | nil => simpa using he
  | cons f es ih =>
    have hf : (add e f).value env = some (z + f.real env) :=
      Exact.add_eq_some.mpr ⟨_, _, he, (h f (by simp)).value_eq, rfl⟩
    rw [List.foldl_cons, ih hf fun g hg => h g (by simp [hg]), List.map_cons, List.sum_cons,
      add_assoc]

theorem value_sum {es : List (Expr Exact)} (h : ∀ f ∈ es, f.HasValue env) :
    (sum es).value env = some (es.map (real env)).sum := by
  cases es with
  | nil => simp [sum, value, Arithmetic.ofNat]
  | cons e es =>
    exact value_foldl_add (h e (by simp)).value_eq fun f hf => h f (by simp [hf])

end Expr

theorem Expr.value_signed {e : Expr Exact} {z : ℝ} (h : e.value env = some z) (negative : Bool) :
    (e.signed negative).value env = some (sign negative * z) := by
  cases negative with
  | false => simpa [signed, sign] using h
  | true => exact Exact.neg_eq_some.mpr ⟨z, h, by simp [sign]⟩

-- ---------------------------------------------------------------------------
-- Factors
-- ---------------------------------------------------------------------------

/-- The factors have values, none in the denominator is zero, and their signed
fraction is `z`. -/
structure Factored (env : String → Exact) (p : ProductFactors Exact) (z : ℝ) : Prop where
  numerator : ∀ f ∈ p.numerator, f.HasValue env
  denominator : ∀ f ∈ p.denominator, f.HasValue env
  nonzero : ∀ f ∈ p.denominator, f.real env ≠ 0
  value : z = sign p.negative *
    ((p.numerator.map (Expr.real env)).prod / (p.denominator.map (Expr.real env)).prod)

namespace Factored

variable {p q : ProductFactors Exact} {z w : ℝ}

theorem mul (hp : Factored env p z) (hq : Factored env q w) : Factored env (p.mul q) (z * w) where
  numerator f hf := (List.mem_append.mp hf).elim (hp.numerator f) (hq.numerator f)
  denominator f hf := (List.mem_append.mp hf).elim (hp.denominator f) (hq.denominator f)
  nonzero f hf := (List.mem_append.mp hf).elim (hp.nonzero f) (hq.nonzero f)
  value := by
    rw [hp.value, hq.value]
    simp only [ProductFactors.mul, sign_bne, List.map_append, List.prod_append]
    ring

theorem inverse (hp : Factored env p z) (hz : z ≠ 0) : Factored env p.inverse z⁻¹ where
  numerator := hp.denominator
  denominator := hp.numerator
  nonzero f hf h0 := by
    have hprod : (p.numerator.map (Expr.real env)).prod = 0 :=
      List.prod_eq_zero (List.mem_map.mpr ⟨f, hf, h0⟩)
    exact hz (by rw [hp.value, hprod, zero_div, mul_zero])
  value := by
    rw [hp.value, mul_inv, sign_inv, inv_div]
    rfl

theorem neg (hp : Factored env p z) : Factored env p.neg (-z) where
  numerator := hp.numerator
  denominator := hp.denominator
  nonzero := hp.nonzero
  value := by
    rw [hp.value]
    simp only [ProductFactors.neg, sign_not, neg_mul]

theorem single {e : Expr Exact} (h : e.value env = some z) :
    Factored env { numerator := [e] } z where
  numerator f hf := by
    cases List.mem_singleton.mp hf
    exact Expr.hasValue_of_eq h
  denominator f hf := by cases hf
  nonzero f hf := by cases hf
  value := by simp [sign, Expr.real_eq h]

end Factored

theorem factored_of {e : Expr Exact} {z : ℝ} (h : e.value env = some z) :
    Factored env (.of e) z := by
  fun_induction ProductFactors.of e generalizing z with
  | case1 l r ihl ihr =>
    obtain ⟨x, y, hx, hy, rfl⟩ := Exact.mul_eq_some.mp h
    exact (ihl hx).mul (ihr hy)
  | case2 l r ihl ihr =>
    obtain ⟨x, y, hx, hy, h0, rfl⟩ := Exact.div_eq_some.mp h
    rw [div_eq_mul_inv]
    exact (ihl hx).mul ((ihr hy).inverse h0)
  | case3 e ih =>
    obtain ⟨x, hx, rfl⟩ := Exact.neg_eq_some.mp h
    exact (ih hx).neg
  | case4 e => exact .single h

-- ---------------------------------------------------------------------------
-- Terms
-- ---------------------------------------------------------------------------

noncomputable def termValue (env : String → Exact) (t : Bool × Expr Exact) : ℝ :=
  sign t.1 * t.2.real env

structure Termed (env : String → Exact) (ts : List (Bool × Expr Exact)) (z : ℝ) : Prop where
  terms : ∀ t ∈ ts, t.2.HasValue env
  value : z = (ts.map (termValue env)).sum

namespace Termed

variable {ts us : List (Bool × Expr Exact)} {z w : ℝ}

theorem append (ht : Termed env ts z) (hu : Termed env us w) :
    Termed env (ts ++ us) (z + w) where
  terms t h := (List.mem_append.mp h).elim (ht.terms t) (hu.terms t)
  value := by rw [ht.value, hu.value, List.map_append, List.sum_append]

theorem neg (ht : Termed env ts z) :
    Termed env (ts.map fun (negative, t) => (!negative, t)) (-z) where
  terms t h := by
    obtain ⟨u, hu, rfl⟩ := List.mem_map.mp h
    exact ht.terms u hu
  value := by
    rw [ht.value]
    clear ht
    induction ts with
    | nil => simp
    | cons t ts ih =>
      simp only [List.map_cons, List.sum_cons, neg_add, ih, termValue, sign_not, neg_mul]

theorem single {e : Expr Exact} (h : e.value env = some z) : Termed env [(false, e)] z where
  terms t ht := by
    cases List.mem_singleton.mp ht
    exact Expr.hasValue_of_eq h
  value := by simp [termValue, sign, Expr.real_eq h]

end Termed

theorem termed_signedTerms {e : Expr Exact} {z : ℝ} (h : e.value env = some z) :
    Termed env (signedTerms e) z := by
  fun_induction signedTerms e generalizing z with
  | case1 l r ihl ihr =>
    obtain ⟨x, y, hx, hy, rfl⟩ := Exact.add_eq_some.mp h
    exact (ihl hx).append (ihr hy)
  | case2 l r ihl ihr =>
    obtain ⟨x, y, hx, hy, rfl⟩ := Exact.sub_eq_some.mp h
    rw [sub_eq_add_neg]
    exact (ihl hx).append (ihr hy).neg
  | case3 e ih =>
    obtain ⟨x, hx, rfl⟩ := Exact.neg_eq_some.mp h
    exact (ih hx).neg
  | case4 e => exact .single h

end SlopeField
