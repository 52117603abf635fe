import Mathlib.Algebra.BigOperators.Group.List.Basic
import Mathlib.Algebra.Field.Basic
import Mathlib.Algebra.Field.Rat
import SlopeField.Proofs.Equation.Depth

/-!
# Flattened products and sums

A tree and its factors have the same value, whatever field the values are taken
from and whatever the nodes stand for that are not products, quotients or negations
(`ProductFactors.value_of`). Likewise a tree and its terms have the same value in
every abelian group (`sum_signedTerms`). The lists are complete: what can be taken
apart has been, down to parts of the tree (`flattening_exact`).
-/

namespace SlopeField

universe u v

variable {α : Type} {K : Type u} {G : Type v}

def negateIf [Neg G] (negative : Bool) (a : G) : G := if negative then -a else a

@[simp] theorem negateIf_false [Neg G] (a : G) : negateIf false a = a := rfl

@[simp] theorem negateIf_not [InvolutiveNeg G] (b : Bool) (a : G) :
    negateIf (!b) a = -negateIf b a := by
  cases b <;> simp [negateIf]

theorem negateIf_bne_mul [Mul K] [HasDistribNeg K] (b c : Bool) (a d : K) :
    negateIf (b != c) (a * d) = negateIf b a * negateIf c d := by
  cases b <;> cases c <;> simp [negateIf]

theorem negateIf_inv [DivisionRing K] (b : Bool) (a : K) :
    negateIf b a⁻¹ = (negateIf b a)⁻¹ := by
  cases b <;> simp [negateIf, inv_neg]

namespace Expr

def isFraction : Expr α → Bool
  | .bin .mul _ _ | .bin .div _ _ | .neg _ => true
  | _ => false

def isSum : Expr α → Bool
  | .bin .add _ _ | .bin .sub _ _ | .neg _ => true
  | _ => false

section
variable {op : BinOp} {e l r : Expr α}

theorem mem_parts_left (h : e ∈ l.parts) : e ∈ (bin op l r).parts := by simp [parts, h]

theorem mem_parts_right (h : e ∈ r.parts) : e ∈ (bin op l r).parts := by simp [parts, h]

end

/-- The value of the tree in a field, where `leaf` is the value of every node that
is not a product, a quotient or a negation. -/
def fractionValue [Field K] (leaf : Expr α → K) : Expr α → K
  | .bin .mul l r => l.fractionValue leaf * r.fractionValue leaf
  | .bin .div l r => l.fractionValue leaf / r.fractionValue leaf
  | .neg e => -e.fractionValue leaf
  | e => leaf e

/-- The value of the tree in an abelian group, where `leaf` is the value of every
node that is not a sum, a difference or a negation. -/
def sumValue [AddCommGroup G] (leaf : Expr α → G) : Expr α → G
  | .bin .add l r => l.sumValue leaf + r.sumValue leaf
  | .bin .sub l r => l.sumValue leaf - r.sumValue leaf
  | .neg e => -e.sumValue leaf
  | e => leaf e

end Expr

-- ---------------------------------------------------------------------------
-- Factors
-- ---------------------------------------------------------------------------

namespace ProductFactors

section
variable [Field K] (leaf : Expr α → K) (p q : ProductFactors α)

def value : K :=
  negateIf p.negative ((p.numerator.map leaf).prod * ((p.denominator.map leaf).prod)⁻¹)

theorem value_mul : (p.mul q).value leaf = p.value leaf * q.value leaf := by
  rw [value, value, value, ← negateIf_bne_mul, mul_mul_mul_comm, ← mul_inv, ← List.prod_append,
    ← List.prod_append, ← List.map_append, ← List.map_append]
  rfl

theorem value_inverse : p.inverse.value leaf = (p.value leaf)⁻¹ := by
  simp only [value, inverse, ← negateIf_inv, mul_inv, inv_inv, mul_comm]

theorem value_neg : p.neg.value leaf = -p.value leaf := by
  simp only [value, neg, negateIf_not]

theorem value_single (e : Expr α) : value leaf { numerator := [e] } = leaf e := by
  simp [value]

theorem value_of (e : Expr α) : (of e).value leaf = e.fractionValue leaf := by
  fun_induction of e with
  | case1 l r ihl ihr => rw [value_mul, ihl, ihr, Expr.fractionValue]
  | case2 l r ihl ihr =>
    rw [value_mul, value_inverse, ihl, ihr, Expr.fractionValue, div_eq_mul_inv]
  | case3 e ih => rw [value_neg, ih, Expr.fractionValue]
  | case4 e hmul hdiv hneg => rw [value_single, Expr.fractionValue.eq_4 leaf e hmul hdiv hneg]

end

section
variable {e f : Expr α} {p q : ProductFactors α}

theorem mem_factors_mul : f ∈ (p.mul q).factors ↔ f ∈ p.factors ∨ f ∈ q.factors := by
  simp only [mem_factors, mul, List.mem_append]
  exact or_or_or_comm

theorem mem_factors_inverse : f ∈ p.inverse.factors ↔ f ∈ p.factors := by
  simp only [mem_factors, inverse]
  exact or_comm

theorem of_mem_factors (h : f ∈ (of e).factors) : f.isFraction = false ∧ f ∈ e.parts := by
  fun_induction of e with
  | case1 l r ihl ihr =>
    obtain h | h := mem_factors_mul.mp h
    · exact (ihl h).imp_right Expr.mem_parts_left
    · exact (ihr h).imp_right Expr.mem_parts_right
  | case2 l r ihl ihr =>
    obtain h | h := mem_factors_mul.mp h
    · exact (ihl h).imp_right Expr.mem_parts_left
    · rw [mem_factors_inverse] at h
      exact (ihr h).imp_right Expr.mem_parts_right
  | case3 e ih => exact (ih h).imp_right (List.mem_cons_of_mem _)
  | case4 e hmul hdiv hneg =>
    obtain rfl : f = e := List.mem_singleton.mp h
    exact ⟨Expr.isFraction.eq_4 f hmul hdiv hneg, Expr.self_mem_parts f⟩

end

end ProductFactors

-- ---------------------------------------------------------------------------
-- Terms
-- ---------------------------------------------------------------------------

def signedValue [Neg G] (leaf : Expr α → G) (t : Bool × Expr α) : G := negateIf t.1 (leaf t.2)

section
variable [AddCommGroup G] (leaf : Expr α → G)

theorem sum_flipped (ts : List (Bool × Expr α)) :
    ((ts.map fun (negative, t) => (!negative, t)).map (signedValue leaf)).sum =
      -(ts.map (signedValue leaf)).sum := by
  rw [List.sum_neg, List.map_map, List.map_map]
  refine congrArg List.sum (List.map_congr_left fun t _ => ?_)
  exact negateIf_not t.1 (leaf t.2)

theorem sum_signedTerms (e : Expr α) :
    ((signedTerms e).map (signedValue leaf)).sum = e.sumValue leaf := by
  fun_induction signedTerms e with
  | case1 l r ihl ihr => rw [List.map_append, List.sum_append, ihl, ihr, Expr.sumValue]
  | case2 l r ihl ihr =>
    rw [List.map_append, List.sum_append, sum_flipped, ihl, ihr, Expr.sumValue, sub_eq_add_neg]
  | case3 e ih => rw [sum_flipped, ih, Expr.sumValue]
  | case4 e hadd hsub hneg =>
    rw [Expr.sumValue.eq_4 leaf e hadd hsub hneg]
    exact List.sum_singleton

end

theorem of_mem_signedTerms {e : Expr α} {t : Bool × Expr α} (h : t ∈ signedTerms e) :
    t.2.isSum = false ∧ t.2 ∈ e.parts := by
  fun_induction signedTerms e generalizing t with
  | case1 l r ihl ihr =>
    obtain h | h := List.mem_append.mp h
    · exact (ihl h).imp_right Expr.mem_parts_left
    · exact (ihr h).imp_right Expr.mem_parts_right
  | case2 l r ihl ihr =>
    obtain h | h := List.mem_append.mp h
    · exact (ihl h).imp_right Expr.mem_parts_left
    · obtain ⟨u, hu, rfl⟩ := List.mem_map.mp h
      exact (ihr hu).imp_right Expr.mem_parts_right
  | case3 e ih =>
    obtain ⟨u, hu, rfl⟩ := List.mem_map.mp h
    exact (ih hu).imp_right (List.mem_cons_of_mem _)
  | case4 e hadd hsub hneg =>
    obtain rfl : t = (false, e) := List.mem_singleton.mp h
    exact ⟨Expr.isSum.eq_4 e hadd hsub hneg, Expr.self_mem_parts e⟩

-- ---------------------------------------------------------------------------
-- Both
-- ---------------------------------------------------------------------------

/-- The factors and the terms of a tree have its value under every reading of the
other nodes; they are parts of it, and none of them can be taken apart further. -/
theorem flattening_exact (e : Expr α) :
    (∀ (K : Type u) [Field K] (leaf : Expr α → K),
      e.fractionValue leaf = negateIf (ProductFactors.of e).negative
        (((ProductFactors.of e).numerator.map leaf).prod *
          (((ProductFactors.of e).denominator.map leaf).prod)⁻¹)) ∧
    (∀ f ∈ (ProductFactors.of e).factors, f.isFraction = false ∧ f ∈ e.parts) ∧
    (∀ (G : Type v) [AddCommGroup G] (leaf : Expr α → G),
      e.sumValue leaf =
        ((signedTerms e).map fun (negative, t) => negateIf negative (leaf t)).sum) ∧
    ∀ t ∈ signedTerms e, t.2.isSum = false ∧ t.2 ∈ e.parts :=
  ⟨fun _ _ leaf => (ProductFactors.value_of leaf e).symm, fun _ => ProductFactors.of_mem_factors,
    fun _ _ leaf => (sum_signedTerms leaf e).symm, fun _ => of_mem_signedTerms⟩

/-- The signs in `-(x / (-y / x))` and in `x - (-y - x)` cancel, and `y` ends up on
the other side. -/
theorem flattening_nested_signs :
    letI x : Expr Float := .var independent
    letI y : Expr Float := .var dependent
    letI quotient : Expr Float := .neg (.div x (.div (.neg y) x))
    letI difference : Expr Float := .sub x (.sub (.neg y) x)
    letI leaf : Expr Float → ℚ := fun e => if e.mentions independent then 3 else 2
    (ProductFactors.of quotient).negative = false ∧
    (ProductFactors.of quotient).numerator = [x, x] ∧
    (ProductFactors.of quotient).denominator = [y] ∧
    quotient.fractionValue leaf = 3 * (3 * 1) * (2 * 1)⁻¹ ∧
    (y.isFraction = false ∧ y ∈ quotient.parts) ∧
    signedTerms difference = [(false, x), (false, y), (false, x)] ∧
    difference.sumValue leaf = 3 + (2 + (3 + 0)) ∧
    y.isSum = false ∧ y ∈ difference.parts := by
  let x : Expr Float := .var independent
  let y : Expr Float := .var dependent
  obtain ⟨hquotient, hfactors, -⟩ := flattening_exact.{0, 0} (.neg (.div x (.div (.neg y) x)))
  obtain ⟨-, -, hdifference, hterms⟩ := flattening_exact.{0, 0} (.sub x (.sub (.neg y) x))
  have hbelow : y ∈ [x, x, y] := by simp
  have hterm : (false, y) ∈ [(false, x), (false, y), (false, x)] := by simp
  exact ⟨rfl, rfl, rfl, hquotient ℚ _, hfactors y hbelow, rfl, hdifference ℚ _, hterms _ hterm⟩

end SlopeField
