import SlopeField.Equation.Family
import SlopeField.Proofs.Expr.Leaves

/-!
# Variables of simplified trees

Simplifying, multiplying and adding bring in no variable. A negation, a sum, a
difference and a quotient by a tree without the variable lose none either.
-/

namespace SlopeField.Expr

variable {α : Type} {v : String} {e l r : Expr α}

theorem mentions_eq_false_iff :
    e.mentions v = false ↔ e.LeavesIn (· ≠ v) fun _ => True := by
  rw [leavesIn_iff, ← Bool.not_eq_true]
  constructor
  · intro h
    exact ⟨fun w hw hv => h (hv ▸ hw), fun _ _ => trivial⟩
  · rintro ⟨h, -⟩ hv
    exact h v hv rfl

theorem mentions_bin {op : BinOp} :
    (bin op l r).mentions v = false ↔ l.mentions v = false ∧ r.mentions v = false := by
  simp [mentions]

theorem ne_const_of_mentions (h : e.mentions v = true) (c : α) : e ≠ .const c := by
  rintro rfl
  cases h

theorem mentions_signed (h : e.mentions v = false) (negative : Bool) :
    (e.signed negative).mentions v = false := by
  cases negative <;> exact h

section
variable [Arithmetic α] {es : List (Expr α)}

theorem mentions_product (h : ∀ f ∈ es, f.mentions v = false) :
    (product es).mentions v = false :=
  mentions_eq_false_iff.mpr (.product trivial fun f hf => mentions_eq_false_iff.mp (h f hf))

theorem mentions_sum (h : ∀ f ∈ es, f.mentions v = false) : (sum es).mentions v = false :=
  mentions_eq_false_iff.mpr (.sum trivial fun f hf => mentions_eq_false_iff.mp (h f hf))

end

variable [Scalar α]

theorem simplifyMul_of_ne_const (hl : ∀ c, l ≠ .const c) (hr : ∀ c, r ≠ .const c) :
    simplifyMul l r = mul l r := simplifyMul.eq_3 l r hl hr

theorem simplifyDiv_of_not_const (h : ∀ a b, l = .const a → r ≠ .const b) :
    simplifyDiv l r = if r.isOne then l else if r.isMinusOne then simplifyNeg l
      else if l.isZero then .const (Arithmetic.ofNat 0) else div l r := simplifyDiv.eq_2 l r h

theorem simplifyPow_of_ne_const (h : ∀ c, l ≠ .const c) (r : Expr α) :
    simplifyPow l r = if r.isZero then .const (Arithmetic.ofNat 1)
      else if r.isOne then l else pow l r := simplifyPow.eq_2 l r fun a _ ha => (h a ha).elim

theorem mentions_simplify (h : e.mentions v = false) : e.simplify.mentions v = false :=
  mentions_eq_false_iff.mpr ((mentions_eq_false_iff.mp h).simplify .trivial)

-- ---------------------------------------------------------------------------
-- Variables that the operations keep
-- ---------------------------------------------------------------------------

theorem mentions_fold {a b value : α} {op : BinOp} :
    (fold value (.bin op (.const a) (.const b))).mentions v = false := by
  unfold fold
  split <;> rfl

theorem mentions_simplifyNeg : (simplifyNeg e).mentions v = e.mentions v := by
  fun_cases simplifyNeg e <;> rfl

theorem mentions_eq_false_of_isZero (h : e.isZero = true) : e.mentions v = false := by
  cases e with
  | const => rfl
  | _ => cases h

theorem isZero_of_mentions (h : e.mentions v = true) : e.isZero = false := by
  refine Bool.eq_false_iff.mpr fun h0 => ?_
  rw [mentions_eq_false_of_isZero h0] at h
  cases h

theorem isOne_of_mentions (h : e.mentions v = true) : e.isOne = false := by
  cases e with
  | const => cases h
  | _ => rfl

theorem isMinusOne_of_mentions (h : e.mentions v = true) : e.isMinusOne = false := by
  cases e with
  | const => cases h
  | _ => rfl

theorem mentions_simplifyAdd :
    (simplifyAdd l r).mentions v = (l.mentions v || r.mentions v) := by
  fun_cases simplifyAdd l r with
  | case1 => exact mentions_fold
  | case2 l r _ h => simp [mentions_eq_false_of_isZero h]
  | case3 l r _ _ h => simp [mentions_eq_false_of_isZero h]
  | case4 => rfl

theorem mentions_simplifySub :
    (simplifySub l r).mentions v = (l.mentions v || r.mentions v) := by
  fun_cases simplifySub l r with
  | case1 => exact mentions_fold
  | case2 l r _ h => simp [mentions_eq_false_of_isZero h]
  | case3 l r _ _ h => simp [mentions_eq_false_of_isZero h, mentions_simplifyNeg]
  | case4 => rfl

theorem mentions_simplifyDiv (hr : r.mentions v = false) :
    (simplifyDiv l r).mentions v = l.mentions v := by
  fun_cases simplifyDiv l r with
  | case1 => exact mentions_fold
  | case2 => rfl
  | case3 => exact mentions_simplifyNeg
  | case4 l r _ _ _ h => simp [mentions, mentions_eq_false_of_isZero h]
  | case5 => simp [mentions, hr]

end SlopeField.Expr
