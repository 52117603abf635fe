import SlopeField.Proofs.Expr.Normal

/-!
# Measures of a tree

The depth of a tree and its number of nodes have in common that a constant is
least, that every node counts, and that larger operands make a larger tree, on
either side (`IsMeasure`). Simplifying makes no such measure larger
(`IsMeasure.simplify_le`): a rule leaves a constant, an operand or its negation,
or a product with smaller factors.
-/

namespace SlopeField.Expr

variable {α : Type} {e l r : Expr α} {op : BinOp}

def size : Expr α → Nat
  | .var _ => 1
  | .const _ => 1
  | .neg e => e.size + 1
  | .func _ e => e.size + 1
  | .bin _ l r => l.size + r.size + 1

theorem size_pos (e : Expr α) : 0 < e.size := by
  cases e <;> simp [size]

theorem depth_pos (e : Expr α) : 0 < e.depth := by
  cases e <;> simp [depth]

/-- A measure that grows with every node and with every operand. -/
structure IsMeasure (m : Expr α → Nat) : Prop where
  const_le {c : α} {e : Expr α} : m (.const c) ≤ m e
  neg {e : Expr α} : m (.neg e) = m e + 1
  func {f : Fn} {e e' : Expr α} : m e ≤ m e' → m (.func f e) ≤ m (.func f e')
  bin {op : BinOp} {l l' r r' : Expr α} :
    m l ≤ m l' → m r ≤ m r' → m (.bin op l r) ≤ m (.bin op l' r')
  swap {op : BinOp} {l r : Expr α} : m (.bin op l r) ≤ m (.bin op r l)
  left_lt {op : BinOp} {l r : Expr α} : m l < m (.bin op l r)

theorem isMeasure_depth : IsMeasure (depth : Expr α → Nat) where
  const_le := depth_pos _
  neg := rfl
  func h := Nat.succ_le_succ h
  bin hl hr := by simp only [depth]; omega
  swap := by simp only [depth]; omega
  left_lt := by simp only [depth]; omega

theorem isMeasure_size : IsMeasure (size : Expr α → Nat) where
  const_le := size_pos _
  neg := rfl
  func h := Nat.succ_le_succ h
  bin hl hr := by simp only [size]; omega
  swap := by simp only [size]; omega
  left_lt := by simp only [size]; omega

namespace IsMeasure

variable {m : Expr α → Nat} (hm : IsMeasure m)
include hm

theorem right_lt : m r < m (.bin op l r) := Nat.lt_of_lt_of_le hm.left_lt hm.swap

variable [Scalar α] {c : α}

theorem fold_le {value : α} : m (fold value e) ≤ m e := by
  unfold fold
  split
  · exact hm.const_le
  · exact Nat.le_refl _

theorem simplifyNeg_le : m (simplifyNeg e) ≤ m (.neg e) := by
  rw [hm.neg]
  fun_cases simplifyNeg e with
  | case1 => exact Nat.le_succ_of_le hm.const_le
  | case2 e =>
    rw [hm.neg]
    omega
  | case3 => exact Nat.le_of_eq hm.neg

theorem simplifyNeg_left_le : m (simplifyNeg l) ≤ m (.bin op l r) :=
  Nat.le_trans hm.simplifyNeg_le (hm.neg ▸ hm.left_lt)

theorem simplifyNeg_right_le : m (simplifyNeg r) ≤ m (.bin op l r) :=
  Nat.le_trans hm.simplifyNeg_le (hm.neg ▸ hm.right_lt)

theorem scale_le : m (scale c e) ≤ m (.mul (.const c) e) := by
  fun_induction scale c e with
  | case1 => exact hm.fold_le
  | case2 | case7 => exact hm.const_le
  | case3 | case8 => exact Nat.le_of_lt hm.right_lt
  | case4 | case9 => exact hm.simplifyNeg_right_le
  | case5 _ _ _ _ _ _ _ _ ih =>
    -- The new factor is a constant again, and the quotient is gone.
    exact Nat.le_trans ih (hm.bin hm.const_le (Nat.le_of_lt hm.left_lt))
  | case6 | case10 => exact Nat.le_refl _

theorem scaleRight_le : m (scaleRight e c) ≤ m (.mul e (.const c)) := by
  fun_cases scaleRight e c with
  | case1 => exact hm.const_le
  | case2 => exact Nat.le_of_lt hm.left_lt
  | case3 => exact hm.simplifyNeg_left_le
  | case4 =>
    -- The factor changes sides here.
    refine Nat.le_trans hm.scale_le (Nat.le_trans hm.swap ?_)
    exact hm.bin (Nat.le_of_lt hm.left_lt) hm.const_le
  | case5 | case6 => exact Nat.le_refl _

theorem simplifyBin_le : m (simplifyBin op l r) ≤ m (.bin op l r) := by
  cases op with
  | add =>
    simp only [simplifyBin]
    fun_cases simplifyAdd l r with
    | case1 => exact hm.fold_le
    | case2 => exact Nat.le_of_lt hm.left_lt
    | case3 => exact Nat.le_of_lt hm.right_lt
    | case4 => exact Nat.le_refl _
  | sub =>
    simp only [simplifyBin]
    fun_cases simplifySub l r with
    | case1 => exact hm.fold_le
    | case2 => exact Nat.le_of_lt hm.left_lt
    | case3 => exact hm.simplifyNeg_right_le
    | case4 => exact Nat.le_refl _
  | mul =>
    simp only [simplifyBin]
    fun_cases simplifyMul l r with
    | case1 => exact hm.scale_le
    | case2 => exact hm.scaleRight_le
    | case3 => exact Nat.le_refl _
  | div =>
    simp only [simplifyBin]
    fun_cases simplifyDiv l r with
    | case1 => exact hm.fold_le
    | case2 => exact Nat.le_of_lt hm.left_lt
    | case3 => exact hm.simplifyNeg_left_le
    | case4 => exact hm.const_le
    | case5 => exact Nat.le_refl _
  | pow =>
    simp only [simplifyBin]
    fun_cases simplifyPow l r with
    | case1 => exact hm.fold_le
    | case2 => exact hm.const_le
    | case3 => exact Nat.le_of_lt hm.left_lt
    | case4 => exact Nat.le_refl _

theorem simplify_le (e : Expr α) : m e.simplify ≤ m e := by
  induction e with
  | var | const => exact Nat.le_refl _
  | neg e ih =>
    refine Nat.le_trans hm.simplifyNeg_le ?_
    rw [hm.neg, hm.neg]
    exact Nat.succ_le_succ ih
  | func _ _ ih => exact hm.func ih
  | bin _ _ _ ihl ihr => exact Nat.le_trans hm.simplifyBin_le (hm.bin ihl ihr)

end IsMeasure

end SlopeField.Expr
