import SlopeField.Expr.Eval
import SlopeField.Proofs.Expr.Leaves
import SlopeField.Proofs.Expr.Measure

/-!
# Trees without a redex

`Redex e` holds if a rule of the simplifier applies to `e` at its root; it lists
the left-hand sides of the rules and does not run them. Each rule takes nodes
away (`size_simplifyBin_lt`), so a tree that the simplifier leaves alone has no
redex in any part. A simplified tree is one that it leaves alone, whatever the
scalars are (`simplify_simplify`).
-/

namespace SlopeField.Expr

variable {α : Type}

/-- The operands are not both constants. Two constants are folded or stay as they
are; no identity is tried on them. -/
def Mixed (l r : Expr α) : Prop := ∀ a b, l = .const a → r = .const b → False

def IsTrivial [Scalar α] (e : Expr α) : Prop :=
  e.isZero = true ∨ e.isOne = true ∨ e.isMinusOne = true

/-- A rule applies to the tree at its root. -/
inductive Redex [Scalar α] : Expr α → Prop
  | negConst : Redex (.neg (.const c))
  | negNeg : Redex (.neg (.neg e))
  | fold : Arithmetic.isFinite (BinOp.apply op a b) = true →
      Redex (.bin op (.const a) (.const b))
  | add : Mixed l r → l.isZero = true ∨ r.isZero = true → Redex (.add l r)
  | sub : Mixed l r → l.isZero = true ∨ r.isZero = true → Redex (.sub l r)
  | mul : Mixed l r → l.IsTrivial ∨ r.IsTrivial → Redex (.mul l r)
  | scaleLeft : Scalar.substantial b = true → Arithmetic.isFinite (c / b) = true →
      Redex (.mul (.const c) (.div e (.const b)))
  | scaleRight : Scalar.substantial b = true → Arithmetic.isFinite (c / b) = true →
      Redex (.mul (.div e (.const b)) (.const c))
  | div : Mixed l r → l.isZero = true ∨ r.isOne = true ∨ r.isMinusOne = true → Redex (.div l r)
  | pow : Mixed l r → r.isZero = true ∨ r.isOne = true → Redex (.pow l r)

variable {e l r : Expr α} {op : BinOp}

theorem size_left_lt : l.size < (bin op l r).size := isMeasure_size.left_lt

theorem size_right_lt : r.size < (bin op l r).size := isMeasure_size.right_lt

theorem one_lt_size_bin : 1 < (bin op l r).size := Nat.lt_of_le_of_lt (size_pos l) size_left_lt

theorem mixed_of_mentions {v : String} (h : (bin op l r).mentions v = true) : Mixed l r := by
  rintro a b rfl rfl
  cases h

variable [Scalar α] {a b c : α}

theorem IsTrivial.exists_const (h : e.IsTrivial) : ∃ c, e = .const c := by
  cases e with
  | const c => exact ⟨c, rfl⟩
  | _ => simp [IsTrivial, isZero, isOne, isMinusOne] at h

theorem IsTrivial.absurd (h : e.IsTrivial) (h0 : ¬e.isZero = true) (h1 : ¬e.isOne = true)
    (h2 : ¬e.isMinusOne = true) : False := h.elim h0 fun h => h.elim h1 h2

-- ---------------------------------------------------------------------------
-- Nodes that the rules take away
-- ---------------------------------------------------------------------------

theorem size_simplifyNeg_le : (simplifyNeg e).size ≤ e.size + 1 := isMeasure_size.simplifyNeg_le

theorem size_simplifyNeg_left_lt : (simplifyNeg l).size < (bin op l r).size := by
  have hneg := size_simplifyNeg_le (e := l)
  have hr := size_pos r
  simp only [size]
  omega

theorem size_simplifyNeg_right_lt : (simplifyNeg r).size < (bin op l r).size := by
  have hleft : (simplifyNeg r).size < (bin op r l).size := size_simplifyNeg_left_lt
  exact Nat.lt_of_lt_of_le hleft isMeasure_size.swap

theorem size_scale_le : (scale c e).size ≤ (Expr.mul (.const c) e).size := isMeasure_size.scale_le

theorem size_scale_lt (h : (const c).IsTrivial) (he : ∀ b, e ≠ .const b) :
    (scale c e).size < (Expr.mul (.const c) e).size := by
  fun_cases scale c e with
  | case1 b => exact (he b rfl).elim
  | case2 | case7 => exact one_lt_size_bin
  | case3 | case8 => exact size_right_lt
  | case4 | case9 => exact size_simplifyNeg_right_lt
  | case5 _ _ h0 h1 h2 => exact (h.absurd h0 h1 h2).elim
  | case6 _ _ _ h0 h1 h2 => exact (h.absurd h0 h1 h2).elim
  | case10 _ _ _ h0 h1 h2 => exact (h.absurd h0 h1 h2).elim

theorem size_scaleRight_lt (h : (const c).IsTrivial) :
    (scaleRight e c).size < (Expr.mul e (.const c)).size := by
  fun_cases scaleRight e c with
  | case1 => exact one_lt_size_bin
  | case2 => exact size_left_lt
  | case3 => exact size_simplifyNeg_left_lt
  | case4 h0 h1 h2 | case5 h0 h1 h2 => exact (h.absurd h0 h1 h2).elim
  | case6 _ h0 h1 h2 => exact (h.absurd h0 h1 h2).elim

theorem size_scale_quotient_lt (hb : Scalar.substantial b = true)
    (hf : Arithmetic.isFinite (c / b) = true) :
    (scale c (Expr.div e (.const b))).size < (Expr.mul (.const c) (.div e (.const b))).size := by
  by_cases h : (const c).IsTrivial
  · exact size_scale_lt h nofun
  · simp only [IsTrivial, not_or] at h
    have hle := size_scale_le (c := c / b) (e := e)
    rw [scale.eq_2, if_neg h.1, if_neg h.2.1, if_neg h.2.2,
      quotientFactor?_eq_some.mpr ⟨⟨hb, hf⟩, rfl⟩]
    simp only [size] at hle ⊢
    omega

theorem size_scaleRight_quotient_lt (hb : Scalar.substantial b = true)
    (hf : Arithmetic.isFinite (c / b) = true) :
    (scaleRight (Expr.div e (.const b)) c).size <
      (Expr.mul (.div e (.const b)) (.const c)).size := by
  by_cases h : (const c).IsTrivial
  · exact size_scaleRight_lt h
  · simp only [IsTrivial, not_or] at h
    have hle := size_scale_le (c := c / b) (e := e)
    rw [scaleRight, if_neg h.1, if_neg h.2.1, if_neg h.2.2]
    simp only [quotientFactor?_eq_some.mpr ⟨⟨hb, hf⟩, rfl⟩, size] at hle ⊢
    omega

theorem size_simplifyMul_lt (hm : Mixed l r) (h : l.IsTrivial ∨ r.IsTrivial) :
    (simplifyMul l r).size < (Expr.mul l r).size := by
  fun_cases simplifyMul l r with
  | case1 c r =>
    have hr (b : α) : r ≠ .const b := hm c b rfl
    refine size_scale_lt (h.resolve_right fun htrivial => ?_) hr
    obtain ⟨b, hb⟩ := htrivial.exists_const
    exact hr b hb
  | case2 l c hl =>
    refine size_scaleRight_lt (h.resolve_left fun htrivial => ?_)
    obtain ⟨a, ha⟩ := htrivial.exists_const
    exact hl a ha
  | case3 l r hl hr =>
    obtain htrivial | htrivial := h
    · obtain ⟨a, ha⟩ := htrivial.exists_const
      exact (hl a ha).elim
    · obtain ⟨b, hb⟩ := htrivial.exists_const
      exact (hr b hb).elim

theorem simplifyBin_const (op : BinOp) (a b : α) :
    simplifyBin op (.const a) (.const b) =
      Expr.fold (op.apply a b) (.bin op (.const a) (.const b)) := by
  cases op <;> rfl

theorem size_simplifyBin_lt (h : Redex (.bin op l r)) :
    (simplifyBin op l r).size < (bin op l r).size := by
  cases h with
  | fold hf =>
    rw [simplifyBin_const, Expr.fold, if_pos hf]
    exact one_lt_size_bin
  | add hm h0 =>
    rw [simplifyBin, simplifyAdd.eq_2 _ _ hm]
    split
    · exact size_left_lt
    · rename_i hr
      rw [if_pos (h0.resolve_right hr)]
      exact size_right_lt
  | sub hm h0 =>
    rw [simplifyBin, simplifySub.eq_2 _ _ hm]
    split
    · exact size_left_lt
    · rename_i hr
      rw [if_pos (h0.resolve_right hr)]
      exact size_simplifyNeg_right_lt
  | mul hm h => exact size_simplifyMul_lt hm h
  | scaleLeft hb hf => exact size_scale_quotient_lt hb hf
  | scaleRight hb hf => exact size_scaleRight_quotient_lt hb hf
  | div hm h =>
    rw [simplifyBin, simplifyDiv.eq_2 _ _ hm]
    split
    · exact size_left_lt
    · split
      · exact size_simplifyNeg_left_lt
      · rename_i h1 h2
        rw [if_pos (h.resolve_right fun h => h.elim h1 h2)]
        exact one_lt_size_bin
  | pow hm h =>
    rw [simplifyBin, simplifyPow.eq_2 _ _ hm]
    split
    · exact one_lt_size_bin
    · rename_i h0
      rw [if_pos (h.resolve_left h0)]
      exact size_left_lt

-- ---------------------------------------------------------------------------
-- Normal trees
-- ---------------------------------------------------------------------------

theorem IsNormal.not_redex (h : e.IsNormal) : ∀ p ∈ e.parts, ¬Redex p := by
  induction e with
  | var | const =>
    intro p hp hredex
    obtain rfl := List.mem_singleton.mp hp
    cases hredex
  | neg e ih =>
    refine List.forall_mem_cons.mpr ⟨fun hredex => ?_, ih h.1⟩
    -- Both rules for a negation take it away, and here it stays.
    have hstays := h.2
    cases hredex with
    | negConst => cases hstays
    | @negNeg e =>
      have hsize := congrArg size hstays
      simp only [simplifyNeg, size] at hsize
      omega
  | func f e ih =>
    refine List.forall_mem_cons.mpr ⟨fun hredex => ?_, ih h⟩
    cases hredex
  | bin op l r ihl ihr =>
    refine List.forall_mem_cons.mpr ⟨fun hredex => ?_, ?_⟩
    · have hlt := size_simplifyBin_lt hredex
      rw [h.2.2] at hlt
      exact Nat.lt_irrefl _ hlt
    · exact List.forall_mem_append.mpr ⟨ihl h.1, ihr h.2.1⟩

/-- A simplified tree has no redex, and simplifying it again changes nothing. -/
theorem simplify_simplify (e : Expr α) :
    e.simplify.simplify = e.simplify ∧ ∀ p ∈ e.simplify.parts, ¬Redex p := by
  have hnormal := simplify_isNormal e
  exact ⟨simplify_of_isNormal hnormal, hnormal.not_redex⟩

end SlopeField.Expr
