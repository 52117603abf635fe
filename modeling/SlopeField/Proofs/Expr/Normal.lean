import SlopeField.Expr.Simplify

/-!
# Normal forms

A tree is normal if no rule of the simplifier applies anywhere in it. The
simplifier gives a normal tree (`simplify_isNormal`) and leaves a normal tree
as it is (`simplify_of_isNormal`), whatever the scalars are.
-/

namespace SlopeField.Expr

variable {α : Type} [Scalar α] {e l r : Expr α} {c : α}

def IsNormal : Expr α → Prop
  | .var _ => True
  | .const _ => True
  | .neg e => e.IsNormal ∧ simplifyNeg e = .neg e
  | .func _ e => e.IsNormal
  | .bin op l r => l.IsNormal ∧ r.IsNormal ∧ simplifyBin op l r = .bin op l r

theorem simplify_of_isNormal (h : e.IsNormal) : e.simplify = e := by
  induction e with
  | var | const => rfl
  | neg _ ih => rw [simplify, ih h.1, h.2]
  | func _ _ ih => rw [simplify, ih h]
  | bin _ _ _ ihl ihr => rw [simplify, ihl h.1, ihr h.2.1, h.2.2]

theorem simplifyNeg_isNormal (h : e.IsNormal) : (simplifyNeg e).IsNormal := by
  fun_cases simplifyNeg e with
  | case1 => trivial
  | case2 => exact h.1
  | case3 e hc hn =>
    refine ⟨h, ?_⟩
    cases e with
    | const c => exact (hc c rfl).elim
    | neg e => exact (hn e rfl).elim
    | _ => rfl

-- The operations. A case that builds the operation itself has refused every
-- rule, so building it once more refuses them again.

theorem fold_isNormal {op : BinOp} {a b value : α}
    (h : simplifyBin op (.const a) (.const b) = fold value (.bin op (.const a) (.const b))) :
    (fold value (.bin op (.const a) (.const b))).IsNormal := by
  by_cases hf : Arithmetic.isFinite value = true
  · rw [fold, if_pos hf]
    trivial
  · rw [fold, if_neg hf] at h ⊢
    exact ⟨trivial, trivial, h⟩

theorem simplifyAdd_isNormal (hl : l.IsNormal) (hr : r.IsNormal) :
    (simplifyAdd l r).IsNormal := by
  fun_cases simplifyAdd l r with
  | case1 => exact fold_isNormal rfl
  | case2 => exact hl
  | case3 => exact hr
  | case4 l r hc h0 h1 =>
    refine ⟨hl, hr, ?_⟩
    rw [simplifyBin, simplifyAdd.eq_2 l r hc, if_neg h0, if_neg h1]

theorem simplifySub_isNormal (hl : l.IsNormal) (hr : r.IsNormal) :
    (simplifySub l r).IsNormal := by
  fun_cases simplifySub l r with
  | case1 => exact fold_isNormal rfl
  | case2 => exact hl
  | case3 => exact simplifyNeg_isNormal hr
  | case4 l r hc h0 h1 =>
    refine ⟨hl, hr, ?_⟩
    rw [simplifyBin, simplifySub.eq_2 l r hc, if_neg h0, if_neg h1]

theorem simplifyDiv_isNormal (hl : l.IsNormal) (hr : r.IsNormal) :
    (simplifyDiv l r).IsNormal := by
  fun_cases simplifyDiv l r with
  | case1 => exact fold_isNormal rfl
  | case2 => exact hl
  | case3 => exact simplifyNeg_isNormal hl
  | case4 => trivial
  | case5 l r hc h1 h2 h0 =>
    refine ⟨hl, hr, ?_⟩
    rw [simplifyBin, simplifyDiv.eq_2 l r hc, if_neg h1, if_neg h2, if_neg h0]

theorem simplifyPow_isNormal (hl : l.IsNormal) (hr : r.IsNormal) :
    (simplifyPow l r).IsNormal := by
  fun_cases simplifyPow l r with
  | case1 => exact fold_isNormal rfl
  | case2 => trivial
  | case3 => exact hl
  | case4 l r hc h0 h1 =>
    refine ⟨hl, hr, ?_⟩
    rw [simplifyBin, simplifyPow.eq_2 l r hc, if_neg h0, if_neg h1]

theorem quotientFactor?_eq_some {b d : α} :
    quotientFactor? c b = some d ↔
      (Scalar.substantial b = true ∧ Arithmetic.isFinite (c / b) = true) ∧ c / b = d := by
  simp [quotientFactor?]

theorem scale_isNormal (h : e.IsNormal) : (scale c e).IsNormal := by
  fun_induction scale c e with
  | case1 => exact fold_isNormal rfl
  | case2 | case7 => trivial
  | case3 | case8 => exact h
  | case4 | case9 => exact simplifyNeg_isNormal h
  | case5 _ _ _ _ _ _ _ _ ih => exact ih h.1
  | case6 c num b whole h0 h1 h2 hq =>
    refine ⟨trivial, h, ?_⟩
    simp only [simplifyBin, simplifyMul, whole]
    rw [scale.eq_2]
    simp only [if_neg h0, if_neg h1, if_neg h2, hq]
  | case10 c e hc hd h0 h1 h2 =>
    refine ⟨trivial, h, ?_⟩
    simp only [simplifyBin, simplifyMul]
    rw [scale.eq_3 c e hc hd, if_neg h0, if_neg h1, if_neg h2]

theorem scaleRight_isNormal (hc : ∀ a, e ≠ .const a) (h : e.IsNormal) :
    (scaleRight e c).IsNormal := by
  have hmul : simplifyMul e (.const c) = scaleRight e c := by
    cases e with
    | const a => exact (hc a rfl).elim
    | _ => rfl
  fun_cases scaleRight e c with
  | case1 => trivial
  | case2 => exact h
  | case3 => exact simplifyNeg_isNormal h
  | case4 => exact scale_isNormal h.1
  | case5 h0 h1 h2 num b hq =>
    refine ⟨h, trivial, hmul.trans ?_⟩
    unfold scaleRight
    simp only [if_neg h0, if_neg h1, if_neg h2, hq]
  | case6 e h0 h1 h2 hd =>
    refine ⟨h, trivial, hmul.trans ?_⟩
    unfold scaleRight
    simp only [if_neg h0, if_neg h1, if_neg h2]

theorem simplifyMul_isNormal (hl : l.IsNormal) (hr : r.IsNormal) :
    (simplifyMul l r).IsNormal := by
  fun_cases simplifyMul l r with
  | case1 => exact scale_isNormal hr
  | case2 l c hc => exact scaleRight_isNormal hc hl
  | case3 l r hc hd => exact ⟨hl, hr, simplifyMul.eq_3 l r hc hd⟩

theorem simplifyBin_isNormal (op : BinOp) (hl : l.IsNormal) (hr : r.IsNormal) :
    (simplifyBin op l r).IsNormal := by
  cases op with
  | add => exact simplifyAdd_isNormal hl hr
  | sub => exact simplifySub_isNormal hl hr
  | mul => exact simplifyMul_isNormal hl hr
  | div => exact simplifyDiv_isNormal hl hr
  | pow => exact simplifyPow_isNormal hl hr

theorem simplify_isNormal (e : Expr α) : e.simplify.IsNormal := by
  induction e with
  | var | const => trivial
  | neg _ ih => exact simplifyNeg_isNormal ih
  | func _ _ ih => exact ih
  | bin op _ _ ihl ihr => exact simplifyBin_isNormal op ihl ihr

end SlopeField.Expr
