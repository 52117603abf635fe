import SlopeField.Binary64
import SlopeField.Equation.Solve
import SlopeField.Proofs.Expr.Leaves
import SlopeField.Proofs.Expr.Measure
import SlopeField.Proofs.Token.Steps

/-!
# The depth of a tree

Simplifying makes no tree deeper (`depth_simplify_le`), and integrating adds at
most four levels (`depth_of_integrate`). The depth that is kept with each operand
while a tree is built is that of its tree, so a tree that is read is no deeper
than `maxDepth` (`depth_of_parse`). Folding trees into a chain adds a level for
each.
-/

namespace SlopeField

theorem le_foldr_max {β : Type} {x : β} {xs : List β} {least : Nat} (f : β → Nat) (h : x ∈ xs) :
    f x ≤ xs.foldr (fun y m => max (f y) m) least := by
  induction h with
  | head => exact Nat.le_max_left _ _
  | tail _ _ ih => exact Nat.le_trans ih (Nat.le_max_right _ _)

variable {α : Type}

namespace Expr

variable {e l r : Expr α} {op : BinOp}

@[simp] theorem depth_const_bin (op : BinOp) (c : α) (e : Expr α) :
    (bin op (.const c) e).depth = e.depth + 1 :=
  congrArg (· + 1) (Nat.max_eq_right (depth_pos e))

@[simp] theorem depth_bin_const (op : BinOp) (c : α) (e : Expr α) :
    (bin op e (.const c)).depth = e.depth + 1 :=
  congrArg (· + 1) (Nat.max_eq_left (depth_pos e))

def deepest (es : List (Expr α)) : Nat := es.foldr (fun e d => max e.depth d) 1

theorem deepest_pos (es : List (Expr α)) : 0 < deepest es := by
  induction es with
  | nil => exact Nat.one_pos
  | cons e es ih => exact Nat.lt_of_lt_of_le ih (Nat.le_max_right _ _)

theorem depth_le_deepest {es : List (Expr α)} (h : e ∈ es) : e.depth ≤ deepest es :=
  le_foldr_max depth h

theorem deepest_le {es : List (Expr α)} {d : Nat} (hd : 0 < d) (h : ∀ e ∈ es, e.depth ≤ d) :
    deepest es ≤ d := by
  induction es with
  | nil => exact hd
  | cons e es ih =>
    exact Nat.max_le.mpr ⟨h e (by simp), ih fun f hf => h f (by simp [hf])⟩

-- ---------------------------------------------------------------------------
-- Chains
-- ---------------------------------------------------------------------------

theorem depth_signed_le (e : Expr α) (negative : Bool) :
    (e.signed negative).depth ≤ e.depth + 1 := by
  cases negative
  · exact Nat.le_succ _
  · exact Nat.le_refl _

section
variable {es : List (Expr α)} {d : Nat}

theorem depth_foldl_le (he : e.depth ≤ d) (h : ∀ f ∈ es, f.depth ≤ d) :
    (es.foldl (.bin op) e).depth ≤ d + es.length := by
  induction es generalizing e d with
  | nil => exact he
  | cons f es ih =>
    have hbin : (bin op e f).depth ≤ d + 1 :=
      Nat.succ_le_succ (Nat.max_le.mpr ⟨he, h f (by simp)⟩)
    have hchain := ih hbin fun g hg => Nat.le_succ_of_le (h g (by simp [hg]))
    simp only [List.foldl_cons, List.length_cons]
    omega

section
variable (hd : 0 < d) (h : ∀ f ∈ es, f.depth ≤ d)
include hd h

theorem depth_chain_le {chain : List (Expr α) → Expr α} {unit : α} (hnil : chain [] = .const unit)
    (hcons : ∀ e es, chain (e :: es) = es.foldl (.bin op) e) :
    (chain es).depth ≤ d + (es.length - 1) := by
  cases es with
  | nil => exact hnil ▸ hd
  | cons e es => exact hcons e es ▸ depth_foldl_le (h e (by simp)) fun f hf => h f (by simp [hf])

variable [Arithmetic α]

theorem depth_product_le : (product es).depth ≤ d + (es.length - 1) :=
  depth_chain_le hd h rfl fun _ _ => rfl

theorem depth_sum_le : (sum es).depth ≤ d + (es.length - 1) :=
  depth_chain_le hd h rfl fun _ _ => rfl

end

end

theorem depth_simplify_le [Scalar α] (e : Expr α) : e.simplify.depth ≤ e.depth :=
  isMeasure_depth.simplify_le e

-- ---------------------------------------------------------------------------
-- Integrating
-- ---------------------------------------------------------------------------

theorem depth_bin_le {op' : BinOp} {l' r' : Expr α} {k : Nat} (hl : l'.depth ≤ l.depth + k)
    (hr : r'.depth ≤ r.depth + k) : (bin op' l' r').depth ≤ (bin op l r).depth + k := by
  simp only [depth]
  omega

section
variable [Scalar α] {v : String} {F : Expr α}

theorem IsAntiderivative.depth_le (h : IsAntiderivative v e F) : F.depth ≤ e.depth + 4 := by
  induction h with
  | neg _ ih => exact Nat.succ_le_succ ih
  | add _ _ ihl ihr | sub _ _ ihl ihr => exact depth_bin_le ihl ihr
  | scaleLeft _ _ ih => exact depth_bin_le (Nat.le_add_right _ 4) ih
  | scaleRight _ _ ih =>
    -- The factor without the variable comes first, so the operands change sides.
    exact Nat.le_trans (depth_bin_le (Nat.le_add_right _ 4) ih)
      (Nat.add_le_add_right isMeasure_depth.swap 4)
  | divide _ _ ih => exact depth_bin_le ih (Nat.le_add_right _ 4)
  -- The only rule that adds all four levels.
  | tan => exact Nat.le_of_eq (depth_bin_const _ _ _)
  | free | var | log | logAffine | logPower | power | exp | sin | cos =>
    simp only [depth, lnAbs]
    omega

theorem depth_of_integrate (h : e.integrate v = .ok F) : F.depth ≤ e.depth + 4 := by
  obtain ⟨G, hG, rfl⟩ := isAntiderivative_of_integrate h
  exact Nat.le_trans (depth_simplify_le G) hG.depth_le

theorem mentions_of_integrate (h : e.integrate v = .ok F) {w : String}
    (hw : F.mentions w = true) : w = v ∨ e.mentions w = true := by
  have hself : e.LeavesIn (fun w => w = v ∨ e.mentions w = true) fun _ => True :=
    leavesIn_iff.mpr ⟨fun _ => .inr, fun _ _ => trivial⟩
  have hF := hself.integrate .trivial (.inl rfl) h fun _ _ _ _ => trivial
  exact (leavesIn_iff.mp hF).1 w hw

/-- An antiderivative has at most four levels more than the integrand, and no
variable but those of the integrand and the one of integration. -/
theorem integrate_depth_variables (h : e.integrate v = .ok F) :
    F.depth ≤ e.depth + 4 ∧ ∀ w, F.mentions w = true → w = v ∨ e.mentions w = true :=
  ⟨depth_of_integrate h, fun _ => mentions_of_integrate h⟩

end

/-- A tangent with a factor reaches the bound. -/
theorem integrate_depth_variables_tangent :
    letI line : Expr Float := .add (.mul (.const 2) (.var "x")) (.var "y")
    letI e : Expr Float := .mul (.var "y") (.func .tan line)
    letI F : Expr Float := .mul (.var "y") (.div (.neg (lnAbs (.func .cos line))) (.const 2))
    e.integrate "x" = .ok F ∧ F.depth = e.depth + 4 ∧
      ∀ w, F.mentions w = true → w = "x" ∨ e.mentions w = true := by
  have h : integrate (α := Float) (.mul (.var "y")
      (.func .tan (.add (.mul (.const 2) (.var "x")) (.var "y")))) "x" =
      .ok (.mul (.var "y") (.div (.neg (lnAbs (.func .cos
        (.add (.mul (.const 2) (.var "x")) (.var "y"))))) (.const 2))) :=
    toOption_eq_some.mp (by decide +kernel)
  obtain ⟨hdepth, hvariables⟩ := integrate_depth_variables h
  exact ⟨h, Nat.le_antisymm hdepth (by decide), hvariables⟩

end Expr

-- ---------------------------------------------------------------------------
-- Reading
-- ---------------------------------------------------------------------------

structure Operand.Measured (o : Operand α) : Prop where
  depth : o.depth = o.tree.depth
  bounded : o.depth ≤ maxDepth

variable [Numeral α]

theorem Operand.measured_of_step {st st' : List (Operand α)} {t : Token α}
    (hst : ∀ o ∈ st, o.Measured) (h : step st t = .ok st') : ∀ o ∈ st', o.Measured := by
  have hleaf : 1 ≤ maxDepth := by decide
  cases takes_of_step h with
  | number | var => exact List.forall_mem_cons.mpr ⟨⟨rfl, hleaf⟩, hst⟩
  | neg hd | func hd =>
    obtain ⟨ha, hst⟩ := List.forall_mem_cons.mp hst
    exact List.forall_mem_cons.mpr ⟨⟨congrArg (· + 1) ha.depth, hd⟩, hst⟩
  | op hd =>
    obtain ⟨hr, hst⟩ := List.forall_mem_cons.mp hst
    obtain ⟨hl, hst⟩ := List.forall_mem_cons.mp hst
    exact List.forall_mem_cons.mpr ⟨⟨by simp [Expr.depth, hl.depth, hr.depth], hd⟩, hst⟩

theorem Operand.measured_of_foldlM {ts : List (Token α)} {st : List (Operand α)}
    (h : ts.foldlM step [] = .ok st) : ∀ o ∈ st, o.Measured :=
  foldlM_invariant (fun st => ∀ o ∈ st, o.Measured)
    (fun _ _ _ _ hin hstep => measured_of_step hin hstep) (by simp) h

theorem depth_of_reducePostfix {ts : List (Token α)} {e : Expr α}
    (h : reducePostfix ts = .ok e) : e.depth ≤ maxDepth := by
  obtain ⟨st, hst, h⟩ := bind_eq_ok.mp h
  have hall := Operand.measured_of_foldlM hst
  split at h
  · cases h
    have hmeasured := hall _ (List.mem_singleton.mpr rfl)
    exact hmeasured.depth ▸ hmeasured.bounded
  · cases h

variable [Scalar α] {text : String} {e : Expr α}

theorem depth_of_parse (h : Expr.parse text = .ok e) : e.depth ≤ maxDepth := by
  obtain ⟨e, hread, h⟩ := bind_eq_ok.mp h
  cases h
  unfold Expr.read at hread
  split at hread
  · cases hread
  · obtain ⟨ts, -, h⟩ := bind_eq_ok.mp hread
    obtain ⟨out, -, h⟩ := bind_eq_ok.mp h
    exact Nat.le_trans (Expr.depth_simplify_le e) (depth_of_reducePostfix h)

theorem depth_of_parseEquation (h : parseEquation text = .ok e) : e.depth ≤ maxDepth := by
  unfold parseEquation at h
  split at h
  · cases h
  · split at h
    · exact depth_of_parse h
    · cases h

/-- Simplifying makes no tree deeper or larger. The depth that is kept with each
operand, after any postfix tokens, is that of its tree; so no text is read as a
tree of more than 256 levels. -/
theorem simplify_le_and_parse_depth_le (α : Type) [Scalar α] [Numeral α] :
    (∀ e : Expr α, e.simplify.depth ≤ e.depth ∧ e.simplify.size ≤ e.size) ∧
    (∀ (ts : List (Token α)) (st : List (Operand α)),
      ts.foldlM Operand.step [] = .ok st → ∀ o ∈ st, o.depth = o.tree.depth) ∧
    ∀ (text : String) (e : Expr α), Expr.parse text = .ok e → e.depth ≤ 256 := by
  refine ⟨fun e => ?_, fun ts st hst o ho => ?_, fun text e hparse => depth_of_parse hparse⟩
  · exact ⟨Expr.isMeasure_depth.simplify_le e, Expr.isMeasure_size.simplify_le e⟩
  · exact (Operand.measured_of_foldlM hst o ho).depth

theorem simplify_le_and_parse_depth_le_scaled :
    ∃ (e : Expr Float) (st : List (Operand Float)),
      Expr.parse "0 - 3*(x/2)" = .ok e ∧ e.depth ≤ 256 ∧
      [Token.number 0, .number 3, .var "x", .number 2, .op .div].foldlM Operand.step [] = .ok st ∧
      ∀ o ∈ st, o.depth = o.tree.depth := by
  obtain ⟨-, hstack, hbound⟩ := simplify_le_and_parse_depth_le Float
  have hparse : (Expr.parse (α := Float) "0 - 3*(x/2)").toOption.isSome = true := by
    decide +kernel
  obtain ⟨e, he⟩ := Option.isSome_iff_exists.mp hparse
  have he := toOption_eq_some.mp he
  have hst : [Token.number (0 : Float), .number 3, .var "x", .number 2, .op .div].foldlM
      Operand.step [] = .ok [⟨.div (.var "x") (.const 2), 2⟩, ⟨.const 3, 1⟩, ⟨.const 0, 1⟩] := rfl
  exact ⟨e, _, he, hbound _ e he, hst, hstack _ _ hst⟩

end SlopeField
