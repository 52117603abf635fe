import SlopeField.Proofs.Token.Acceptance
import Mathlib.Algebra.Order.Group.Multiset
import Mathlib.Tactic.Abel

/-!
# Tokens are conserved

Accepted lists of tokens need not be phrases of the grammar, but none of their
tokens is lost or made up (`usedBy_of_accepted`). Reordering keeps the leaves in
their order and every other token but the parentheses (`Yard.run_leaves`,
`Yard.run_operatorsOf`), and a list that the postfix machine accepts is the postfix
order of the tree that it gives (`eq_reversePolish_of_reducePostfix`).
-/

namespace SlopeField

variable {α : Type}

namespace Token

def isLeaf : Token α → Bool
  | .number _ | .var _ => true
  | _ => false

def isOperator : Token α → Bool
  | .neg | .func _ | .op _ => true
  | _ => false

def isRparen : Token α → Bool
  | .rparen => true
  | _ => false

end Token

namespace Expr

def leaves : Expr α → List (Token α)
  | .var name => [.var name]
  | .const c => [.number c]
  | .neg e => e.leaves
  | .func _ e => e.leaves
  | .bin _ l r => l.leaves ++ r.leaves

def nodes : Expr α → List (Token α)
  | .var _ => []
  | .const _ => []
  | .neg e => .neg :: e.nodes
  | .func f e => .func f :: e.nodes
  | .bin op l r => .op op :: (l.nodes ++ r.nodes)

end Expr

/-- No prefix closes more parentheses than it opens, and all are closed. -/
structure Balanced (ts : List (Token α)) : Prop where
  closes : ∀ pre, pre <+: ts → pre.countP Token.isRparen ≤ pre.countP Token.isLparen
  closed : ts.countP Token.isRparen = ts.countP Token.isLparen

/-- The tree has every leaf of the list in its place and one inner node for each
operator and function; all other tokens are parentheses, which are balanced. -/
structure UsedBy (ts : List (Token α)) (e : Expr α) : Prop where
  noComma : .comma ∉ ts
  balanced : Balanced ts
  called : ∀ pre f post, ts = pre ++ .func f :: post → post.head? = some .lparen
  leaves : e.leaves = ts.filter Token.isLeaf
  nodes : e.nodes.Perm (ts.filter Token.isOperator)

-- ---------------------------------------------------------------------------
-- The postfix machine
-- ---------------------------------------------------------------------------

section
variable {e : Expr α}

theorem filter_isLeaf_reversePolish (e : Expr α) :
    e.reversePolish.filter Token.isLeaf = e.leaves := by
  induction e with
  | var | const => rfl
  | neg _ ih | func _ _ ih => simp [Expr.reversePolish, Expr.leaves, ih, Token.isLeaf]
  | bin _ _ _ ihl ihr => simp [Expr.reversePolish, Expr.leaves, ihl, ihr, Token.isLeaf]

theorem filter_isOperator_reversePolish (e : Expr α) :
    (e.reversePolish.filter Token.isOperator).Perm e.nodes := by
  induction e with
  | var | const => exact .refl _
  | neg _ ih | func _ _ ih =>
    simp only [Expr.reversePolish, Expr.nodes, List.filter_append, List.filter_cons,
      Token.isOperator, List.filter_nil, if_true]
    exact (List.perm_append_singleton _ _).trans (ih.cons _)
  | bin _ _ _ ihl ihr =>
    simp only [Expr.reversePolish, Expr.nodes, List.filter_append, List.filter_cons,
      Token.isOperator, List.filter_nil, if_true]
    exact (List.perm_append_singleton _ _).trans ((ihl.append ihr).cons _)

def Operand.polish : List (Operand α) → List (Token α)
  | [] => []
  | a :: rest => polish rest ++ a.tree.reversePolish

variable [Numeral α] {st st' : List (Operand α)} {t : Token α} {ts : List (Token α)}

theorem Operand.polish_of_step (h : step st t = .ok st') : polish st' = polish st ++ [t] := by
  cases takes_of_step h with
  | number | var => rfl
  | neg | func | op => simp [polish, Expr.reversePolish]

theorem Operand.polish_of_foldlM (h : ts.foldlM step st = .ok st') :
    polish st' = polish st ++ ts := by
  induction ts generalizing st with
  | nil =>
    cases h
    simp
  | cons t ts ih =>
    rw [List.foldlM_cons] at h
    obtain ⟨st'', hstep, hrest⟩ := bind_eq_ok.mp h
    rw [ih hrest, polish_of_step hstep]
    simp

theorem eq_reversePolish_of_reducePostfix (h : reducePostfix ts = .ok e) :
    ts = e.reversePolish := by
  obtain ⟨st, hst, h⟩ := bind_eq_ok.mp h
  have hpolish := Operand.polish_of_foldlM hst
  split at h
  · cases h
    simpa [Operand.polish] using hpolish.symm
  · cases h

end

-- ---------------------------------------------------------------------------
-- Reordering
-- ---------------------------------------------------------------------------

def Token.operator (t : Token α) : Multiset (Token α) := if t.isOperator then {t} else 0

def operatorsOf (ts : List (Token α)) : Multiset (Token α) := ts.filter Token.isOperator

@[simp] theorem operatorsOf_nil : operatorsOf ([] : List (Token α)) = 0 := rfl

@[simp] theorem operatorsOf_cons (t : Token α) (ts : List (Token α)) :
    operatorsOf (t :: ts) = t.operator + operatorsOf ts := by
  rw [operatorsOf, Token.operator, List.filter_cons]
  split
  · exact (Multiset.singleton_add t (operatorsOf ts)).symm
  · exact (zero_add _).symm

@[simp] theorem operatorsOf_append (ts us : List (Token α)) :
    operatorsOf (ts ++ us) = operatorsOf ts + operatorsOf us := by
  simp [operatorsOf]

@[simp] theorem operatorsOf_reverse (ts : List (Token α)) :
    operatorsOf ts.reverse = operatorsOf ts := by
  simp [operatorsOf]

theorem operatorsOf_takeWhile (p : Token α → Bool) (ts : List (Token α)) :
    operatorsOf (ts.takeWhile p) + operatorsOf (ts.dropWhile p) = operatorsOf ts := by
  rw [← operatorsOf_append, List.takeWhile_append_dropWhile]

namespace Yard

variable {y y' : Yard α} {t : Token α} {next : Option (Token α)} {ts out : List (Token α)}

theorem Steps.operatorsOf_eq (h : Steps y t next y') :
    operatorsOf y'.output + operatorsOf y'.operators =
      operatorsOf y.output + operatorsOf y.operators + t.operator := by
  cases h with
  | number | var =>
    simp only [emit, operatorsOf_cons]
    abel
  | func | neg | lparen =>
    simp only [push, operatorsOf_cons]
    abel
  | @op o _ =>
    rw [← operatorsOf_takeWhile o.releases y.operators]
    simp only [push, release, operatorsOf_cons, operatorsOf_append, operatorsOf_reverse]
    abel
  | call hops | group hops =>
    have hparen : (.lparen : Token α).operator = (.rparen : Token α).operator := rfl
    simp only [hops, operatorsOf_append, operatorsOf_cons, operatorsOf_reverse, hparen]
    abel

theorem run_operatorsOf (h : y.run ts = .ok out) :
    operatorsOf out = operatorsOf y.output + operatorsOf y.operators + operatorsOf ts := by
  induction ts generalizing y with
  | nil =>
    obtain ⟨-, rfl⟩ := run_nil_eq_ok h
    simp
  | cons t ts ih =>
    obtain ⟨y', hstep, hrun⟩ := run_cons_eq_ok h
    rw [ih hrun, hstep.operatorsOf_eq, operatorsOf_cons]
    abel

def LeavesOut (y : Yard α) : Prop := ∀ t ∈ y.operators, t.isLeaf = false

theorem filter_isLeaf_eq_nil {pend : List (Token α)} (h : ∀ t ∈ pend, t.isLeaf = false) :
    pend.filter Token.isLeaf = [] :=
  List.filter_eq_nil_iff.mpr fun t ht => by simp [h t ht]

theorem LeavesOut.step (hy : y.LeavesOut) (h : Steps y t next y') :
    y'.LeavesOut ∧ y'.output.filter Token.isLeaf =
      [t].filter Token.isLeaf ++ y.output.filter Token.isLeaf := by
  unfold LeavesOut at hy ⊢
  cases h with
  | number | var => exact ⟨hy, rfl⟩
  | func | neg | lparen => exact ⟨List.forall_mem_cons.mpr ⟨rfl, hy⟩, rfl⟩
  | @op o _ =>
    have htake := filter_isLeaf_eq_nil fun t ht =>
      hy t ((List.takeWhile_sublist o.releases).mem ht)
    refine ⟨List.forall_mem_cons.mpr ⟨rfl, fun t ht => ?_⟩, ?_⟩
    · exact hy t ((List.dropWhile_sublist o.releases).mem ht)
    · simp [push, release, htake, Token.isLeaf]
  | call hops _ | group hops _ =>
    simp only [hops, List.mem_append, List.mem_cons] at hy
    have hpend := filter_isLeaf_eq_nil fun t ht => hy t (.inl ht)
    exact ⟨fun t ht => hy t (by simp [ht]), by simp [hpend, Token.isLeaf]⟩

theorem run_leaves (hy : y.LeavesOut) (h : y.run ts = .ok out) :
    out.filter Token.isLeaf =
      (y.output.filter Token.isLeaf).reverse ++ ts.filter Token.isLeaf := by
  induction ts generalizing y with
  | nil =>
    obtain ⟨-, rfl⟩ := run_nil_eq_ok h
    simp [filter_isLeaf_eq_nil hy]
  | cons t ts ih =>
    obtain ⟨y', hstep, hrun⟩ := run_cons_eq_ok h
    obtain ⟨hy', hout⟩ := hy.step hstep
    have hsingle : ([t].filter Token.isLeaf).reverse = [t].filter Token.isLeaf := by
      rw [List.filter_cons]
      split <;> rfl
    rw [ih hy' hrun, hout, List.reverse_append, hsingle, List.append_assoc, ← List.filter_append]
    rfl

theorem Steps.countP_isLparen (h : Steps y t next y') :
    y'.operators.countP Token.isLparen + [t].countP Token.isRparen =
      y.operators.countP Token.isLparen + [t].countP Token.isLparen := by
  cases h with
  | number | var => rfl
  | func | neg | lparen => simp [push, List.countP_cons, Token.isLparen, Token.isRparen]
  | op =>
    simp [push, release, countP_release, Token.isLparen, Token.isRparen]
  | call hops hpend | group hops hpend =>
    have hnone := List.countP_eq_zero.mpr fun t ht => by simpa using hpend t ht
    simp [hops, List.countP_cons, hnone, Token.isLparen, Token.isRparen]

theorem run_closes (h : y.run ts = .ok out) {pre : List (Token α)} (hpre : pre <+: ts) :
    pre.countP Token.isRparen ≤
      y.operators.countP Token.isLparen + pre.countP Token.isLparen := by
  induction pre generalizing y ts with
  | nil => simp
  | cons t pre ih =>
    obtain ⟨ts, rfl⟩ := hpre
    obtain ⟨y', hstep, hrun⟩ := run_cons_eq_ok h
    have hle := ih hrun (List.prefix_append pre ts)
    have hcount := hstep.countP_isLparen
    rw [← List.singleton_append, List.countP_append, List.countP_append]
    omega

theorem run_closed (h : y.run ts = .ok out) :
    ts.countP Token.isRparen = y.operators.countP Token.isLparen + ts.countP Token.isLparen := by
  induction ts generalizing y with
  | nil =>
    obtain ⟨hnone, -⟩ := run_nil_eq_ok h
    have hzero : y.operators.countP Token.isLparen = 0 := by
      rw [List.countP_eq_zero]
      simpa using hnone
    simp [hzero]
  | cons t ts ih =>
    obtain ⟨y', hstep, hrun⟩ := run_cons_eq_ok h
    have heq := ih hrun
    have hcount := hstep.countP_isLparen
    rw [← List.singleton_append, List.countP_append, List.countP_append]
    omega

theorem run_noComma (h : y.run ts = .ok out) : .comma ∉ ts := by
  induction ts generalizing y with
  | nil => simp
  | cons t ts ih =>
    obtain ⟨y', hstep, hrun⟩ := run_cons_eq_ok h
    intro hmem
    obtain rfl | hmem := List.mem_cons.mp hmem
    · cases hstep
    · exact ih hrun hmem

theorem run_called {pre post : List (Token α)} {f : Fn}
    (h : y.run (pre ++ .func f :: post) = .ok out) : post.head? = some .lparen := by
  induction pre generalizing y with
  | nil =>
    obtain ⟨rest, rfl, -⟩ := run_call_eq_ok h
    rfl
  | cons t pre ih =>
    obtain ⟨y', -, hrun⟩ := run_cons_eq_ok h
    exact ih hrun

end Yard

-- ---------------------------------------------------------------------------
-- Accepted lists
-- ---------------------------------------------------------------------------

/-- A tree uses every token of the list that it was accepted from, whatever the
order of the tokens. -/
theorem usedBy_of_accepted [Numeral α] {ts : List (Token α)} {e : Expr α}
    (h : toPostfix ts >>= reducePostfix = .ok e) : UsedBy ts e := by
  obtain ⟨out, hrun, hreduce⟩ := bind_eq_ok.mp h
  have hpolish := eq_reversePolish_of_reducePostfix hreduce
  refine ⟨Yard.run_noComma hrun, ⟨fun pre hpre => ?_, ?_⟩, ?_, ?_, ?_⟩
  · simpa using Yard.run_closes hrun hpre
  · simpa using Yard.run_closed hrun
  · rintro pre f post rfl
    exact Yard.run_called hrun
  · have hleaves := Yard.run_leaves (y := {}) (by simp [Yard.LeavesOut]) hrun
    rw [← filter_isLeaf_reversePolish, ← hpolish, hleaves]
    rfl
  · have hoperators : operatorsOf out = operatorsOf ts := by
      simpa using Yard.run_operatorsOf hrun
    refine (filter_isOperator_reversePolish e).symm.trans ?_
    rw [← hpolish]
    exact Multiset.coe_eq_coe.mp hoperators

/-- The operator of `-sin(x y *)` stands after its operands, and still nothing is
lost. -/
theorem usedBy_misplaced_operator :
    letI ts : List (Token Float) :=
      [.neg, .func .sin, .lparen, .var "x", .var "y", .op .mul, .rparen]
    letI e : Expr Float := .neg (.func .sin (.mul (.var "x") (.var "y")))
    toPostfix ts >>= reducePostfix = .ok e ∧ UsedBy ts e := by
  have h : toPostfix [.neg, .func .sin, .lparen, .var "x", .var "y", .op .mul, .rparen] >>=
      reducePostfix = .ok (.neg (.func .sin (.mul (.var "x") (.var "y"))) : Expr Float) := rfl
  exact ⟨h, usedBy_of_accepted h⟩

end SlopeField
