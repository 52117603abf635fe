import SlopeField.Binary64
import SlopeField.Proofs.Success
import SlopeField.Proofs.Token.Grammar
import SlopeField.Token.Postfix

/-!
# Every phrase is read

The tokens of a phrase leave its tree in postfix order: part of it is put out,
the rest waits on the operators, and what waits binds at least as tightly as
the phrase (`Yard.reads_of_derives`). The postfix machine turns that order back
into the tree, unless the tree is too deep (`foldlM_reversePolish`). So a sum is
read as its tree (`parse_of_derives`).
-/

namespace SlopeField

variable {α : Type}

def Expr.reversePolish : Expr α → List (Token α)
  | .var name => [.var name]
  | .const c => [.number c]
  | .neg e => e.reversePolish ++ [.neg]
  | .func f e => e.reversePolish ++ [.func f]
  | .bin o l r => l.reversePolish ++ r.reversePolish ++ [.op o]

-- ---------------------------------------------------------------------------
-- The operand stack
-- ---------------------------------------------------------------------------

section
variable [Numeral α]

omit [Numeral α] in
theorem Operand.stack_eq (st : List (Operand α)) (e : Expr α) (d : Nat) :
    stack st e d = if d ≤ maxDepth then .ok (⟨e, d⟩ :: st) else .error (.tooDeep maxDepth) := by
  unfold stack
  split
  · rw [if_neg (by omega)]
  · rw [if_pos (by omega)]

theorem foldlM_reversePolish (e : Expr α) (st : List (Operand α)) :
    e.reversePolish.foldlM Operand.step st =
      if e.depth ≤ maxDepth then .ok (⟨e, e.depth⟩ :: st) else .error (.tooDeep maxDepth) := by
  induction e generalizing st with
  | var name | const c => exact Operand.stack_eq st _ 1
  | neg e ih | func f e ih =>
    rw [Expr.reversePolish, List.foldlM_append, ih, Expr.depth]
    split
    · simp [Operand.step, Operand.stack_eq]
    · rw [if_neg (by omega)]
      rfl
  | bin o l r ihl ihr =>
    rw [Expr.reversePolish, List.foldlM_append, List.foldlM_append, ihl, Expr.depth]
    split
    · rw [ok_bind, ihr]
      split
      · simp [Operand.step, Operand.stack_eq]
      · rw [if_neg (by omega)]
        rfl
    · rw [if_neg (by omega)]
      rfl

theorem reducePostfix_reversePolish (e : Expr α) :
    reducePostfix e.reversePolish =
      if e.depth ≤ maxDepth then .ok e else .error (.tooDeep maxDepth) := by
  rw [reducePostfix, foldlM_reversePolish]
  split <;> rfl

end

-- ---------------------------------------------------------------------------
-- The operators
-- ---------------------------------------------------------------------------

/-- An operator that a phrase of the given strength can leave waiting. -/
def Tight (k : Nat) : Token α → Prop
  | .op o => k ≤ o.precedence
  | .neg => k ≤ negPrecedence
  | _ => False

/-- Operators on which a phrase of the given strength can be read: those of the
phrase do not release the top one, which is no function waiting for its
parenthesis. -/
def Ready (k : Nat) (ops : List (Token α)) : Prop :=
  ∀ t ∈ ops.head?, (∀ f, t ≠ .func f) ∧ ∀ o : BinOp, k ≤ o.precedence → o.releases t = false

variable {k m : Nat} {t : Token α} {ops pend : List (Token α)}

theorem Tight.mono (h : Tight m t) (hk : k ≤ m) : Tight k t := by
  cases t with
  | op o => exact Nat.le_trans hk h
  | neg => exact Nat.le_trans hk h
  | _ => exact h

theorem Tight.not_lparen (h : Tight k t) : t.isLparen = false := by
  cases t with
  | lparen => exact h.elim
  | _ => rfl

theorem Ready.mono (h : Ready k ops) (hk : k ≤ m) : Ready m ops :=
  fun t ht => ⟨(h t ht).1, fun o ho => (h t ht).2 o (Nat.le_trans hk ho)⟩

theorem ready_nil : Ready k ([] : List (Token α)) := by simp [Ready]

theorem ready_lparen : Ready k (.lparen :: ops) := by simp [Ready, BinOp.releases]

theorem ready_neg : Ready Phrase.unary.strength (.neg :: ops) := by
  simp only [Ready, List.head?_cons, Option.mem_some_iff, Phrase.strength]
  rintro t rfl
  refine ⟨nofun, fun o ho => ?_⟩
  cases o <;> simp [BinOp.precedence, negPrecedence] at ho

theorem releases_op {o o' : BinOp} : o.releases (.op o' : Token α) = true ↔
    o.precedence < o'.precedence ∨ o.precedence = o'.precedence ∧ o ≠ .pow := by
  have hpow : (o != .pow) = true ↔ o ≠ .pow := by cases o <;> decide
  simp [BinOp.releases, hpow]

/-- An operator is not released by those that bind tighter, nor by one that
groups to the right. -/
theorem ready_op {o : BinOp} (h : o.precedence < k ∨ o = .pow ∧ o.precedence ≤ k) :
    Ready k (.op o :: ops) := by
  simp only [Ready, List.head?_cons, Option.mem_some_iff]
  rintro t rfl
  refine ⟨nofun, fun o' ho => ?_⟩
  rw [← Bool.not_eq_true, releases_op]
  obtain h | ⟨rfl, h⟩ := h
  · omega
  · cases o' <;> simp [BinOp.precedence] at *
    all_goals omega

/-- A looser operator, or an equal one that groups to the left, releases what a
phrase leaves waiting. -/
theorem releases_of_tight {o : BinOp} (ho : o.precedence < k ∨ o ≠ .pow ∧ o.precedence ≤ k)
    (h : Tight k t) : o.releases t = true := by
  cases t with
  | op o' =>
    simp only [Tight] at h
    rw [releases_op]
    obtain ho | ⟨hne, ho⟩ := ho
    · exact .inl (by omega)
    · by_cases heq : o.precedence = o'.precedence
      · exact .inr ⟨heq, hne⟩
      · exact .inl (by omega)
  | neg => cases o <;> rfl
  | _ => exact h.elim

theorem release_pending {p : Token α → Bool} (hp : ∀ t ∈ pend, p t = true)
    (ho : ∀ t ∈ ops.head?, p t = false) :
    (pend ++ ops).takeWhile p = pend ∧ (pend ++ ops).dropWhile p = ops := by
  induction pend with
  | nil =>
    cases ops with
    | nil => simp
    | cons t ops => simp [ho t (by simp)]
  | cons t pend ih =>
    obtain ⟨h1, h2⟩ := ih fun u hu => hp u (by simp [hu])
    simp [hp t (by simp), h1, h2]

-- ---------------------------------------------------------------------------
-- Phrases
-- ---------------------------------------------------------------------------

namespace Yard

variable {y : Yard α} {ts us rest : List (Token α)} {e l r : Expr α}

/-- The tokens leave the tree in postfix order, and nothing looser than `k` is
waiting. -/
def Reads (k : Nat) (ts : List (Token α)) (e : Expr α) : Prop :=
  ∀ (y : Yard α) (rest : List (Token α)), Ready k y.operators →
    ∃ out pend, out ++ pend = e.reversePolish ∧ (∀ t ∈ pend, Tight k t) ∧
      y.run (ts ++ rest) =
        run { operators := pend ++ y.operators, output := out.reverse ++ y.output } rest

theorem Reads.mono (h : Reads m ts e) (hk : k ≤ m) : Reads k ts e := by
  intro y rest hy
  obtain ⟨out, pend, hpolish, htight, hrun⟩ := h y rest (hy.mono hk)
  exact ⟨out, pend, hpolish, fun t ht => (htight t ht).mono hk, hrun⟩

theorem run_op {o : BinOp} (hpend : ∀ t ∈ pend, o.releases t = true)
    (hops : ∀ t ∈ ops.head?, o.releases t = false) (out : List (Token α)) :
    run { operators := pend ++ ops, output := out } (.op o :: rest) =
      run { operators := .op o :: ops, output := pend.reverse ++ out } rest := by
  obtain ⟨htake, hdrop⟩ := release_pending hpend hops
  simp [run, step, release, push, htake, hdrop, Token.isLparen]

theorem reads_leaf (hstep : ∀ (y : Yard α) next, y.step t next = .ok (y.emit t))
    (he : e.reversePolish = [t]) : Reads k [t] e := by
  intro y rest _
  refine ⟨[t], [], by rw [he, List.append_nil], by simp, ?_⟩
  simp [run, hstep, emit]

theorem Reads.neg (h : Reads Phrase.unary.strength ts e) :
    Reads Phrase.unary.strength (.neg :: ts) (.neg e) := by
  intro y rest hy
  obtain ⟨out, pend, hpolish, htight, hrun⟩ := h (y.push .neg) rest ready_neg
  refine ⟨out, pend ++ [.neg], ?_, ?_, ?_⟩
  · rw [← List.append_assoc, hpolish, Expr.reversePolish]
  · intro t ht
    obtain ht | ht := List.mem_append.mp ht
    · exact htight t ht
    · rw [List.mem_singleton.mp ht]
      exact Nat.le_refl _
  · rw [List.cons_append, run, step, ok_bind, hrun]
    simp [push]

theorem Reads.bin {o : BinOp} {kl kr : Nat} (hl : Reads kl ts l) (hr : Reads kr us r)
    (hleft : o.precedence < kl ∨ o ≠ .pow ∧ o.precedence ≤ kl)
    (hright : o.precedence < kr ∨ o = .pow ∧ o.precedence ≤ kr) :
    Reads o.precedence (ts ++ .op o :: us) (.bin o l r) := by
  have hkl : o.precedence ≤ kl := by omega
  have hkr : o.precedence ≤ kr := by omega
  intro y rest hy
  obtain ⟨outl, pendl, hpl, htl, hrunl⟩ := hl y (.op o :: (us ++ rest)) (hy.mono hkl)
  have hops : ∀ t ∈ y.operators.head?, o.releases t = false :=
    fun t ht => (hy t ht).2 o (Nat.le_refl _)
  rw [run_op (fun t ht => releases_of_tight hleft (htl t ht)) hops] at hrunl
  obtain ⟨outr, pendr, hpr, htr, hrunr⟩ :=
    hr { operators := .op o :: y.operators, output := pendl.reverse ++ (outl.reverse ++ y.output) }
      rest (ready_op hright)
  refine ⟨outl ++ pendl ++ outr, pendr ++ [.op o], ?_, ?_, ?_⟩
  · rw [Expr.reversePolish, ← hpl, ← hpr]
    simp
  · intro t ht
    obtain ht | ht := List.mem_append.mp ht
    · exact (htr t ht).mono hkr
    · rw [List.mem_singleton.mp ht]
      exact Nat.le_refl _
  · rw [List.append_assoc, List.cons_append, hrunl, hrunr]
    simp

theorem Reads.close (h : Reads k ts e) (ops rest out : List (Token α)) (opened : Bool) :
    ∃ y : Yard α, run { operators := .lparen :: ops, output := out, opened }
        (ts ++ .rparen :: rest) = y.run (.rparen :: rest) ∧ y.opened = false ∧
      y.close = .ok (ops, e.reversePolish.reverse ++ out) := by
  obtain ⟨out', pend, hpolish, htight, hrun⟩ :=
    h { operators := .lparen :: ops, output := out, opened } (.rparen :: rest) ready_lparen
  refine ⟨_, hrun, rfl, ?_⟩
  have hpend : ∀ t ∈ pend, (!t.isLparen) = true := by
    intro t ht
    rw [(htight t ht).not_lparen]
    rfl
  have hopen : ∀ t ∈ (.lparen :: ops).head?, (!t.isLparen) = false := by simp [Token.isLparen]
  obtain ⟨htake, hdrop⟩ := release_pending hpend hopen
  simp [Yard.close, release, htake, hdrop, ← hpolish]

theorem Reads.parens (h : Reads k ts e) : Reads m (.lparen :: ts ++ [.rparen]) e := by
  intro y rest hy
  obtain ⟨y', hrun, hopened, hclose⟩ := h.close y.operators rest y.output true
  refine ⟨e.reversePolish, [], by simp, by simp, ?_⟩
  have hpush : y.run (.lparen :: ts ++ [.rparen] ++ rest) = y'.run (.rparen :: rest) := by
    rw [← hrun]
    simp [run, step, push, Token.isLparen]
  rw [hpush, run, step, hopened, hclose]
  cases hops : y.operators with
  | nil => simp
  | cons t ops =>
    cases t with
    | func f => exact ((hy (.func f) (by simp [hops])).1 f rfl).elim
    | _ => simp

theorem Reads.func {f : Fn} (h : Reads k ts e) :
    Reads m (.func f :: .lparen :: ts ++ [.rparen]) (.func f e) := by
  intro y rest hy
  obtain ⟨y', hrun, hopened, hclose⟩ := h.close (.func f :: y.operators) rest y.output true
  refine ⟨(Expr.func f e).reversePolish, [], by simp, by simp, ?_⟩
  have hpush : y.run (.func f :: .lparen :: ts ++ [.rparen] ++ rest) =
      y'.run (.rparen :: rest) := by
    rw [← hrun]
    simp [run, step, push, Token.isLparen]
  rw [hpush, run, step, hopened, hclose]
  simp [Expr.reversePolish]

/-- Every phrase is read on operators that are ready for it. -/
theorem reads_of_derives {p : Phrase} (h : Derives p ts e) : Reads p.strength ts e := by
  induction h with
  | sum ho _ _ ihl ihr =>
    obtain rfl | rfl := ho
    · exact ihl.bin (o := .add) ihr (by decide) (by decide)
    · exact ihl.bin (o := .sub) ihr (by decide) (by decide)
  | product ho _ _ ihl ihr =>
    obtain rfl | rfl := ho
    · exact ihl.bin (o := .mul) ihr (by decide) (by decide)
    · exact ihl.bin (o := .div) ihr (by decide) (by decide)
  | power _ _ ihl ihr => exact ihl.bin (o := .pow) ihr (by decide) (by decide)
  | ofProduct _ ih | ofPower _ ih | ofUnary _ ih | ofAtom _ ih => exact ih.mono (by decide)
  | neg _ ih => exact ih.neg
  | number | var => exact reads_leaf (fun _ _ => rfl) rfl
  | parens _ ih => exact ih.parens
  | func _ ih => exact ih.func

end Yard

theorem toPostfix_of_derives {ts : List (Token α)} {e : Expr α} (h : Derives .sum ts e) :
    toPostfix ts = .ok e.reversePolish := by
  obtain ⟨out, pend, hpolish, htight, hrun⟩ := Yard.reads_of_derives h {} [] ready_nil
  have hlparen : pend.any Token.isLparen = false := by
    rw [List.any_eq_false]
    intro t ht
    rw [(htight t ht).not_lparen]
    decide
  rw [List.append_nil] at hrun
  simp [toPostfix, hrun, Yard.run, hlparen, hpolish]

/-- A sum is read as its tree, unless the tree is too deep. -/
theorem parse_of_derives [Numeral α] {ts : List (Token α)} {e : Expr α} (h : Derives .sum ts e) :
    toPostfix ts >>= reducePostfix =
      if e.depth ≤ maxDepth then .ok e else .error (.tooDeep maxDepth) := by
  rw [toPostfix_of_derives h, ok_bind, reducePostfix_reversePolish]

-- The negation in `-x^2` binds tighter than the power.
theorem parse_negated_power :
    toPostfix [.neg, .var "x", .op .pow, .number (2 : Float)] >>= reducePostfix =
      .ok (.pow (.neg (.var "x")) (.const 2)) := by
  have h : Derives .sum [.neg, .var "x", .op .pow, .number (2 : Float)]
      (.pow (.neg (.var "x")) (.const 2)) :=
    .ofProduct (.ofPower (.power (.neg (.ofAtom .var)) (.ofUnary (.ofAtom .number))))
  rw [parse_of_derives h, if_pos (by decide)]

end SlopeField
