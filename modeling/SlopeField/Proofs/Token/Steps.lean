import SlopeField.Proofs.Success
import SlopeField.Token.Postfix

/-!
# Steps of the parser

What a step of the reordering does if it succeeds (`Steps`), and a step of the
postfix machine (`Operand.Takes`). With them goes the balance of operands: a leaf
adds one, a binary operator takes one away. A run conserves the balance, and the
postfix machine ends with as many operands as it says, so that every accepted
list has the balance one (`balance_of_accepted`).
-/

namespace SlopeField

variable {α : Type}

-- ---------------------------------------------------------------------------
-- Inversion
-- ---------------------------------------------------------------------------

namespace Yard

/-- A step that succeeds, with the yard after it. -/
inductive Steps (y : Yard α) : Token α → Option (Token α) → Yard α → Prop
  | number : Steps y (.number c) next (y.emit (.number c))
  | var : Steps y (.var name) next (y.emit (.var name))
  | func : next.any Token.isLparen = true → Steps y (.func f) next (y.push (.func f))
  | neg : Steps y .neg next (y.push .neg)
  | lparen : Steps y .lparen next (y.push .lparen)
  | op : Steps y (.op o) next ((y.release o.releases).push (.op o))
  | call : y.operators = pend ++ .lparen :: .func f :: below →
      (∀ t ∈ pend, t.isLparen = false) → y.opened = false →
      Steps y .rparen next ⟨below, .func f :: (pend.reverse ++ y.output), false⟩
  | group : y.operators = pend ++ .lparen :: below → (∀ t ∈ pend, t.isLparen = false) →
      y.opened = false → (∀ f, below.head? ≠ some (.func f)) →
      Steps y .rparen next ⟨below, pend.reverse ++ y.output, false⟩

variable {y y' : Yard α} {t : Token α} {next : Option (Token α)} {ts below out : List (Token α)}

theorem close_eq_ok (h : y.close = .ok (below, out)) :
    ∃ pend, y.operators = pend ++ .lparen :: below ∧ (∀ t ∈ pend, t.isLparen = false) ∧
      out = pend.reverse ++ y.output := by
  have hsplit := List.takeWhile_append_dropWhile (p := (!·.isLparen)) (l := y.operators)
  unfold close release at h
  simp only at h
  split at h
  · cases h
  · rename_i t rest hdrop
    cases h
    have ht : t.isLparen = true := by
      have hhead := List.head?_dropWhile_not (!·.isLparen) y.operators
      simpa [hdrop] using hhead
    cases t with
    | lparen =>
      refine ⟨_, hdrop ▸ hsplit.symm, fun u hu => ?_, rfl⟩
      simpa using List.all_eq_true.mp List.all_takeWhile u hu
    | _ => cases ht

theorem steps_of_step (h : y.step t next = .ok y') : Steps y t next y' := by
  cases t with
  | number | var | neg | lparen | op =>
    cases h
    constructor
  | func f =>
    simp only [step] at h
    split at h
    · cases h
      exact .func ‹_›
    · cases h
  | comma =>
    obtain ⟨⟨below, out⟩, -, h⟩ := bind_eq_ok.mp h
    simp only at h
    split at h <;> cases h
  | rparen =>
    simp only [step] at h
    split at h
    · split at h <;> cases h
    · rename_i hopened
      replace hopened := Bool.eq_false_iff.mpr hopened
      obtain ⟨⟨below, out⟩, hclose, h⟩ := bind_eq_ok.mp h
      obtain ⟨pend, hops, hpend, rfl⟩ := close_eq_ok hclose
      simp only at h
      split at h
      · cases h
        exact .call hops hpend hopened
      · rename_i hfunc
        cases h
        refine .group hops hpend hopened fun f hhead => ?_
        obtain ⟨rest, hrest⟩ := List.head?_eq_some_iff.mp hhead
        exact hfunc f rest hrest

theorem run_cons_eq_ok (h : y.run (t :: ts) = .ok out) :
    ∃ y', Steps y t ts.head? y' ∧ y'.run ts = .ok out := by
  obtain ⟨y', hstep, hrun⟩ := bind_eq_ok.mp h
  exact ⟨y', steps_of_step hstep, hrun⟩

theorem run_nil_eq_ok (h : y.run [] = .ok out) :
    y.operators.any Token.isLparen = false ∧ out = y.output.reverse ++ y.operators := by
  unfold run at h
  split at h
  · cases h
  · rename_i hnone
    cases h
    exact ⟨by simpa using hnone, rfl⟩

end Yard

namespace Operand

inductive Takes : List (Operand α) → Token α → List (Operand α) → Prop
  | number : Takes st (.number c) (⟨.const c, 1⟩ :: st)
  | var : Takes st (.var name) (⟨.var name, 1⟩ :: st)
  | neg : a.depth + 1 ≤ maxDepth → Takes (a :: st) .neg (⟨.neg a.tree, a.depth + 1⟩ :: st)
  | func : a.depth + 1 ≤ maxDepth →
      Takes (a :: st) (.func f) (⟨.func f a.tree, a.depth + 1⟩ :: st)
  | op : max l.depth r.depth + 1 ≤ maxDepth →
      Takes (r :: l :: st) (.op o) (⟨.bin o l.tree r.tree, max l.depth r.depth + 1⟩ :: st)

variable {st st' : List (Operand α)} {t : Token α}

theorem stack_eq_ok {e : Expr α} {d : Nat} (h : stack st e d = .ok st') :
    d ≤ maxDepth ∧ st' = ⟨e, d⟩ :: st := by
  unfold stack at h
  split at h
  · cases h
  · rename_i hd
    cases h
    exact ⟨Nat.not_lt.mp hd, rfl⟩

theorem takes_of_step [Numeral α] (h : step st t = .ok st') : Takes st t st' := by
  cases t with
  | number | var =>
    obtain ⟨-, rfl⟩ := stack_eq_ok h
    constructor
  | neg | func =>
    cases st with
    | nil => cases h
    | cons a st =>
      obtain ⟨hd, rfl⟩ := stack_eq_ok h
      constructor
      exact hd
  | op o =>
    match st, h with
    | r :: l :: st, h =>
      obtain ⟨hd, rfl⟩ := stack_eq_ok h
      exact .op hd
  | lparen | rparen | comma => cases h

end Operand

-- ---------------------------------------------------------------------------
-- Balance
-- ---------------------------------------------------------------------------

def Token.weight : Token α → Int
  | .number _ | .var _ => 1
  | .op _ => -1
  | _ => 0

def balance : List (Token α) → Int
  | [] => 0
  | t :: ts => t.weight + balance ts

@[simp] theorem balance_nil : balance ([] : List (Token α)) = 0 := rfl

@[simp] theorem balance_cons (t : Token α) (ts : List (Token α)) :
    balance (t :: ts) = t.weight + balance ts := rfl

@[simp] theorem balance_append (ts us : List (Token α)) :
    balance (ts ++ us) = balance ts + balance us := by
  induction ts with
  | nil => simp
  | cons t ts ih =>
    rw [List.cons_append, balance_cons, balance_cons, ih]
    omega

@[simp] theorem balance_reverse (ts : List (Token α)) : balance ts.reverse = balance ts := by
  induction ts with
  | nil => rfl
  | cons t ts ih =>
    simp only [List.reverse_cons, balance_append, balance_cons, balance_nil, ih]
    omega

theorem balance_takeWhile (p : Token α → Bool) (ts : List (Token α)) :
    balance (ts.takeWhile p) + balance (ts.dropWhile p) = balance ts := by
  rw [← balance_append, List.takeWhile_append_dropWhile]

theorem Yard.Steps.balance_eq {y y' : Yard α} {t : Token α} {next : Option (Token α)}
    (h : Steps y t next y') :
    balance y'.output + balance y'.operators =
      balance y.output + balance y.operators + t.weight := by
  cases h with
  | number | var =>
    simp only [emit, balance_cons]
    omega
  | func | neg | lparen =>
    simp only [push, balance_cons]
    omega
  | @op o _ =>
    have hsplit := balance_takeWhile o.releases y.operators
    simp only [push, release, balance_cons, balance_append, balance_reverse]
    omega
  | call hops | group hops =>
    simp only [hops, balance_cons, balance_append, balance_reverse, Token.weight]
    omega

theorem Yard.run_balance {y : Yard α} {ts out : List (Token α)} (h : y.run ts = .ok out) :
    balance out = balance y.output + balance y.operators + balance ts := by
  induction ts generalizing y with
  | nil =>
    obtain ⟨-, rfl⟩ := run_nil_eq_ok h
    simp
  | cons t ts ih =>
    obtain ⟨y', hstep, hrun⟩ := run_cons_eq_ok h
    have hbalance := hstep.balance_eq
    rw [ih hrun, balance_cons]
    omega

section
variable [Numeral α]

theorem Operand.length_of_step {st st' : List (Operand α)} {t : Token α}
    (h : step st t = .ok st') : (st'.length : Int) = st.length + t.weight := by
  cases takes_of_step h with
  | number | var => rfl
  | neg | func => simp [Token.weight]
  | op =>
    simp only [List.length_cons, Token.weight]
    omega

theorem Operand.length_of_foldlM {st st' : List (Operand α)} {ts : List (Token α)}
    (h : ts.foldlM step st = .ok st') : (st'.length : Int) = st.length + balance ts := by
  induction ts generalizing st with
  | nil =>
    cases h
    simp
  | cons t ts ih =>
    rw [List.foldlM_cons] at h
    obtain ⟨st'', hstep, hrest⟩ := bind_eq_ok.mp h
    rw [ih hrest, length_of_step hstep, balance_cons]
    omega

theorem balance_of_reducePostfix {ts : List (Token α)} {e : Expr α}
    (h : reducePostfix ts = .ok e) : balance ts = 1 := by
  obtain ⟨st, hst, h⟩ := bind_eq_ok.mp h
  have hlength := Operand.length_of_foldlM hst
  split at h
  · simp at hlength
    omega
  · cases h

theorem balance_of_accepted {ts : List (Token α)} {e : Expr α}
    (h : toPostfix ts >>= reducePostfix = .ok e) : balance ts = 1 := by
  obtain ⟨out, hout, h⟩ := bind_eq_ok.mp h
  have hrun := Yard.run_balance hout
  rw [balance_of_reducePostfix h] at hrun
  simpa using hrun.symm

end

end SlopeField
