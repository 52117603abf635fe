import SlopeField.Proofs.Token.ShuntingYard
import SlopeField.Proofs.Token.Steps
import Mathlib.Data.List.Chain

/-!
# What is accepted

The parser counts operands, but does not look at where they stand: the tokens
of `x y +` are accepted as the sum of `x` and `y`. An accepted list of tokens
is derivable exactly if no operand begins right after the end of another one
(`derivable_iff_separated`).

For such a list the count leaves no room for any other mistake: an operator, a
closing parenthesis or the end where an operand is still to come would leave
the balance too low (`balance_le`). The rest is a scan from the left that keeps
the phrases between the open parentheses (`Opened`).
-/

namespace SlopeField

variable {α : Type}

def Token.startsOperand : Token α → Bool
  | .number _ | .var _ | .func _ | .neg | .lparen => true
  | _ => false

def Token.endsOperand : Token α → Bool
  | .number _ | .var _ | .rparen => true
  | _ => false

/-- No operand begins right after the end of another one. -/
def Separated (ts : List (Token α)) : Prop :=
  ts.IsChain fun t u => t.endsOperand = true → u.startsOperand = false

variable {t u : Token α} {ts us : List (Token α)} {e l r : Expr α}

theorem separated_cons :
    Separated (t :: ts) ↔
      (t.endsOperand = true → ∀ u ∈ ts.head?, u.startsOperand = false) ∧ Separated ts := by
  rw [Separated, List.isChain_cons]
  exact and_congr_left fun _ => ⟨fun h ht u hu => h u hu ht, fun h u hu ht => h ht u hu⟩

theorem Separated.cons (h : Separated ts) (ht : t.endsOperand = false) : Separated (t :: ts) :=
  separated_cons.mpr ⟨fun h => by simp [ht] at h, h⟩

theorem Separated.append (h : Separated ts) (hu : u.startsOperand = false)
    (hus : Separated (u :: us)) : Separated (ts ++ u :: us) := by
  refine List.IsChain.append h hus ?_
  intro x _ y hy _
  cases hy
  exact hu

theorem separated_of_derives {p : Phrase} (h : Derives p ts e) : Separated ts := by
  induction h with
  | sum _ _ _ ihl ihr | product _ _ _ ihl ihr | power _ _ ihl ihr =>
    exact ihl.append rfl (ihr.cons rfl)
  | ofProduct _ ih | ofPower _ ih | ofUnary _ ih | ofAtom _ ih => exact ih
  | neg _ ih => exact ih.cons rfl
  | number | var => exact List.isChain_singleton _
  | parens _ ih => exact (ih.append rfl (List.isChain_singleton _)).cons rfl
  | func _ ih => exact ((ih.append rfl (List.isChain_singleton _)).cons rfl).cons rfl

-- ---------------------------------------------------------------------------
-- Phrases that go on
-- ---------------------------------------------------------------------------

theorem derives_power_pow (h : Derives .power ts l) (hu : Derives .unary us r) :
    ∃ e, Derives .power (ts ++ .op .pow :: us) e := by
  generalize hp : Phrase.power = p at h
  induction h with
  | power hl _ _ ihr =>
    obtain ⟨e, he⟩ := ihr rfl
    exact ⟨_, by simpa using Derives.power hl he⟩
  | ofUnary hl => exact ⟨_, .power hl (.ofUnary hu)⟩
  | _ => cases hp

theorem derives_product_op {o : BinOp} (ho : o.precedence ≠ 1) (h : Derives .product ts l)
    (hu : Derives .unary us r) : ∃ e, Derives .product (ts ++ .op o :: us) e := by
  cases o with
  | add | sub => exact (ho rfl).elim
  | mul => exact ⟨_, .product (.inl rfl) h (.ofUnary hu)⟩
  | div => exact ⟨_, .product (.inr rfl) h (.ofUnary hu)⟩
  | pow =>
    cases h with
    | product ho hl hr =>
      obtain ⟨e, he⟩ := derives_power_pow hr hu
      exact ⟨_, by simpa using Derives.product ho hl he⟩
    | ofPower h =>
      obtain ⟨e, he⟩ := derives_power_pow h hu
      exact ⟨e, .ofPower he⟩

/-- A sum goes on with every operator, which takes its left operand from the
end of the sum. -/
theorem derives_sum_op (o : BinOp) (h : Derives .sum ts l) (hu : Derives .unary us r) :
    ∃ e, Derives .sum (ts ++ .op o :: us) e := by
  by_cases ho : o.precedence = 1
  · have ho : o = .add ∨ o = .sub := by cases o <;> simp_all [BinOp.precedence]
    exact ⟨_, .sum ho h (.ofPower (.ofUnary hu))⟩
  · cases h with
    | sum ho' hl hr =>
      obtain ⟨e, he⟩ := derives_product_op ho hr hu
      exact ⟨_, by simpa using Derives.sum ho' hl he⟩
    | ofProduct h =>
      obtain ⟨e, he⟩ := derives_product_op ho h hu
      exact ⟨e, .ofProduct he⟩

/-- Every unary phrase completes the tokens to a sum. -/
def Expecting (ts : List (Token α)) : Prop :=
  ∀ us r, Derives .unary us r → ∃ e, Derives .sum (ts ++ us) e

theorem expecting_nil : Expecting ([] : List (Token α)) :=
  fun _ r h => ⟨r, .ofProduct (.ofPower (.ofUnary h))⟩

theorem Expecting.neg (h : Expecting ts) : Expecting (ts ++ [.neg]) := by
  intro us r hr
  obtain ⟨e, he⟩ := h (.neg :: us) _ (.neg hr)
  exact ⟨e, by simpa using he⟩

theorem expecting_op (o : BinOp) (h : Derives .sum ts e) : Expecting (ts ++ [.op o]) := by
  intro us r hr
  obtain ⟨e, he⟩ := derives_sum_op o h hr
  exact ⟨e, by simpa using he⟩

theorem Expecting.atom (h : Expecting ts) (hu : Derives .atom us r) :
    ∃ e, Derives .sum (ts ++ us) e := h us r (.ofAtom hu)

-- ---------------------------------------------------------------------------
-- Open parentheses
-- ---------------------------------------------------------------------------

/-- The tokens up to the last of some open parentheses. -/
inductive Opened : Nat → List (Token α) → Prop
  | none : Opened 0 []
  | parens : Opened n before → Expecting inside → Opened (n + 1) (before ++ inside ++ [.lparen])
  | call : Opened n before → Expecting inside →
      Opened (n + 1) (before ++ inside ++ [.func f, .lparen])

/-- The tokens so far, with the number of open parentheses. The phrase after
the last of these is a sum, or becomes one with an operand. -/
def Scanned : Bool → Nat → List (Token α) → Prop
  | true, n, ts => ∃ us vs e, ts = us ++ vs ∧ Opened n us ∧ Derives .sum vs e
  | false, n, ts => ∃ us vs, ts = us ++ vs ∧ Opened n us ∧ Expecting vs

namespace Scanned

variable {n : Nat}

theorem leaf (h : Scanned false n ts) (hu : Derives .atom [u] r) : Scanned true n (ts ++ [u]) := by
  obtain ⟨us, vs, rfl, ho, hv⟩ := h
  obtain ⟨e, he⟩ := hv.atom hu
  exact ⟨us, vs ++ [u], e, by simp, ho, he⟩

theorem neg (h : Scanned false n ts) : Scanned false n (ts ++ [.neg]) := by
  obtain ⟨us, vs, rfl, ho, hv⟩ := h
  exact ⟨us, vs ++ [.neg], by simp, ho, hv.neg⟩

theorem lparen (h : Scanned false n ts) : Scanned false (n + 1) (ts ++ [.lparen]) := by
  obtain ⟨us, vs, rfl, ho, hv⟩ := h
  exact ⟨us ++ vs ++ [.lparen], [], by simp, .parens ho hv, expecting_nil⟩

theorem call (h : Scanned false n ts) (f : Fn) :
    Scanned false (n + 1) (ts ++ [.func f, .lparen]) := by
  obtain ⟨us, vs, rfl, ho, hv⟩ := h
  exact ⟨us ++ vs ++ [.func f, .lparen], [], by simp, .call ho hv, expecting_nil⟩

theorem op (h : Scanned true n ts) (o : BinOp) : Scanned false n (ts ++ [.op o]) := by
  obtain ⟨us, vs, e, rfl, ho, hv⟩ := h
  exact ⟨us, vs ++ [.op o], by simp, ho, expecting_op o hv⟩

theorem rparen (h : Scanned true (n + 1) ts) : Scanned true n (ts ++ [.rparen]) := by
  obtain ⟨us, vs, e, rfl, ho, hv⟩ := h
  cases ho with
  | @parens _ before inside ho hw =>
    obtain ⟨e, he⟩ := hw.atom (.parens hv)
    exact ⟨before, inside ++ (.lparen :: vs ++ [.rparen]), e, by simp, ho, he⟩
  | @call _ before inside f ho hw =>
    obtain ⟨e, he⟩ := hw.atom (.func (f := f) hv)
    exact ⟨before, inside ++ (.func f :: .lparen :: vs ++ [.rparen]), e, by simp, ho, he⟩

theorem derivable (h : Scanned true 0 ts) : ∃ e, Derives .sum ts e := by
  obtain ⟨us, vs, e, rfl, ho, hv⟩ := h
  cases ho
  exact ⟨e, hv⟩

end Scanned

-- ---------------------------------------------------------------------------
-- Accepted lists
-- ---------------------------------------------------------------------------

variable {y : Yard α} {out rest : List (Token α)} {finished : Bool} {n : Nat}

def Follows (finished : Bool) (rest : List (Token α)) : Prop :=
  (finished = true → ∀ t ∈ rest.head?, t.startsOperand = false) ∧ Separated rest

theorem Follows.tail (h : Follows finished (t :: rest)) : Follows t.endsOperand rest :=
  separated_cons.mp h.2

theorem Follows.unfinished (h : Follows finished (t :: rest)) (ht : t.startsOperand = true) :
    finished = false := by
  cases finished with
  | false => rfl
  | true => simp [h.1 rfl t rfl] at ht

/-- Nowhere are there more operands than one more than the operators. -/
theorem balance_le (hrun : y.run rest = .ok out) (h : Follows finished rest) :
    finished.toNat + balance rest ≤ 1 := by
  induction rest generalizing y finished with
  | nil => cases finished <;> simp
  | cons t rest ih =>
    obtain ⟨y', hstep, hrest⟩ := Yard.run_cons_eq_ok hrun
    have hle := ih hrest h.tail
    rw [balance_cons]
    cases hstep with
    | number | var =>
      rw [h.unfinished rfl]
      simpa [Token.weight, Token.endsOperand] using hle
    | func | neg | lparen =>
      rw [h.unfinished rfl]
      simpa [Token.weight, Token.endsOperand] using hle
    | op =>
      simp [Token.weight, Token.endsOperand] at hle ⊢
      cases finished <;> simp <;> omega
    | call | group =>
      simp [Token.weight, Token.endsOperand] at hle ⊢
      cases finished <;> simp <;> omega

theorem countP_release (o : BinOp) (ops : List (Token α)) :
    (ops.dropWhile o.releases).countP Token.isLparen = ops.countP Token.isLparen := by
  induction ops with
  | nil => rfl
  | cons t ops ih =>
    rw [List.dropWhile_cons]
    split
    · rw [ih]
      cases t <;> simp_all [BinOp.releases, Token.isLparen]
    · rfl

theorem weight_eq (ht : t ≠ .comma) :
    ((!t.startsOperand).toNat : Int) + t.weight = t.endsOperand.toNat := by
  cases t with
  | comma => exact (ht rfl).elim
  | _ => rfl

theorem finished_eq (ht : t ≠ .comma) (hrun : y.run rest = .ok out)
    (h : Follows finished (t :: rest)) (hbal : finished.toNat + balance (t :: rest) = 1) :
    finished = !t.startsOperand := by
  have hle := balance_le hrun h.tail
  have hw := weight_eq ht
  rw [balance_cons] at hbal
  cases hs : t.startsOperand with
  | true => exact h.unfinished hs
  | false =>
    rw [hs] at hw
    cases finished with
    | true => rfl
    | false =>
      simp at hw hbal
      omega

theorem Scanned.step {y' : Yard α} {next : Option (Token α)} (hstep : y.Steps t next y')
    (hf : ∀ f, t ≠ .func f)
    (hts : Scanned (!t.startsOperand) (y.operators.countP Token.isLparen) ts) :
    Scanned t.endsOperand (y'.operators.countP Token.isLparen) (ts ++ [t]) := by
  cases hstep with
  | number => exact hts.leaf .number
  | var => exact hts.leaf .var
  | func => exact (hf _ rfl).elim
  | neg =>
    simp only [Yard.push, List.countP_cons, Token.isLparen]
    exact hts.neg
  | lparen =>
    simp only [Yard.push, List.countP_cons, Token.isLparen]
    exact hts.lparen
  | @op o =>
    simp only [Yard.push, Yard.release, List.countP_cons, Token.isLparen, countP_release]
    exact hts.op o
  | call hops hpend | group hops hpend =>
    have hnone := List.countP_eq_zero.mpr fun t ht => by simpa using hpend t ht
    simp only [hops, List.countP_append, hnone, List.countP_cons, Token.isLparen] at hts
    exact Scanned.rparen (by simpa [Token.startsOperand] using hts)

theorem run_call_eq_ok {f : Fn} (h : y.run (.func f :: ts) = .ok out) :
    ∃ rest, ts = .lparen :: rest ∧ ((y.push (.func f)).push .lparen).run rest = .ok out := by
  obtain ⟨_, hstep, hrest⟩ := Yard.run_cons_eq_ok h
  cases hstep with
  | func hnext =>
    match ts, hnext with
    | .lparen :: rest, _ =>
      obtain ⟨_, hstep, hrest⟩ := Yard.run_cons_eq_ok hrest
      cases hstep
      exact ⟨rest, rfl, hrest⟩

theorem countP_call (y : Yard α) (f : Fn) :
    ((y.push (.func f)).push .lparen).operators.countP Token.isLparen =
      y.operators.countP Token.isLparen + 1 := by
  simp [Yard.push, List.countP_cons, Token.isLparen]

theorem derivable_of_run (hrun : y.run rest = .ok out) (h : Follows finished rest)
    (hbal : finished.toNat + balance rest = 1)
    (hts : Scanned finished (y.operators.countP Token.isLparen) ts) :
    ∃ e, Derives .sum (ts ++ rest) e := by
  -- A function is taken together with its parenthesis, so the induction is on
  -- the length.
  induction hlen : rest.length using Nat.strongRecOn generalizing y rest finished ts with
  | ind len ih =>
    subst hlen
    cases rest with
    | nil =>
      obtain ⟨hnone, -⟩ := Yard.run_nil_eq_ok hrun
      have hzero : y.operators.countP Token.isLparen = 0 := by
        rw [List.countP_eq_zero]
        simpa using hnone
      cases finished with
      | false => simp at hbal
      | true =>
        rw [hzero] at hts
        simpa using hts.derivable
    | cons t rest =>
      obtain ⟨y', hstep, hrest⟩ := Yard.run_cons_eq_ok hrun
      have ht : t ≠ .comma := by
        rintro rfl
        cases hstep
      have hfin := finished_eq ht hrest h hbal
      have hw := weight_eq ht
      rw [← hfin] at hw
      rw [balance_cons] at hbal
      rw [hfin] at hts
      by_cases hf : ∃ f, t = .func f
      · obtain ⟨f, rfl⟩ := hf
        obtain ⟨rest, rfl, hopen⟩ := run_call_eq_ok hrun
        have hscan := countP_call y f ▸ hts.call f
        have hbal' : (false.toNat : Int) + balance rest = 1 := by
          simpa [Token.weight, Token.startsOperand, hfin] using hbal
        simpa using ih rest.length (by simp only [List.length_cons]; omega) hopen h.tail.tail
          hbal' hscan rfl
      · have hscan := hts.step hstep fun f hf' => hf ⟨f, hf'⟩
        simpa using ih rest.length (by simp) hrest h.tail (by omega) hscan rfl

/-- An accepted list of tokens is derivable exactly if no operand begins right
after the end of another one. -/
theorem derivable_iff_separated [Numeral α] (h : toPostfix ts >>= reducePostfix = .ok e) :
    (∃ e', Derives .sum ts e') ↔ Separated ts := by
  constructor
  · rintro ⟨e', h'⟩
    exact separated_of_derives h'
  · intro hs
    obtain ⟨out, hrun, -⟩ := bind_eq_ok.mp h
    have hbal := balance_of_accepted h
    have hstart : Scanned false 0 ([] : List (Token α)) :=
      ⟨[], [], rfl, .none, expecting_nil⟩
    have hfollow : Follows false ts := ⟨by simp, hs⟩
    exact derivable_of_run hrun hfollow (by simpa using hbal) hstart

-- The tokens of `x y +` are accepted, although the operator has no right
-- operand.
theorem accepted_not_derivable :
    toPostfix [.var "x", .var "y", .op .add] >>= reducePostfix =
      .ok (.add (.var "x") (.var "y") : Expr Float) ∧
    ¬∃ e : Expr Float, Derives .sum [.var "x", .var "y", .op .add] e := by
  have h : toPostfix [.var "x", .var "y", .op .add] >>= reducePostfix =
      .ok (.add (.var "x") (.var "y") : Expr Float) := rfl
  refine ⟨h, ?_⟩
  rw [derivable_iff_separated h, Separated]
  decide

end SlopeField
