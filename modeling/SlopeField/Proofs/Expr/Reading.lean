import SlopeField.Expr.Printer
import SlopeField.Proofs.Token.Grammar

/-!
# How a printed tree is read

The printed form of a tree is a phrase of the infix grammar. It does not mean
the tree itself: a negative constant becomes the negation of a positive one,
and what hangs on the right of `+` or `*` without parentheses is grouped to the
left (`Expr.reading`). Every other node keeps its shape (`derives_tokens`).
-/

namespace SlopeField

variable {α : Type}

def BinOp.phrase : BinOp → Phrase
  | add | sub => .sum
  | mul | div => .product
  | pow => .power

namespace Expr

/-- Puts `l` and an operator in front of `r`. Where `r` is made by operators of
the same strength, `l` goes in front of its leftmost operand:
`a + (b + d)` becomes `(a + b) + d` and `a + (b - d)` becomes `(a + b) - d`,
and in the same way for `*` and `/`. -/
def join (o : BinOp) (l : Expr α) : Expr α → Expr α
  | .bin o' b d =>
    if o'.precedence = o.precedence then .bin o' (join o l b) d else .bin o l (.bin o' b d)
  | r => .bin o l r

theorem join_bin_of_eq {o o' : BinOp} (h : o'.precedence = o.precedence) (l b d : Expr α) :
    join o l (.bin o' b d) = .bin o' (join o l b) d := by
  rw [join, if_pos h]

theorem join_bin_of_ne {o o' : BinOp} (h : o'.precedence ≠ o.precedence) (l b d : Expr α) :
    join o l (.bin o' b d) = .bin o l (.bin o' b d) := by
  rw [join, if_neg h]

theorem join_assoc {o o' : BinOp} (h : o'.precedence = o.precedence) (a b d : Expr α) :
    join o a (join o' b d) = join o' (join o a b) d := by
  induction d with
  | bin o'' d₁ d₂ ih _ =>
    by_cases hd : o''.precedence = o'.precedence
    · rw [join_bin_of_eq hd, join_bin_of_eq (hd.trans h), ih, join_bin_of_eq hd]
    · rw [join_bin_of_ne hd, join_bin_of_eq h, join_bin_of_ne hd]
  | _ => exact join_bin_of_eq h ..

theorem join_eq_bin (o : BinOp) (l r : Expr α) :
    ∃ o' a b, join o l r = .bin o' a b ∧ o'.precedence = o.precedence := by
  cases r with
  | bin o' b d =>
    by_cases h : o'.precedence = o.precedence
    · exact ⟨o', _, _, join_bin_of_eq h .., h⟩
    · exact ⟨o, _, _, join_bin_of_ne h .., rfl⟩
  | _ => exact ⟨o, _, _, rfl, rfl⟩

/-- An operation on two trees as it is read where the right one stands without
more parentheses than it needs. -/
def combine (o : BinOp) (l r : Expr α) : Expr α :=
  if o.strictRight then .bin o l r else join o l r

theorem join_combine {o o' : BinOp} (h : o'.precedence = o.precedence) (a b d : Expr α) :
    join o a (combine o' b d) = combine o' (join o a b) d := by
  unfold combine
  split
  · exact join_bin_of_eq h ..
  · exact join_assoc h ..

theorem combine_of_not_bin {r : Expr α} (h : ∀ o a b, r ≠ .bin o a b) (o : BinOp) (l : Expr α) :
    combine o l r = .bin o l r := by
  have hjoin : join o l r = .bin o l r := by
    cases r with
    | bin o' a b => exact (h o' a b rfl).elim
    | _ => rfl
  rw [combine, hjoin, ite_self]

theorem combine_eq_bin (o : BinOp) (l r : Expr α) :
    ∃ o' a b, combine o l r = .bin o' a b ∧ o'.precedence = o.precedence := by
  unfold combine
  split
  · exact ⟨o, l, r, rfl, rfl⟩
  · exact join_eq_bin o l r

variable [Scalar α]

def reading : Expr α → Expr α
  | .var name => .var name
  | .const c =>
    if Scalar.isZero c then .const (Arithmetic.ofNat 0)
    else if Scalar.isNegative c then .neg (.const (-c))
    else .const c
  | .neg e => .neg e.reading
  | .func f e => .func f e.reading
  | .bin o l r => combine o l.reading r.reading

def wrapTokens (wrap : Bool) (ts : List (Token α)) : List (Token α) :=
  if wrap then .lparen :: ts ++ [.rparen] else ts

def tokens : Expr α → List (Token α)
  | .var name => [.var name]
  | .const c =>
    if Scalar.isZero c then [.number (Arithmetic.ofNat 0)]
    else if Scalar.isNegative c then [.neg, .number (-c)]
    else [.number c]
  | .neg e => .neg :: wrapTokens (e.needsParens negPrecedence false) e.tokens
  | .func f e => .func f :: wrapTokens true e.tokens
  | .bin o l r =>
    wrapTokens (l.needsParens o.precedence o.strictLeft) l.tokens ++
      .op o :: wrapTokens (r.needsParens o.precedence o.strictRight) r.tokens

def phrase : Expr α → Phrase
  | .const c => if Scalar.isNegative c then .unary else .atom
  | .neg _ => .unary
  | .bin o _ _ => o.phrase
  | .var _ | .func _ _ => .atom

theorem strength_phrase (e : Expr α) : e.phrase.strength = e.precedence := by
  cases e with
  | const c =>
    simp only [phrase, precedence]
    split <;> rfl
  | bin o _ _ => cases o <;> rfl
  | _ => rfl

end Expr

-- ---------------------------------------------------------------------------
-- Phrases
-- ---------------------------------------------------------------------------

variable {ts us : List (Token α)} {e l r : Expr α}

theorem Derives.mono {p q : Phrase} (h : Derives p ts e) (hq : q.strength ≤ p.strength) :
    Derives q ts e := by
  have unary (h : Derives .atom ts e) : Derives .unary ts e := .ofAtom h
  have power (h : Derives .unary ts e) : Derives .power ts e := .ofUnary h
  have product (h : Derives .power ts e) : Derives .product ts e := .ofPower h
  have sum (h : Derives .product ts e) : Derives .sum ts e := .ofProduct h
  cases p <;> cases q <;> simp_all [Phrase.strength, negPrecedence]

theorem Derives.left {o : BinOp} {p : Phrase} (ho : o ≠ .pow) (hl : Derives o.phrase ts l)
    (hr : Derives p us r) (hp : o.precedence < p.strength) :
    Derives o.phrase (ts ++ .op o :: us) (.bin o l r) := by
  cases o with
  | add => exact .sum (.inl rfl) hl (hr.mono hp)
  | sub => exact .sum (.inr rfl) hl (hr.mono hp)
  | mul => exact .product (.inl rfl) hl (hr.mono hp)
  | div => exact .product (.inr rfl) hl (hr.mono hp)
  | pow => exact (ho rfl).elim

theorem Phrase.strength_le (p : Phrase) : p.strength ≤ Phrase.atom.strength := by
  cases p <;> decide

theorem Phrase.le_strength (p : Phrase) : Phrase.sum.strength ≤ p.strength := by
  cases p <;> decide

theorem BinOp.strength_phrase (o : BinOp) : o.phrase.strength = o.precedence := by
  cases o <;> rfl

section
variable [Scalar α]

/-- An operand below an operator of strength `parent` binds at least as
tightly, and tighter where equal strength has parentheses. -/
theorem derives_operand (he : Derives e.phrase e.tokens e.reading) {parent : Nat}
    (hp : parent ≤ negPrecedence) (strict : Bool) :
    ∃ p : Phrase, parent ≤ p.strength ∧
      (strict = true ∨ e.precedence ≠ parent → parent < p.strength) ∧
      Derives p (Expr.wrapTokens (e.needsParens parent strict) e.tokens) e.reading := by
  have hatom : parent < Phrase.atom.strength := Nat.lt_succ_of_le hp
  cases hwrap : e.needsParens parent strict with
  | true =>
    exact ⟨.atom, Nat.le_of_lt hatom, fun _ => hatom, .parens (he.mono e.phrase.le_strength)⟩
  | false =>
    simp only [Expr.needsParens, Bool.or_eq_false_iff, decide_eq_false_iff_not, Nat.not_lt,
      Bool.and_eq_false_iff, beq_eq_false_iff_ne] at hwrap
    obtain ⟨hle, hstrict⟩ := hwrap
    rw [← e.strength_phrase] at hle hstrict ⊢
    refine ⟨e.phrase, hle, fun h => ?_, he⟩
    have hne : e.phrase.strength ≠ parent := by
      obtain rfl | h := h
      · obtain h | h := hstrict
        · cases h
        · exact h
      · exact h
    omega

/-- The tree can stand on the right of an operator that groups to the left. -/
def Appends (e : Expr α) : Prop :=
  ∀ (o : BinOp) (ts : List (Token α)) (l : Expr α), o ≠ .pow → Derives o.phrase ts l →
    Derives o.phrase
      (ts ++ .op o :: Expr.wrapTokens (e.needsParens o.precedence o.strictRight) e.tokens)
      (Expr.combine o l e.reading)

/-- On the right of an operator of another strength, or with parentheses, a
tree stays as it is. -/
theorem derives_append {o : BinOp} (ho : o ≠ .pow) (he : Derives e.phrase e.tokens e.reading)
    (hl : Derives o.phrase ts l) (h : o.strictRight = true ∨ e.precedence ≠ o.precedence) :
    Derives o.phrase
      (ts ++ .op o :: Expr.wrapTokens (e.needsParens o.precedence o.strictRight) e.tokens)
      (.bin o l e.reading) := by
  have hprec : o.precedence ≤ negPrecedence := by cases o <;> decide
  obtain ⟨p, -, hp, hr⟩ := derives_operand he hprec o.strictRight
  exact hl.left ho hr (hp h)

theorem appends_of_tight (he : Derives e.phrase e.tokens e.reading)
    (h : ∀ o a b, e.reading ≠ .bin o a b) (hprec : negPrecedence ≤ e.precedence) : Appends e := by
  intro o ts l ho hl
  rw [Expr.combine_of_not_bin h]
  refine derives_append ho he hl (.inr ?_)
  cases o <;> simp [BinOp.precedence, negPrecedence] at * <;> omega

theorem appends_bin {o : BinOp}
    (he : Derives (Expr.bin o l r).phrase (Expr.bin o l r).tokens (Expr.bin o l r).reading)
    (hl : Appends l) (hr : Appends r) : Appends (.bin o l r) := by
  intro o' ts a ho ha
  by_cases hprec : o.precedence = o'.precedence
  · cases hs : o'.strictRight with
    | true =>
      rw [Expr.combine, if_pos hs]
      exact hs ▸ derives_append ho he ha (.inl hs)
    | false =>
      have hpow : o ≠ .pow := by
        rintro rfl
        cases o' <;> simp [BinOp.precedence, BinOp.strictRight] at *
      have hleft : o.strictLeft = o'.strictRight := by
        cases o <;> simp_all [BinOp.strictLeft]
      have hphrase : o'.phrase = o.phrase := by
        cases o <;> cases o' <;> simp_all [BinOp.precedence, BinOp.phrase]
      have hwrap : (Expr.bin o l r).needsParens o'.precedence false = false := by
        simp [Expr.needsParens, Expr.precedence, hprec]
      have hal := hl o' ts a ho ha
      rw [Expr.combine, if_neg (by simp [hs]), ← hprec, ← hleft, hphrase] at hal
      have har := hr o _ _ hpow hal
      rw [hwrap, Expr.combine, if_neg (by simp [hs]), Expr.reading, Expr.join_combine hprec,
        hphrase]
      simpa [Expr.wrapTokens, Expr.tokens] using har
  · obtain ⟨o'', b, d, hread, hb⟩ := Expr.combine_eq_bin o l.reading r.reading
    have hne : Expr.combine o' a (Expr.bin o l r).reading = .bin o' a (Expr.bin o l r).reading := by
      rw [Expr.reading, hread, Expr.combine, Expr.join_bin_of_ne (hb ▸ hprec), ite_self]
    rw [hne]
    exact derives_append ho he ha (.inr hprec)

theorem derives_bin {o : BinOp} (hl : Derives l.phrase l.tokens l.reading)
    (hr : Derives r.phrase r.tokens r.reading) (har : Appends r) :
    Derives o.phrase (Expr.bin o l r).tokens (Expr.bin o l r).reading := by
  have hprec : o.precedence ≤ negPrecedence := by cases o <;> decide
  obtain ⟨p, hp, htight, hleft⟩ := derives_operand hl hprec o.strictLeft
  by_cases ho : o = .pow
  · subst ho
    obtain ⟨q, hq, -, hright⟩ := derives_operand hr hprec BinOp.pow.strictRight
    exact .power (hleft.mono (htight (.inl rfl))) (hright.mono hq)
  · rw [← o.strength_phrase] at hp
    exact har o _ _ ho (hleft.mono hp)

theorem derives_const (c : α) :
    Derives (Expr.const c).phrase (Expr.const c).tokens (Expr.const c).reading := by
  by_cases hz : Scalar.isZero c = true
  · rw [Expr.tokens, Expr.reading, if_pos hz, if_pos hz]
    exact Derives.number.mono (Phrase.strength_le _)
  · rw [Expr.phrase, Expr.tokens, Expr.reading, if_neg hz, if_neg hz]
    split
    · exact .neg (.ofAtom .number)
    · exact .number

theorem derives_tokens (e : Expr α) : Derives e.phrase e.tokens e.reading := by
  suffices h : Derives e.phrase e.tokens e.reading ∧ Appends e from h.1
  induction e with
  | var name =>
    have h : Derives .atom [.var name] (.var name : Expr α) := .var
    exact ⟨h, appends_of_tight h nofun (by simp [Expr.precedence, negPrecedence])⟩
  | const c =>
    refine ⟨derives_const c, appends_of_tight (derives_const c) ?_ ?_⟩
    · intro o a b
      simp only [Expr.reading]
      split
      · exact nofun
      · split <;> exact nofun
    · simp only [Expr.precedence]
      split <;> simp [negPrecedence]
  | neg e ih =>
    have h : Derives (Expr.neg e).phrase (Expr.neg e).tokens (Expr.neg e).reading := by
      obtain ⟨p, hp, -, hop⟩ := derives_operand ih.1 (Nat.le_refl negPrecedence) false
      exact .neg (hop.mono hp)
    exact ⟨h, appends_of_tight h nofun (Nat.le_refl _)⟩
  | func f e ih =>
    have h : Derives (Expr.func f e).phrase (Expr.func f e).tokens (Expr.func f e).reading :=
      .func (ih.1.mono e.phrase.le_strength)
    exact ⟨h, appends_of_tight h nofun (by simp [Expr.precedence, negPrecedence])⟩
  | bin o l r ihl ihr =>
    have h := derives_bin (o := o) ihl.1 ihr.1 ihr.2
    exact ⟨h, appends_bin h ihl.2 ihr.2⟩

end

end SlopeField
