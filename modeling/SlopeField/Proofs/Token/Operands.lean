import SlopeField.Proofs.Token.Conservation

/-!
# Operands of functions

Reordering leaves no parenthesis and no comma in the postfix order, and the order
never begins with a function. The postfix machine has an operand after every token
that it takes, so it has one for every function that it meets, also where the
parentheses of the function hold no phrase: then an operator between them misses
its operand first (`functions_have_operands`).

A function waits right under the parenthesis of its argument (`Yard.Called`). When
that is closed, a token has been put out before, or an operator of the argument is
put out now (`Yard.Begun`).
-/

namespace SlopeField

variable {α : Type}

namespace Token

def isPostfix : Token α → Bool
  | .lparen | .rparen | .comma => false
  | _ => true

def isFunc : Token α → Bool
  | .func _ => true
  | _ => false

def Covers (above t : Token α) : Prop := t.isFunc = true → above.isLparen = true

end Token

namespace Yard

variable {y y' : Yard α} {t : Token α} {next : Option (Token α)}
  {ts out ops pend rest new : List (Token α)}

theorem released (o : BinOp) (ops : List (Token α)) :
    ops = ops.takeWhile o.releases ++ ops.dropWhile o.releases ∧
      ∀ t ∈ ops.takeWhile o.releases, t.isLparen = false := by
  refine ⟨List.takeWhile_append_dropWhile.symm, fun t ht => ?_⟩
  have hrel := List.all_eq_true.mp List.all_takeWhile t ht
  cases t with
  | lparen => cases hrel
  | _ => rfl

-- ---------------------------------------------------------------------------
-- Parentheses and commas
-- ---------------------------------------------------------------------------

/-- Of the parentheses and commas only open parentheses wait, and none has been put
out. -/
structure Sorted (y : Yard α) : Prop where
  waiting : ∀ t ∈ y.operators, t.isPostfix = true ∨ t.isLparen = true
  output : ∀ t ∈ y.output, t.isPostfix = true

theorem Sorted.release (hy : y.Sorted) (hops : y.operators = pend ++ rest)
    (hpend : ∀ t ∈ pend, t.isLparen = false) : Sorted ⟨rest, pend.reverse ++ y.output, false⟩ where
  waiting t ht := hy.waiting t (hops ▸ List.mem_append_right pend ht)
  output t ht := by
    obtain ht | ht := List.mem_append.mp ht
    · rw [List.mem_reverse] at ht
      have hwait := hy.waiting t (hops ▸ List.mem_append_left rest ht)
      exact hwait.resolve_right (by simp [hpend t ht])
    · exact hy.output t ht

theorem Sorted.step (hy : y.Sorted) (h : Steps y t next y') : y'.Sorted := by
  cases h with
  | number | var => exact ⟨hy.waiting, List.forall_mem_cons.mpr ⟨rfl, hy.output⟩⟩
  | func | neg => exact ⟨List.forall_mem_cons.mpr ⟨.inl rfl, hy.waiting⟩, hy.output⟩
  | lparen => exact ⟨List.forall_mem_cons.mpr ⟨.inr rfl, hy.waiting⟩, hy.output⟩
  | @op o _ =>
    obtain ⟨hops, hpend⟩ := released o y.operators
    have hrel := hy.release hops hpend
    exact ⟨List.forall_mem_cons.mpr ⟨.inl rfl, hrel.waiting⟩, hrel.output⟩
  | call hops hpend =>
    have hrel := hy.release hops hpend
    refine ⟨fun t ht => hrel.waiting t ?_, List.forall_mem_cons.mpr ⟨rfl, hrel.output⟩⟩
    exact List.mem_cons_of_mem _ (List.mem_cons_of_mem _ ht)
  | group hops hpend =>
    have hrel := hy.release hops hpend
    exact ⟨fun t ht => hrel.waiting t (List.mem_cons_of_mem _ ht), hrel.output⟩

theorem Sorted.run (hy : y.Sorted) (h : y.run ts = .ok out) : ∀ t ∈ out, t.isPostfix = true := by
  induction ts generalizing y with
  | nil =>
    obtain ⟨hnone, rfl⟩ := run_nil_eq_ok h
    intro t ht
    obtain ht | ht := List.mem_append.mp ht
    · exact hy.output t (List.mem_reverse.mp ht)
    · exact (hy.waiting t ht).resolve_right (List.any_eq_false.mp hnone t ht)
  | cons t ts ih =>
    obtain ⟨y', hstep, hrun⟩ := run_cons_eq_ok h
    exact ih (hy.step hstep) hrun

-- ---------------------------------------------------------------------------
-- Functions
-- ---------------------------------------------------------------------------

/-- Every function that waits is covered by its parenthesis, which is the next token
for a function on top. -/
structure Called (y : Yard α) (next : Option (Token α)) : Prop where
  top : ∀ t ∈ y.operators.head?, t.isFunc = true → next.any Token.isLparen = true
  under : y.operators.IsChain Token.Covers

theorem not_isFunc_of_split (hchain : (pend ++ rest).IsChain Token.Covers)
    (htop : ∀ t ∈ (pend ++ rest).head?, t.isFunc = false)
    (hpend : ∀ t ∈ pend, t.isLparen = false) :
    (∀ t ∈ pend, t.isFunc = false) ∧ ∀ t ∈ rest.head?, t.isFunc = false := by
  induction pend with
  | nil => exact ⟨nofun, htop⟩
  | cons u pend ih =>
    rw [List.cons_append, List.isChain_cons] at hchain
    obtain ⟨hu, hpend⟩ := List.forall_mem_cons.mp hpend
    have hnext : ∀ t ∈ (pend ++ rest).head?, t.isFunc = false := fun t ht =>
      Bool.eq_false_iff.mpr fun hfunc => Bool.eq_false_iff.mp hu (hchain.1 t ht hfunc)
    obtain ⟨hall, hrest⟩ := ih hchain.2 hnext hpend
    exact ⟨List.forall_mem_cons.mpr ⟨htop u rfl, hall⟩, hrest⟩

theorem Called.not_isFunc (hy : y.Called next) (hnext : next.any Token.isLparen = false) :
    ∀ t ∈ y.operators.head?, t.isFunc = false := by
  intro t ht
  exact Bool.eq_false_iff.mpr fun hfunc => Bool.eq_false_iff.mp hnext (hy.top t ht hfunc)

theorem Called.split (hy : y.Called next) (hnext : next.any Token.isLparen = false)
    (hops : y.operators = pend ++ rest) (hpend : ∀ t ∈ pend, t.isLparen = false) :
    (∀ t ∈ pend, t.isFunc = false) ∧ ∀ t ∈ rest.head?, t.isFunc = false :=
  not_isFunc_of_split (hops ▸ hy.under) (hops ▸ hy.not_isFunc hnext) hpend

theorem called_of_not_isFunc (hops : y.operators.IsChain Token.Covers)
    (htop : ∀ t ∈ y.operators.head?, t.isFunc = false) : y.Called next :=
  ⟨fun t ht hfunc => absurd hfunc (Bool.eq_false_iff.mp (htop t ht)), hops⟩

theorem isChain_covers_cons (hops : ops.IsChain Token.Covers)
    (htop : ∀ u ∈ ops.head?, u.isFunc = false) : (t :: ops).IsChain Token.Covers :=
  List.isChain_cons.mpr
    ⟨fun u hu hfunc => absurd hfunc (Bool.eq_false_iff.mp (htop u hu)), hops⟩

theorem called_push (ht : t.isFunc = false) (hops : (t :: y.operators).IsChain Token.Covers) :
    (y.push t).Called next := by
  refine called_of_not_isFunc hops ?_
  rintro u ⟨⟩
  exact ht

theorem Called.step (hy : y.Called (some t)) (h : Steps y t next y') : y'.Called next := by
  cases h with
  | number | var => exact called_of_not_isFunc hy.under (hy.not_isFunc rfl)
  | func hnext => exact ⟨fun _ _ _ => hnext, isChain_covers_cons hy.under (hy.not_isFunc rfl)⟩
  | neg => exact called_push rfl (isChain_covers_cons hy.under (hy.not_isFunc rfl))
  | lparen => exact called_push rfl (List.isChain_cons.mpr ⟨fun _ _ _ => rfl, hy.under⟩)
  | @op o _ =>
    obtain ⟨hops, hpend⟩ := released o y.operators
    have hrest : (y.operators.dropWhile o.releases).IsChain Token.Covers :=
      hy.under.suffix (List.dropWhile_suffix _)
    exact called_push rfl (isChain_covers_cons hrest (hy.split rfl hops hpend).2)
  | call hops hpend =>
    -- A function right under this one would be covered by it.
    have hunder := (hops ▸ hy.under).right_of_append.tail
    refine called_of_not_isFunc hunder.tail fun u hu => Bool.eq_false_iff.mpr fun hfunc => ?_
    cases (List.isChain_cons.mp hunder).1 u hu hfunc
  | group hops hpend _ hbelow =>
    refine called_of_not_isFunc (hops ▸ hy.under).right_of_append.tail fun u hu => ?_
    cases u with
    | func f => exact (hbelow f hu).elim
    | _ => rfl

-- ---------------------------------------------------------------------------
-- The first token put out
-- ---------------------------------------------------------------------------

/-- Before the first token is put out a parenthesis on top has just been opened, and
the first token put out is no function. -/
structure Begun (y : Yard α) : Prop where
  opened : y.output = [] → ∀ t ∈ y.operators.head?, t.isLparen = true → y.opened = true
  first : ∀ t ∈ y.output.getLast?, t.isFunc = false

theorem not_isFunc_getLast_append (hnew : ∀ t ∈ new.getLast?, t.isFunc = false)
    (hout : ∀ t ∈ out.getLast?, t.isFunc = false) :
    ∀ t ∈ (new ++ out).getLast?, t.isFunc = false := by
  intro t ht
  rw [List.getLast?_append] at ht
  cases hlast : out.getLast? with
  | none =>
    rw [hlast, Option.none_or] at ht
    exact hnew t ht
  | some u =>
    rw [hlast, Option.some_or] at ht
    exact hout t (hlast.trans ht)

theorem not_isFunc_singleton (ht : t.isFunc = false) : ∀ u ∈ [t].getLast?, u.isFunc = false := by
  rintro u ⟨⟩
  exact ht

theorem Begun.ne_nil (hy : y.Begun) (hops : y.operators = pend ++ .lparen :: rest)
    (hopened : y.opened = false) : pend.reverse ++ y.output ≠ [] := by
  intro hnil
  obtain ⟨hpend, hout⟩ := List.append_eq_nil_iff.mp hnil
  rw [List.reverse_eq_nil_iff.mp hpend] at hops
  have hopen := hy.opened hout .lparen (by rw [hops]; rfl) rfl
  exact Bool.false_ne_true (hopened.symm.trans hopen)

theorem Begun.release (hy : y.Begun) (hpend : ∀ t ∈ pend, t.isFunc = false) :
    ∀ t ∈ (pend.reverse ++ y.output).getLast?, t.isFunc = false := by
  refine not_isFunc_getLast_append (fun t ht => hpend t ?_) hy.first
  exact List.mem_reverse.mp (List.mem_of_getLast? ht)

theorem Begun.step (hy : y.Begun) (hcalled : y.Called (some t)) (h : Steps y t next y') :
    y'.Begun := by
  cases h with
  | number | var =>
    exact ⟨nofun, not_isFunc_getLast_append (not_isFunc_singleton rfl) hy.first⟩
  | func | neg => exact ⟨fun _ => by rintro u ⟨⟩ ⟨⟩, hy.first⟩
  | lparen => exact ⟨fun _ _ _ _ => rfl, hy.first⟩
  | @op o _ =>
    obtain ⟨hops, hpend⟩ := released o y.operators
    exact ⟨fun _ => by rintro u ⟨⟩ ⟨⟩, hy.release (hcalled.split rfl hops hpend).1⟩
  | call hops hpend hopened =>
    -- The function is put out, but another token was before it.
    have hne := hy.ne_nil hops hopened
    have hfirst := hy.release (hcalled.split rfl hops hpend).1
    refine ⟨nofun, ?_⟩
    rwa [List.getLast?_cons_of_ne_nil hne]
  | group hops hpend hopened =>
    have hne := hy.ne_nil hops hopened
    exact ⟨fun hnil => (hne hnil).elim, hy.release (hcalled.split rfl hops hpend).1⟩

theorem Begun.run (hy : y.Begun) (hcalled : y.Called ts.head?) (h : y.run ts = .ok out) :
    ∀ t ∈ out.head?, t.isFunc = false := by
  induction ts generalizing y with
  | nil =>
    obtain ⟨-, rfl⟩ := run_nil_eq_ok h
    rw [← List.getLast?_reverse, List.reverse_append, List.reverse_reverse]
    refine not_isFunc_getLast_append ?_ hy.first
    rw [List.getLast?_reverse]
    exact hcalled.not_isFunc rfl
  | cons t ts ih =>
    obtain ⟨y', hstep, hrun⟩ := run_cons_eq_ok h
    exact ih (hy.step hcalled hstep) (hcalled.step hstep) hrun

end Yard

/-- A postfix order has neither parentheses nor commas, and a function is not its
first token. -/
theorem toPostfix_tokens {ts p : List (Token α)} (h : toPostfix ts = .ok p) :
    (∀ t ∈ p, t.isPostfix = true) ∧ ∀ t ∈ p.head?, t.isFunc = false := by
  have hsorted : ({} : Yard α).Sorted := ⟨nofun, nofun⟩
  have hcalled : ({} : Yard α).Called ts.head? := ⟨nofun, List.isChain_nil⟩
  have hbegun : ({} : Yard α).Begun := ⟨fun _ => nofun, nofun⟩
  exact ⟨hsorted.run h, hbegun.run hcalled h⟩

-- ---------------------------------------------------------------------------
-- The postfix machine
-- ---------------------------------------------------------------------------

section
variable [Numeral α] {p ts : List (Token α)} {t : Token α} {st st' operands : List (Operand α)}
  {err : ParseError}

/-- The machine comes to a token of the list and has these operands there. -/
def Meets (p : List (Token α)) (t : Token α) (operands : List (Operand α)) : Prop :=
  ∃ pre post, p = pre ++ t :: post ∧ pre.foldlM Operand.step [] = .ok operands

/-- What the machine finds wrong with a postfix order: several trees or none, a tree
that is too deep, or an operator, a minus of either kind included, without its
operands. -/
inductive PostfixError : ParseError → Prop
  | notSingle : PostfixError .notSingleExpression
  | tooDeep : PostfixError (.tooDeep maxDepth)
  | missing (o : BinOp) : PostfixError (.missingOperand o.symbol)

theorem Operand.ne_nil_of_foldlM (h : ts.foldlM step st = .ok st') (hts : ts ≠ []) : st' ≠ [] := by
  rintro rfl
  have hpolish := polish_of_foldlM h
  exact hts (List.append_eq_nil_iff.mp hpolish.symm).2

theorem Operand.step_eq_error (h : step st t = .error err) (hkind : t.isPostfix = true)
    (hfunc : t.isFunc = true → st ≠ []) : PostfixError err := by
  have hstack {rest : List (Operand α)} {e : Expr α} {d : Nat} (h : stack rest e d = .error err) :
      PostfixError err := by
    unfold stack at h
    split at h <;> cases h
    exact .tooDeep
  cases t with
  | number | var => exact hstack h
  | neg =>
    cases st with
    | nil =>
      cases h
      exact .missing .sub
    | cons => exact hstack h
  | func =>
    cases st with
    | nil => exact (hfunc rfl rfl).elim
    | cons => exact hstack h
  | op o =>
    match st, h with
    | [], h | [_], h =>
      cases h
      exact .missing o
    | _ :: _ :: _, h => exact hstack h
  | lparen | rparen | comma => cases hkind

theorem reducePostfix_eq_error (h : reducePostfix p = .error err) :
    err = .notSingleExpression ∨
      ∃ t operands, Meets p t operands ∧ Operand.step operands t = .error err := by
  obtain hfail | ⟨st, -, hend⟩ := bind_eq_error.mp h
  · obtain ⟨pre, t, post, operands, hp, hpre, hstep⟩ := foldlM_eq_error hfail
    exact .inr ⟨t, operands, ⟨pre, post, hp, hpre⟩, hstep⟩
  · left
    split at hend <;> cases hend
    rfl

theorem Meets.mem (h : Meets p t operands) : t ∈ p := by
  obtain ⟨pre, post, rfl, -⟩ := h
  simp

theorem Meets.ne_nil (h : Meets p t operands) (hp : ∀ u ∈ p.head?, u.isFunc = false)
    (ht : t.isFunc = true) : operands ≠ [] := by
  obtain ⟨pre, post, rfl, hpre⟩ := h
  cases pre with
  | nil => exact absurd ht (Bool.eq_false_iff.mp (hp t rfl))
  | cons u pre => exact Operand.ne_nil_of_foldlM hpre (List.cons_ne_nil u pre)

theorem postfixError_of_toPostfix (h : toPostfix ts = .ok p)
    (herror : reducePostfix p = .error err) : PostfixError err := by
  obtain ⟨hkind, hfirst⟩ := toPostfix_tokens h
  obtain rfl | ⟨t, operands, hmeets, hstep⟩ := reducePostfix_eq_error herror
  · exact .notSingle
  · exact Operand.step_eq_error hstep (hkind t hmeets.mem) (hmeets.ne_nil hfirst)

/-- The postfix machine meets no parenthesis and no comma, and every function with an
operand. A function without an argument is found by reordering or not at all. -/
theorem functions_have_operands (ts : List (Token α)) :
    (∀ p, toPostfix ts = .ok p →
      (.lparen ∉ p ∧ .rparen ∉ p ∧ .comma ∉ p) ∧
      (∀ f operands, Meets p (.func f) operands → operands ≠ []) ∧
      ∀ err, reducePostfix p = .error err → PostfixError err) ∧
    ∀ f, toPostfix ts >>= reducePostfix = .error (.functionArity f) ↔
      toPostfix ts = .error (.functionArity f) := by
  refine ⟨fun p h => ?_, fun f => ⟨fun h => ?_, fun h => by rw [h]; rfl⟩⟩
  · obtain ⟨hkind, hfirst⟩ := toPostfix_tokens h
    refine ⟨⟨fun hmem => ?_, fun hmem => ?_, fun hmem => ?_⟩,
      fun f operands hmeets => hmeets.ne_nil hfirst rfl, fun err => postfixError_of_toPostfix h⟩
    all_goals cases hkind _ hmem
  · obtain hfail | ⟨p, hp, herror⟩ := bind_eq_error.mp h
    · exact hfail
    · cases postfixError_of_toPostfix hp herror

end

/-- In `sin(-)` the minus misses its operand, and the function is never met; in
`sin(x) cos(-)` the cosine is met with the operand that the minus has left. -/
theorem functions_have_operands_malformed :
    letI lonely : List (Token Float) := [.func .sin, .lparen, .neg, .rparen]
    letI second : List (Token Float) :=
      [.func .sin, .lparen, .var "x", .rparen, .func .cos, .lparen, .neg, .rparen]
    letI left : Operand Float := ⟨.neg (.func .sin (.var "x")), 3⟩
    toPostfix lonely = .ok [.neg, .func .sin] ∧
    reducePostfix ([.neg, .func .sin] : List (Token Float)) = .error (.missingOperand "-") ∧
    PostfixError (.missingOperand "-") ∧
    (∀ f, toPostfix lonely >>= reducePostfix ≠ .error (.functionArity f)) ∧
    toPostfix second = .ok [.var "x", .func .sin, .neg, .func .cos] ∧
    .rparen ∉ ([.var "x", .func .sin, .neg, .func .cos] : List (Token Float)) ∧
    Meets [.var "x", .func .sin, .neg, .func .cos] (.func .cos) [left] ∧ [left] ≠ [] := by
  obtain ⟨hlonely, harity⟩ :=
    functions_have_operands ([.func .sin, .lparen, .neg, .rparen] : List (Token Float))
  obtain ⟨-, -, herror⟩ := hlonely [.neg, .func .sin] rfl
  obtain ⟨hsecond, -⟩ := functions_have_operands
    ([.func .sin, .lparen, .var "x", .rparen, .func .cos, .lparen, .neg, .rparen] :
      List (Token Float))
  obtain ⟨⟨-, hrparen, -⟩, hmet, -⟩ := hsecond [.var "x", .func .sin, .neg, .func .cos] rfl
  have hmeets : Meets ([.var "x", .func .sin, .neg, .func .cos] : List (Token Float)) (.func .cos)
      [⟨.neg (.func .sin (.var "x")), 3⟩] := ⟨[.var "x", .func .sin, .neg], [], rfl, rfl⟩
  refine ⟨rfl, rfl, herror _ rfl, fun f h => ?_, rfl, hrparen, hmeets, hmet _ _ hmeets⟩
  cases (harity f).mp h

end SlopeField
