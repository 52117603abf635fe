import SlopeField.Token.Basic

/-!
# The infix grammar

Sums and products group to the left and powers to the right; a negation binds
tighter than a power, and a function takes its argument in parentheses:

    Sum   ::= Sum (+|-) Prod | Prod
    Prod  ::= Prod (*|/) Power | Power
    Power ::= Unary ^ Power | Unary
    Unary ::= Neg Unary | Atom
    Atom  ::= Number | Var | ( Sum ) | Func ( Sum )
-/

namespace SlopeField

variable {α : Type}

inductive Phrase where
  | sum
  | product
  | power
  | unary
  | atom
  deriving DecidableEq

/-- How tightly a phrase holds together, on the scale of the operators. -/
def Phrase.strength : Phrase → Nat
  | sum => 1
  | product => 2
  | power => 3
  | unary => negPrecedence
  | atom => negPrecedence + 1

/-- The tokens form a phrase of the given kind, and mean the given tree. -/
inductive Derives : Phrase → List (Token α) → Expr α → Prop
  | sum : o = .add ∨ o = .sub → Derives .sum ts l → Derives .product us r →
      Derives .sum (ts ++ .op o :: us) (.bin o l r)
  | ofProduct : Derives .product ts e → Derives .sum ts e
  | product : o = .mul ∨ o = .div → Derives .product ts l → Derives .power us r →
      Derives .product (ts ++ .op o :: us) (.bin o l r)
  | ofPower : Derives .power ts e → Derives .product ts e
  | power : Derives .unary ts l → Derives .power us r →
      Derives .power (ts ++ .op .pow :: us) (.pow l r)
  | ofUnary : Derives .unary ts e → Derives .power ts e
  | neg : Derives .unary ts e → Derives .unary (.neg :: ts) (.neg e)
  | ofAtom : Derives .atom ts e → Derives .unary ts e
  | number : Derives .atom [.number c] (.const c)
  | var : Derives .atom [.var name] (.var name)
  | parens : Derives .sum ts e → Derives .atom (.lparen :: ts ++ [.rparen]) e
  | func : Derives .sum ts e → Derives .atom (.func f :: .lparen :: ts ++ [.rparen]) (.func f e)

theorem Derives.last {p : Phrase} {ts : List (Token α)} {e : Expr α} (h : Derives p ts e) :
    ∃ t ∈ ts.getLast?, t.expectsOperand = false := by
  induction h with
  | sum _ _ _ _ ih | product _ _ _ _ ih | power _ _ _ ih =>
    obtain ⟨t, ht, hlast⟩ := ih
    exact ⟨t, by simp [List.getLast?_append, List.getLast?_cons, Option.mem_def.mp ht], hlast⟩
  | ofProduct _ ih | ofPower _ ih | ofUnary _ ih | ofAtom _ ih => exact ih
  | neg _ ih =>
    obtain ⟨t, ht, hlast⟩ := ih
    exact ⟨t, by simp [List.getLast?_cons, Option.mem_def.mp ht], hlast⟩
  | number | var => exact ⟨_, rfl, rfl⟩
  | parens _ _ | func _ _ => exact ⟨.rparen, by simp [List.getLast?_cons], rfl⟩

end SlopeField
