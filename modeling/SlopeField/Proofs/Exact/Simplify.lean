import SlopeField.Proofs.Exact.Value
import SlopeField.Proofs.Expr.Redex

/-!
# Simplification keeps exact values

The constants of a tree stand for exact numbers. A run of the simplifier is
faithful to them if no operation that it folds is rounded, and a constant that
passes for zero, one or minus one is that number (`SimplifiesFaithfully`). Where
a tree has a value, the result of a faithful run has the same one
(`simplify_map_refines`). The converse fails by design, since a product with zero
is zero also where the other factor has no value. Each rule is one lemma on the
function that builds the operation from simplified operands.

On exact scalars nothing is rounded, so that every run is faithful if the tests
are lawful (`simplify_refines`).
-/

namespace SlopeField.Expr

open Exact (Refines)

section
variable {α β : Type}

def map (f : α → β) : Expr α → Expr β
  | .var name => .var name
  | .const c => .const (f c)
  | .neg e => .neg (e.map f)
  | .func g e => .func g (e.map f)
  | .bin op l r => .bin op (l.map f) (r.map f)

theorem map_id (e : Expr α) : e.map id = e := by
  induction e with
  | var | const => rfl
  | neg _ ih | func _ _ ih => rw [map, ih]
  | bin _ _ _ ihl ihr => rw [map, ihl, ihr]

end

section
variable {α : Type} [Scalar α] (number : α → Exact)

structure Denotes : Prop where
  zero : number (Arithmetic.ofNat 0) = some 0
  one : number (Arithmetic.ofNat 1) = some 1
  neg (c : α) : number (-c) = -number c
  isZero {c : α} : Scalar.isZero c = true → number c = some 0

structure Recognized (c : α) : Prop where
  zero : (const c).isZero = true → number c = some 0
  one : (const c).isOne = true → number c = some 1
  minusOne : (const c).isMinusOne = true → number c = some (-1)

variable [tests : ZeroTests]

def FoldsFaithfully (op : BinOp) (a b : α) : Prop :=
  Arithmetic.isFinite (op.apply a b) = true → number (op.apply a b) = op.apply (number a) (number b)

/-- What `scale` does to a tree, down to the innermost numerator. -/
def ScalesFaithfully (c : α) : Expr α → Prop
  | .const b => FoldsFaithfully number .mul c b
  | .div num (.const b) =>
    Recognized number c ∧ (¬(const c).IsTrivial → ∀ d, quotientFactor? c b = some d →
      number d = number c / number b ∧ ScalesFaithfully d num)
  | _ => Recognized number c

/-- What the operation is built from are simplified operands. -/
def BuildsFaithfully : BinOp → Expr α → Expr α → Prop
  | .mul, .const c, r => ScalesFaithfully number c r
  | .mul, l, .const c => ScalesFaithfully number c l
  | op, .const a, .const b => FoldsFaithfully number op a b
  | _, l, r => ∀ c, l = .const c ∨ r = .const c → Recognized number c

/-- No operation that is folded in the run is rounded, and no constant is taken
for another number. -/
def SimplifiesFaithfully : Expr α → Prop
  | .var _ | .const _ => True
  | .neg e => e.SimplifiesFaithfully
  | .func _ e => e.SimplifiesFaithfully
  | .bin op l r => l.SimplifiesFaithfully ∧ r.SimplifiesFaithfully ∧
      BuildsFaithfully number op l.simplify r.simplify

end

section
variable {α : Type} [Scalar α] {number : α → Exact} [tests : ZeroTests] {env : String → Exact}
  {op : BinOp} {e l r : Expr α} {a b c d : α}

theorem value_map_fold (h : FoldsFaithfully number op a b) :
    ((fold (op.apply a b) (bin op (.const a) (.const b))).map number).value env =
      op.apply (number a) (number b) := by
  unfold fold
  split
  · rename_i hf
    exact h hf
  · rfl

theorem ScalesFaithfully.recognized (h : ScalesFaithfully number c e) (he : ∀ b, e ≠ .const b) :
    Recognized number c := by
  unfold ScalesFaithfully at h
  split at h
  · exact (he _ rfl).elim
  · exact h.1
  · exact h

theorem BuildsFaithfully.folds (h : BuildsFaithfully number op (.const a) (.const b)) :
    FoldsFaithfully number op a b := by
  cases op <;> exact h

theorem BuildsFaithfully.scales (h : BuildsFaithfully number .mul l (.const c))
    (hl : ∀ a, l ≠ .const a) : ScalesFaithfully number c l := by
  cases l with
  | const a => exact (hl a rfl).elim
  | _ => exact h

theorem BuildsFaithfully.recognized (h : BuildsFaithfully number op l r) (hop : op ≠ .mul)
    (hmixed : Mixed l r) :
    (∀ c, l = .const c → Recognized number c) ∧ ∀ c, r = .const c → Recognized number c := by
  unfold BuildsFaithfully at h
  split at h
  · exact (hop rfl).elim
  · exact (hop rfl).elim
  · exact (hmixed _ _ rfl rfl).elim
  · exact ⟨fun c hc => h c (.inl hc), fun c hc => h c (.inr hc)⟩

theorem value_map_of_isZero (he : ∀ c, e = .const c → Recognized number c)
    (h : e.isZero = true) : (e.map number).value env = some 0 := by
  cases e with
  | const c => exact (he c rfl).zero h
  | _ => cases h

theorem value_map_of_isOne (he : ∀ c, e = .const c → Recognized number c)
    (h : e.isOne = true) : (e.map number).value env = some 1 := by
  cases e with
  | const c => exact (he c rfl).one h
  | _ => cases h

theorem value_map_of_isMinusOne (he : ∀ c, e = .const c → Recognized number c)
    (h : e.isMinusOne = true) : (e.map number).value env = some (-1) := by
  cases e with
  | const c => exact (he c rfl).minusOne h
  | _ => cases h

-- ---------------------------------------------------------------------------
-- Operations on simplified operands
-- ---------------------------------------------------------------------------

theorem simplifyAdd_refines (h : BuildsFaithfully number .add l r) :
    Refines (((add l r).map number).value env) (((simplifyAdd l r).map number).value env) := by
  fun_cases simplifyAdd l r with
  | case1 => exact .of_eq (value_map_fold h.folds).symm
  | case2 l r hmixed h0 =>
    intro z hz
    obtain ⟨x, y, hx, hy, rfl⟩ := Exact.add_eq_some.mp hz
    cases (value_map_of_isZero (h.recognized (by decide) hmixed).2 h0).symm.trans hy
    rw [hx, add_zero]
  | case3 l r hmixed _ h0 =>
    intro z hz
    obtain ⟨x, y, hx, hy, rfl⟩ := Exact.add_eq_some.mp hz
    cases (value_map_of_isZero (h.recognized (by decide) hmixed).1 h0).symm.trans hx
    rw [hy, zero_add]
  | case4 => exact .refl _

section
variable (hn : Denotes number)
include hn

theorem simplifyNeg_refines (e : Expr α) :
    Refines (-(e.map number).value env) (((simplifyNeg e).map number).value env) := by
  fun_cases simplifyNeg e with
  | case1 c =>
    refine .of_eq ?_
    simp only [map, value]
    split
    · rename_i h0
      simp [hn.isZero h0, hn.zero]
    · exact (hn.neg c).symm
  | case2 e =>
    intro z hz
    obtain ⟨x, hx, rfl⟩ := Exact.neg_eq_some.mp hz
    obtain ⟨y, hy, rfl⟩ := Exact.neg_eq_some.mp hx
    rw [hy, neg_neg]
  | case3 => exact .refl _

theorem simplifySub_refines (h : BuildsFaithfully number .sub l r) :
    Refines (((sub l r).map number).value env) (((simplifySub l r).map number).value env) := by
  fun_cases simplifySub l r with
  | case1 => exact .of_eq (value_map_fold h.folds).symm
  | case2 l r hmixed h0 =>
    intro z hz
    obtain ⟨x, y, hx, hy, rfl⟩ := Exact.sub_eq_some.mp hz
    cases (value_map_of_isZero (h.recognized (by decide) hmixed).2 h0).symm.trans hy
    rw [hx, sub_zero]
  | case3 l r hmixed _ h0 =>
    intro z hz
    obtain ⟨x, y, hx, hy, rfl⟩ := Exact.sub_eq_some.mp hz
    cases (value_map_of_isZero (h.recognized (by decide) hmixed).1 h0).symm.trans hx
    exact simplifyNeg_refines hn r _ (Exact.neg_eq_some.mpr ⟨y, hy, (zero_sub y).symm⟩)
  | case4 => exact .refl _

theorem simplifyDiv_refines (h : BuildsFaithfully number .div l r) :
    Refines (((div l r).map number).value env) (((simplifyDiv l r).map number).value env) := by
  fun_cases simplifyDiv l r with
  | case1 => exact .of_eq (value_map_fold h.folds).symm
  | case2 l r hmixed h1 =>
    intro z hz
    obtain ⟨x, y, hx, hy, -, rfl⟩ := Exact.div_eq_some.mp hz
    cases (value_map_of_isOne (h.recognized (by decide) hmixed).2 h1).symm.trans hy
    rw [hx, div_one]
  | case3 l r hmixed _ h1 =>
    intro z hz
    obtain ⟨x, y, hx, hy, -, rfl⟩ := Exact.div_eq_some.mp hz
    cases (value_map_of_isMinusOne (h.recognized (by decide) hmixed).2 h1).symm.trans hy
    exact simplifyNeg_refines hn l _ (Exact.neg_eq_some.mpr ⟨x, hx, by simp [div_neg]⟩)
  | case4 l r hmixed _ _ h0 =>
    intro z hz
    obtain ⟨x, y, hx, hy, -, rfl⟩ := Exact.div_eq_some.mp hz
    cases (value_map_of_isZero (h.recognized (by decide) hmixed).1 h0).symm.trans hx
    simp [map, value, hn.zero]
  | case5 => exact .refl _

theorem simplifyPow_refines (h : BuildsFaithfully number .pow l r) :
    Refines (((pow l r).map number).value env) (((simplifyPow l r).map number).value env) := by
  fun_cases simplifyPow l r with
  | case1 => exact .of_eq (value_map_fold h.folds).symm
  | case2 l r hmixed h0 =>
    refine .of_eq ?_
    have hr : (r.map number).value env = some 0 :=
      value_map_of_isZero (h.recognized (by decide) hmixed).2 h0
    simp only [map, value, BinOp.apply, hr, hn.one]
    exact Exact.pow_zero
  | case3 l r hmixed _ h1 =>
    refine .trans (.of_eq ?_) (Exact.pow_one_refines _)
    simp only [map, value, BinOp.apply, value_map_of_isOne (h.recognized (by decide) hmixed).2 h1]
    rfl
  | case4 => exact .refl _

-- A product with a constant factor is built by `scale` and `scaleRight`. What
-- the two share is how a constant that passes a test acts on the other factor.

theorem mul_refines_zero (hc : Recognized number c) (h : (const c).isZero = true) (a : Exact) :
    Refines (number c * a) (((const (Arithmetic.ofNat 0)).map number).value env) := by
  intro z hz
  obtain ⟨x, y, hx, -, rfl⟩ := Exact.mul_eq_some.mp hz
  cases (hc.zero h).symm.trans hx
  rw [map, value, hn.zero, zero_mul]

omit hn tests in
theorem mul_refines_self (hc : Recognized number c) (h : (const c).isOne = true) (a : Exact) :
    Refines (number c * a) a := by
  intro z hz
  obtain ⟨x, y, hx, hy, rfl⟩ := Exact.mul_eq_some.mp hz
  cases (hc.one h).symm.trans hx
  rw [hy, one_mul]

theorem mul_refines_neg (hc : Recognized number c) (h : (const c).isMinusOne = true) :
    Refines (number c * (e.map number).value env) (((simplifyNeg e).map number).value env) := by
  intro z hz
  obtain ⟨x, y, hx, hy, rfl⟩ := Exact.mul_eq_some.mp hz
  cases (hc.minusOne h).symm.trans hx
  exact simplifyNeg_refines hn e _ (Exact.neg_eq_some.mpr ⟨y, hy, (neg_one_mul y).symm⟩)

theorem scale_refines (h : ScalesFaithfully number c e) :
    Refines (number c * (e.map number).value env) (((scale c e).map number).value env) := by
  fun_induction scale c e with
  | case1 c b =>
    have hfold : FoldsFaithfully number .mul c b := h
    exact .of_eq (value_map_fold hfold).symm
  | case2 _ _ _ h0 => exact mul_refines_zero hn h.1 h0 _
  | case3 _ _ _ _ _ h1 => exact mul_refines_self h.1 h1 _
  | case4 _ _ _ _ _ _ h1 => exact mul_refines_neg hn h.1 h1
  | case5 _ _ _ h0 h1 h2 d hd ih =>
    obtain ⟨hquotient, hscale⟩ := h.2 (fun ht => ht.absurd h0 h1 h2) d hd
    exact .trans (hquotient ▸ Exact.mul_div_refines _ _ _) (ih hscale)
  | case6 => exact .refl _
  | case7 _ _ he _ h0 => exact mul_refines_zero hn (h.recognized he) h0 _
  | case8 _ _ he _ _ h1 => exact mul_refines_self (h.recognized he) h1 _
  | case9 _ _ he _ _ _ h1 => exact mul_refines_neg hn (h.recognized he) h1
  | case10 => exact .refl _

theorem scaleRight_refines (he : ∀ b, e ≠ .const b) (h : ScalesFaithfully number c e) :
    Refines (number c * (e.map number).value env) (((scaleRight e c).map number).value env) := by
  have hc := h.recognized he
  fun_cases scaleRight e c with
  | case1 _ h0 => exact mul_refines_zero hn hc h0 _
  | case2 _ _ h1 => exact mul_refines_self hc h1 _
  | case3 _ _ _ h1 => exact mul_refines_neg hn hc h1
  | case4 h0 h1 h2 num b d hd =>
    obtain ⟨hquotient, hscale⟩ := h.2 (fun ht => ht.absurd h0 h1 h2) d hd
    exact .trans (hquotient ▸ Exact.mul_div_refines _ _ _) (scale_refines hn hscale)
  | case5 | case6 => exact .of_eq (Exact.mul_comm _ _)

theorem simplifyMul_refines (h : BuildsFaithfully number .mul l r) :
    Refines (((mul l r).map number).value env) (((simplifyMul l r).map number).value env) := by
  fun_cases simplifyMul l r with
  | case1 c r => exact scale_refines hn h
  | case2 l c hl =>
    exact .trans (.of_eq (Exact.mul_comm _ _)) (scaleRight_refines hn hl (h.scales hl))
  | case3 => exact .refl _

theorem simplifyBin_refines (h : BuildsFaithfully number op l r) :
    Refines (((bin op l r).map number).value env)
      (((simplifyBin op l r).map number).value env) := by
  cases op with
  | add => exact simplifyAdd_refines h
  | sub => exact simplifySub_refines hn h
  | mul => exact simplifyMul_refines hn h
  | div => exact simplifyDiv_refines hn h
  | pow => exact simplifyPow_refines hn h

/-- A faithful run keeps the value of the tree wherever it has one. -/
theorem simplify_map_refines (h : e.SimplifiesFaithfully number) :
    Refines ((e.map number).value env) ((e.simplify.map number).value env) := by
  induction e with
  | var | const => exact .refl _
  | neg e ih => exact (ih h).neg.trans (simplifyNeg_refines hn _)
  | func f e ih => exact f.apply_refines (ih h)
  | bin op l r ihl ihr =>
    obtain ⟨hl, hr, hbuild⟩ := h
    exact (op.apply_refines (ihl hl) (ihr hr)).trans (simplifyBin_refines hn hbuild)

end

end

-- ---------------------------------------------------------------------------
-- Exact scalars
-- ---------------------------------------------------------------------------

section
variable [tests : ZeroTests] {env : String → Exact} {e : Expr Exact}

theorem denotes_id : Denotes (id : Exact → Exact) where
  zero := congrArg some Nat.cast_zero
  one := congrArg some Nat.cast_one
  neg _ := rfl
  isZero {c} h := by
    cases c with
    | none => cases h
    | some x => exact congrArg some (of_decide_eq_true h)

variable [tests.Lawful]

theorem recognized_id (c : Exact) : Recognized id c := by
  cases c with
  | none => exact ⟨nofun, nofun, nofun⟩
  | some x =>
    refine ⟨fun h => ?_, fun h => ?_, fun h => ?_⟩
    · exact congrArg some (ZeroTests.Lawful.eq_zero h)
    · have h0 : x - (1 : ℕ) = 0 := ZeroTests.Lawful.eq_zero h
      exact congrArg some (by simpa using sub_eq_zero.mp h0)
    · have h0 : x + (1 : ℕ) = 0 := ZeroTests.Lawful.eq_zero h
      exact congrArg some (by simpa using eq_neg_of_add_eq_zero_left h0)

theorem scalesFaithfully_id (c : Exact) (e : Expr Exact) : ScalesFaithfully id c e := by
  have hc := recognized_id c
  induction e generalizing c with
  | const => exact fun _ => rfl
  | var | neg | func => exact hc
  | bin op num r ih _ =>
    cases op with
    | div =>
      cases r with
      | const b =>
        refine ⟨hc, fun _ d hd => ⟨?_, ih d (recognized_id d)⟩⟩
        exact (quotientFactor?_eq_some.mp hd).2.symm
      | _ => exact hc
    | _ => exact hc

theorem value_of_isZero (h : e.isZero = true) : e.value env = some 0 := by
  rw [← e.map_id]
  exact value_map_of_isZero (fun c _ => recognized_id c) h

theorem value_of_isOne (h : e.isOne = true) : e.value env = some 1 := by
  rw [← e.map_id]
  exact value_map_of_isOne (fun c _ => recognized_id c) h

theorem simplifiesFaithfully_id (e : Expr Exact) : e.SimplifiesFaithfully id := by
  induction e with
  | var | const => trivial
  | neg _ ih | func _ _ ih => exact ih
  | bin op l r ihl ihr =>
    refine ⟨ihl, ihr, ?_⟩
    unfold BuildsFaithfully
    split
    · exact scalesFaithfully_id _ _
    · exact scalesFaithfully_id _ _
    · exact fun _ => rfl
    · exact fun c _ => recognized_id c

/-- A simplified tree has the value of the tree wherever that has one. -/
theorem simplify_refines (e : Expr Exact) : Refines (e.value env) (e.simplify.value env) := by
  have h : Refines ((e.map id).value env) ((e.simplify.map id).value env) :=
    simplify_map_refines denotes_id (simplifiesFaithfully_id e)
  rwa [map_id, map_id] at h

end

end SlopeField.Expr
