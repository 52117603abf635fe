import SlopeField.Expr.Eval
import Mathlib.Analysis.SpecialFunctions.Pow.Real
import Mathlib.Analysis.SpecialFunctions.Trigonometric.Basic

/-!
# Exact scalars

Real numbers as scalars: no rounding, and nothing in place of a value where an
operation has none. A power is one where the exponent is zero or the base is
one, also if the other operand has no value, as for floating-point scalars.

The tests that decide which identity applies are left open (`ZeroTests`): the
program tests within a tolerance, and the laws hold where a test that succeeds
does so on zero itself (`ZeroTests.Lawful`).
-/

noncomputable section

namespace SlopeField

/-- A real number, or nothing where an operation has no value. -/
abbrev Exact := Option ℝ

/-- What counts as zero, and what is surely something else. -/
class ZeroTests where
  negligible : ℝ → Bool
  substantial : ℝ → Bool
  negligible_zero : negligible 0 = true

namespace ZeroTests

/-- The tests within a tolerance of zero. -/
@[reducible] def within (tolerance : ℝ) (pos : 0 < tolerance) : ZeroTests where
  negligible v := |v| < tolerance
  substantial v := tolerance ≤ |v|
  negligible_zero := by simpa using pos

/-- The same tests, but nothing other than zero passes for it. -/
@[reducible] def exact (tests : ZeroTests) : ZeroTests where
  negligible v := tests.negligible v && v = 0
  substantial v := tests.substantial v && v ≠ 0
  negligible_zero := by simp [tests.negligible_zero]

class Lawful (tests : ZeroTests) : Prop where
  eq_zero {v : ℝ} : tests.negligible v = true → v = 0
  ne_zero {v : ℝ} : tests.substantial v = true → v ≠ 0

instance (tests : ZeroTests) : Lawful tests.exact where
  eq_zero h := by simpa using (Bool.and_eq_true_iff.mp h).2
  ne_zero h := by simpa using (Bool.and_eq_true_iff.mp h).2

end ZeroTests

namespace Exact

def PowDefined (a b : ℝ) : Prop := 0 < a ∨ (a = 0 ∧ 0 ≤ b) ∨ (a < 0 ∧ ∃ n : ℤ, b = n)

open Classical in
def pow (a b : Exact) : Exact :=
  if b = some 0 ∨ a = some 1 then some 1
  else a.bind fun a => b.bind fun b => if PowDefined a b then some (a ^ b) else none

end Exact

instance : Arithmetic Exact where
  add := Option.map₂ (· + ·)
  sub := Option.map₂ (· - ·)
  mul := Option.map₂ (· * ·)
  div a b := a.bind fun a => b.bind fun b => if b = 0 then none else some (a / b)
  neg := Option.map (- ·)
  ofNat n := some n
  isFinite := Option.isSome

instance Exact.scalar [tests : ZeroTests] : Scalar Exact where
  undefined := none
  isZero v := v.any (· = 0)
  isNegative v := v.any (· < 0)
  negligible v := v.any tests.negligible
  substantial v := v.any tests.substantial
  abs := Option.map (|·|)
  sin := Option.map Real.sin
  cos := Option.map Real.cos
  tan v := v.bind fun v => if Real.cos v = 0 then none else some (Real.tan v)
  exp := Option.map Real.exp
  ln v := v.bind fun v => if 0 < v then some (Real.log v) else none
  sqrt v := v.bind fun v => if 0 ≤ v then some (Real.sqrt v) else none
  pow := Exact.pow

-- ---------------------------------------------------------------------------
-- Operations on values
-- ---------------------------------------------------------------------------

namespace Exact

variable {a b : Exact} {x y z : ℝ}

@[simp] theorem neg_some : -(some x : Exact) = some (-x) := rfl
@[simp] theorem add_some : (some x : Exact) + some y = some (x + y) := rfl
@[simp] theorem sub_some : (some x : Exact) - some y = some (x - y) := rfl
@[simp] theorem mul_some : (some x : Exact) * some y = some (x * y) := rfl

@[simp] theorem div_some (hy : y ≠ 0) : (some x : Exact) / some y = some (x / y) := if_neg hy

theorem mul_comm (a b : Exact) : a * b = b * a := Option.map₂_comm fun x y => by ring

theorem neg_eq_some : -a = some z ↔ ∃ x, a = some x ∧ -x = z := Option.map_eq_some_iff

theorem add_eq_some : a + b = some z ↔ ∃ x y, a = some x ∧ b = some y ∧ x + y = z :=
  Option.map₂_eq_some_iff

theorem sub_eq_some : a - b = some z ↔ ∃ x y, a = some x ∧ b = some y ∧ x - y = z :=
  Option.map₂_eq_some_iff

theorem mul_eq_some : a * b = some z ↔ ∃ x y, a = some x ∧ b = some y ∧ x * y = z :=
  Option.map₂_eq_some_iff

theorem div_eq_some :
    a / b = some z ↔ ∃ x y, a = some x ∧ b = some y ∧ y ≠ 0 ∧ x / y = z := by
  constructor
  · intro h
    cases a with
    | none => cases h
    | some x => cases b with
      | none => cases h
      | some y =>
        by_cases hy : y = 0
        · have hn : (some x : Exact) / some y = none := if_pos hy
          cases hn.symm.trans h
        · exact ⟨x, y, rfl, rfl, hy, Option.some.inj ((div_some hy).symm.trans h)⟩
  · rintro ⟨x, y, rfl, rfl, hy, rfl⟩
    exact div_some hy

theorem isSome_of_neg (h : (-a).isSome) : a.isSome := by
  cases a with
  | none => cases h
  | some => rfl

-- Sums, differences and products are all `Option.map₂`.
theorem isSome_of_map₂ {f : ℝ → ℝ → ℝ} (h : (Option.map₂ f a b).isSome) :
    a.isSome ∧ b.isSome := by
  obtain ⟨z, hz⟩ := Option.isSome_iff_exists.mp h
  obtain ⟨x, y, rfl, rfl, -⟩ := Option.map₂_eq_some_iff.mp hz
  exact ⟨rfl, rfl⟩

theorem isSome_of_div (h : (a / b).isSome) : a.isSome ∧ b.isSome := by
  obtain ⟨z, hz⟩ := Option.isSome_iff_exists.mp h
  obtain ⟨x, y, rfl, rfl, -⟩ := div_eq_some.mp hz
  exact ⟨rfl, rfl⟩

theorem pow_zero : pow a (some 0) = some 1 := if_pos (.inl rfl)

theorem one_pow : pow (some 1) b = some 1 := if_pos (.inr rfl)

theorem powDefined_zero (x : ℝ) : PowDefined x 0 := by
  rcases lt_trichotomy x 0 with h | h | h
  · exact .inr (.inr ⟨h, 0, by simp⟩)
  · exact .inr (.inl ⟨h, le_rfl⟩)
  · exact .inl h

theorem powDefined_one (x : ℝ) : PowDefined x 1 := by
  rcases lt_trichotomy x 0 with h | h | h
  · exact .inr (.inr ⟨h, 1, by simp⟩)
  · exact .inr (.inl ⟨h, zero_le_one⟩)
  · exact .inl h

theorem PowDefined.succ (h : PowDefined x y) : PowDefined x (y + 1) := by
  obtain h | ⟨h, hy⟩ | ⟨h, n, rfl⟩ := h
  · exact .inl h
  · exact .inr (.inl ⟨h, by linarith⟩)
  · exact .inr (.inr ⟨h, n + 1, by push_cast; rfl⟩)

theorem pow_some (h : PowDefined x y) : pow (some x) (some y) = some (x ^ y) := by
  unfold pow
  split
  · rename_i he
    obtain he | he := he <;> cases he <;> simp
  · simp [h]

theorem pow_some_eq_some : pow (some x) (some y) = some z ↔ PowDefined x y ∧ x ^ y = z := by
  constructor
  · intro h
    by_cases hd : PowDefined x y
    · rw [pow_some hd] at h
      exact ⟨hd, Option.some.inj h⟩
    · unfold pow at h
      split at h
      · rename_i he
        obtain he | he := he <;> cases he
        · exact (hd (powDefined_zero x)).elim
        · exact (hd (.inl one_pos)).elim
      · simp [hd] at h
  · rintro ⟨hd, rfl⟩
    exact pow_some hd

theorem base_of_pow (hy : y ≠ 0) (h : pow a (some y) = some z) : ∃ x, a = some x := by
  cases a with
  | none => simp [pow, hy] at h
  | some x => exact ⟨x, rfl⟩

/-- Where `a` has a value, `b` has the same one. -/
def Refines (a b : Exact) : Prop := ∀ x, a = some x → b = some x

theorem Refines.refl (a : Exact) : Refines a a := fun _ h => h

theorem Refines.of_eq (h : a = b) : Refines a b := fun _ ha => h ▸ ha

theorem Refines.trans {a b c : Exact} (hab : Refines a b) (hbc : Refines b c) : Refines a c :=
  fun x h => hbc x (hab x h)

theorem Refines.isSome (h : Refines a b) (ha : a.isSome) : b.isSome := by
  obtain ⟨x, hx⟩ := Option.isSome_iff_exists.mp ha
  exact Option.isSome_iff_exists.mpr ⟨x, h x hx⟩

theorem Refines.neg (h : Refines a b) : Refines (-a) (-b) := by
  intro z hz
  obtain ⟨x, hx, rfl⟩ := neg_eq_some.mp hz
  exact neg_eq_some.mpr ⟨x, h x hx, rfl⟩

theorem mul_div_refines (a b c : Exact) : Refines (c * (a / b)) (c / b * a) := by
  intro z hz
  obtain ⟨x, q, rfl, hq, rfl⟩ := mul_eq_some.mp hz
  obtain ⟨n, m, rfl, rfl, hm, rfl⟩ := div_eq_some.mp hq
  rw [div_some hm, mul_some]
  congr 1
  ring

theorem pow_one_refines (a : Exact) : Refines (Exact.pow a (some 1)) a := by
  intro z hz
  unfold Exact.pow at hz
  split at hz
  · rename_i h
    cases hz
    obtain h | h := h
    · simp at h
    · exact h
  · obtain ⟨x, hx, hz⟩ := Option.bind_eq_some_iff.mp hz
    simp only [Option.bind_some] at hz
    split at hz
    · rw [hx, ← hz, Real.rpow_one]
    · cases hz

theorem Refines.pow {a a' b b' : Exact} (ha : Refines a a') (hb : Refines b b') :
    Refines (pow a b) (pow a' b') := by
  intro z hz
  unfold Exact.pow at hz
  split at hz
  · cases hz
    rename_i h
    obtain h | h := h
    · rw [hb _ h, pow_zero]
    · rw [ha _ h, one_pow]
  · obtain ⟨x, hx, hz⟩ := Option.bind_eq_some_iff.mp hz
    obtain ⟨y, hy, hz⟩ := Option.bind_eq_some_iff.mp hz
    split at hz
    · rename_i hd
      rw [ha x hx, hb y hy, pow_some hd, hz]
    · cases hz

end Exact

variable [ZeroTests] {a a' b b' : Exact}

theorem Fn.apply_none (f : Fn) : f.apply (none : Exact) = none := by cases f <;> rfl

theorem Fn.apply_refines (f : Fn) (h : Exact.Refines a b) :
    Exact.Refines (f.apply a) (f.apply b) := by
  cases a with
  | none => rw [f.apply_none]; intro _ hx; cases hx
  | some x => rw [h x rfl]; exact .refl _

theorem BinOp.apply_refines (op : BinOp) (ha : Exact.Refines a a') (hb : Exact.Refines b b') :
    Exact.Refines (op.apply a b) (op.apply a' b') := by
  intro z hz
  cases op with
  | add =>
    obtain ⟨x, y, hx, hy, rfl⟩ := Exact.add_eq_some.mp hz
    exact Exact.add_eq_some.mpr ⟨x, y, ha x hx, hb y hy, rfl⟩
  | sub =>
    obtain ⟨x, y, hx, hy, rfl⟩ := Exact.sub_eq_some.mp hz
    exact Exact.sub_eq_some.mpr ⟨x, y, ha x hx, hb y hy, rfl⟩
  | mul =>
    obtain ⟨x, y, hx, hy, rfl⟩ := Exact.mul_eq_some.mp hz
    exact Exact.mul_eq_some.mpr ⟨x, y, ha x hx, hb y hy, rfl⟩
  | div =>
    obtain ⟨x, y, hx, hy, h0, rfl⟩ := Exact.div_eq_some.mp hz
    exact Exact.div_eq_some.mpr ⟨x, y, ha x hx, hb y hy, h0, rfl⟩
  | pow => exact ha.pow hb z hz

end SlopeField

end
