import SlopeField.Proofs.Exact.Defined

/-!
# Affine trees

`linearForm?` succeeds exactly on the trees that are built from the variable and
trees without it by the operations that keep a tree affine (`AffineIn`,
`isSome_linearForm?_iff`). The intercept that it finds is free of the variable,
and at every point the slope times the variable plus the intercept is the value
of the tree (`IsLinear.value_eq`).
-/

noncomputable section

namespace SlopeField.Expr

section
variable {α : Type} [Scalar α] {v : String} {e : Expr α} {form : LinearForm α}

/-- Built from the variable and trees without it by negations, sums, differences,
products with a number and quotients by a number that is surely not zero. -/
inductive AffineIn (v : String) : Expr α → Prop
  | free {e : Expr α} : e.mentions v = false → AffineIn v e
  | var : AffineIn v (.var v)
  | neg {e : Expr α} : AffineIn v e → AffineIn v (.neg e)
  | add {l r : Expr α} : AffineIn v l → AffineIn v r → AffineIn v (.add l r)
  | sub {l r : Expr α} : AffineIn v l → AffineIn v r → AffineIn v (.sub l r)
  | scaleLeft {l r : Expr α} {c : α} : l.numericValue = some c → AffineIn v r →
      AffineIn v (.mul l r)
  | scaleRight {l r : Expr α} {c : α} : r.numericValue = some c → AffineIn v l →
      AffineIn v (.mul l r)
  | divide {l r : Expr α} {c : α} : r.numericValue = some c → Scalar.substantial c = true →
      AffineIn v l → AffineIn v (.div l r)

theorem IsLinear.affineIn (h : IsLinear v e form) : e.AffineIn v := by
  induction h with
  | free hf => exact .free hf
  | var => exact .var
  | neg _ ih => exact .neg ih
  | add _ _ ihl ihr => exact .add ihl ihr
  | sub _ _ ihl ihr => exact .sub ihl ihr
  | scaleLeft hc _ ih => exact .scaleLeft hc ih
  | scaleRight hc _ ih => exact .scaleRight hc ih
  | divide hc hs _ ih => exact .divide hc hs ih

theorem mentions_of_numericValue {c : α} (h : e.numericValue = some c) (v : String) :
    e.mentions v = false := by
  unfold numericValue at h
  split at h
  · rename_i hc
    exact mentions_of_isClosed hc v
  · cases h

theorem IsLinear.mentions_intercept (h : IsLinear v e form) :
    form.intercept.mentions v = false := by
  induction h with
  | free hf => exact hf
  | var => rfl
  | neg _ ih => exact mentions_simplify ih
  | add _ _ ihl ihr | sub _ _ ihl ihr => exact mentions_simplify (mentions_bin.mpr ⟨ihl, ihr⟩)
  | scaleLeft _ _ ih | scaleRight _ _ ih => exact mentions_simplify (mentions_bin.mpr ⟨rfl, ih⟩)
  | divide _ _ _ ih => exact mentions_simplify (mentions_bin.mpr ⟨ih, rfl⟩)

theorem linearForm?_of_free (h : e.mentions v = false) :
    e.linearForm? v = some ⟨Arithmetic.ofNat 0, e⟩ := by
  unfold linearForm?
  simp [h]

theorem AffineIn.isSome_linearForm? (h : e.AffineIn v) : (e.linearForm? v).isSome = true := by
  induction h with
  | free hf => rw [linearForm?_of_free hf, Option.isSome_some]
  | var => simp [linearForm?, mentions]
  | neg _ ih =>
    obtain ⟨form, hform⟩ := Option.isSome_iff_exists.mp ih
    unfold linearForm?
    split <;> simp [hform]
  | add _ _ ihl ihr | sub _ _ ihl ihr =>
    obtain ⟨forml, hforml⟩ := Option.isSome_iff_exists.mp ihl
    obtain ⟨formr, hformr⟩ := Option.isSome_iff_exists.mp ihr
    unfold linearForm?
    split <;> simp [hforml, hformr]
  | scaleLeft hc _ ih =>
    obtain ⟨form, hform⟩ := Option.isSome_iff_exists.mp ih
    unfold linearForm?
    split <;> simp [hc, hform]
  | @scaleRight l r c hc _ ih =>
    obtain ⟨form, hform⟩ := Option.isSome_iff_exists.mp ih
    unfold linearForm?
    -- If both factors are numbers, the left one scales the right one.
    cases hl : l.numericValue with
    | some => split <;> simp [hl, linearForm?_of_free (mentions_of_numericValue hc v)]
    | none => split <;> simp [hl, hc, hform]
  | divide hc hs _ ih =>
    obtain ⟨form, hform⟩ := Option.isSome_iff_exists.mp ih
    unfold linearForm?
    split <;> simp [hc, hs, hform]

theorem isSome_linearForm?_iff : (e.linearForm? v).isSome = true ↔ e.AffineIn v := by
  refine ⟨fun h => ?_, AffineIn.isSome_linearForm?⟩
  obtain ⟨form, hform⟩ := Option.isSome_iff_exists.mp h
  exact (isLinear_of_linearForm? hform).affineIn

end

-- ---------------------------------------------------------------------------
-- Values
-- ---------------------------------------------------------------------------

section
variable [tests : ZeroTests] {env : String → Exact} {v : String} {e : Expr Exact}
  {form : LinearForm Exact} {x z : ℝ}

theorem IsLinear.value_eq [tests.Lawful] (h : IsLinear v e form) (hx : env v = some x)
    (hz : e.value env = some z) :
    ∃ a b, form.slope = some a ∧ form.intercept.value env = some b ∧ z = a * x + b := by
  induction h generalizing z with
  | free => exact ⟨0, z, by simp [Arithmetic.ofNat], hz, by ring⟩
  | var =>
    cases hx.symm.trans hz
    exact ⟨1, 0, by simp [Arithmetic.ofNat], by simp [value, Arithmetic.ofNat], by ring⟩
  | neg _ ih =>
    obtain ⟨u, hu, rfl⟩ := Exact.neg_eq_some.mp hz
    obtain ⟨a, b, ha, hb, rfl⟩ := ih hu
    refine ⟨-a, -b, by simp [LinearForm.neg, ha], simplify_refines _ _ ?_, by ring⟩
    exact Exact.neg_eq_some.mpr ⟨b, hb, rfl⟩
  | add _ _ ihl ihr =>
    obtain ⟨s, t, hs, ht, rfl⟩ := Exact.add_eq_some.mp hz
    obtain ⟨a, b, ha, hb, rfl⟩ := ihl hs
    obtain ⟨c, d, hc, hd, rfl⟩ := ihr ht
    refine ⟨a + c, b + d, by simp [LinearForm.add, ha, hc], simplify_refines _ _ ?_, by ring⟩
    exact Exact.add_eq_some.mpr ⟨b, d, hb, hd, rfl⟩
  | sub _ _ ihl ihr =>
    obtain ⟨s, t, hs, ht, rfl⟩ := Exact.sub_eq_some.mp hz
    obtain ⟨a, b, ha, hb, rfl⟩ := ihl hs
    obtain ⟨c, d, hc, hd, rfl⟩ := ihr ht
    refine ⟨a - c, b - d, by simp [LinearForm.sub, ha, hc], simplify_refines _ _ ?_, by ring⟩
    exact Exact.sub_eq_some.mpr ⟨b, d, hb, hd, rfl⟩
  | scaleLeft hc _ ih =>
    obtain ⟨s, t, hs, ht, rfl⟩ := Exact.mul_eq_some.mp hz
    obtain ⟨-, q, rfl, hq⟩ := numericValue_eq_some hc
    cases (hq env).symm.trans hs
    obtain ⟨a, b, ha, hb, rfl⟩ := ih ht
    refine ⟨s * a, s * b, by simp [LinearForm.scale, ha], simplify_refines _ _ ?_, by ring⟩
    exact Exact.mul_eq_some.mpr ⟨s, b, rfl, hb, rfl⟩
  | scaleRight hc _ ih =>
    obtain ⟨s, t, hs, ht, rfl⟩ := Exact.mul_eq_some.mp hz
    obtain ⟨-, q, rfl, hq⟩ := numericValue_eq_some hc
    cases (hq env).symm.trans ht
    obtain ⟨a, b, ha, hb, rfl⟩ := ih hs
    refine ⟨t * a, t * b, by simp [LinearForm.scale, ha], simplify_refines _ _ ?_, by ring⟩
    exact Exact.mul_eq_some.mpr ⟨t, b, rfl, hb, rfl⟩
  | divide hc _ _ ih =>
    obtain ⟨s, t, hs, ht, h0, rfl⟩ := Exact.div_eq_some.mp hz
    obtain ⟨-, q, rfl, hq⟩ := numericValue_eq_some hc
    cases (hq env).symm.trans ht
    obtain ⟨a, b, ha, hb, rfl⟩ := ih hs
    refine ⟨a / t, b / t, by simp [LinearForm.divide, ha, h0], simplify_refines _ _ ?_, by ring⟩
    exact Exact.div_eq_some.mpr ⟨b, t, hb, rfl, h0, rfl⟩

def LinearizesExactly (e : Expr Exact) (v : String) : Prop :=
  e.linearForm? v = @linearForm? Exact (@Exact.scalar tests.exact) e v

theorem value_of_linearForm? (hexact : e.LinearizesExactly v) (h : e.linearForm? v = some form)
    (hdef : e.DefinedAt env) (hx : env v = some x) :
    ∃ a b, form.slope = some a ∧ form.intercept.value env = some b ∧
      e.value env = some (a * x + b) := by
  rw [hexact] at h
  obtain ⟨z, hz⟩ := Option.isSome_iff_exists.mp hdef.isSome
  simp only [value_tests tests tests.exact] at hz ⊢
  let _ := tests.exact
  obtain ⟨a, b, ha, hb, rfl⟩ := (isLinear_of_linearForm? h).value_eq hx hz
  exact ⟨a, b, ha, hb, hz⟩

end

/-- The linear form is found exactly for the affine trees. Its intercept is free
of the variable, and it has the value of the tree at every point where all parts
of the tree have values. -/
theorem linearForm?_sound_complete :
    (∀ (α : Type) [Scalar α] (e : Expr α) (v : String),
      ((e.linearForm? v).isSome = true ↔ e.AffineIn v) ∧
      ∀ form, e.linearForm? v = some form → form.intercept.mentions v = false) ∧
    ∀ [ZeroTests] (e : Expr Exact) (v : String) (form : LinearForm Exact)
      (env : String → Exact) (x : ℝ), e.LinearizesExactly v → e.linearForm? v = some form →
      e.DefinedAt env → env v = some x →
      ∃ a b, form.slope = some a ∧ form.intercept.value env = some b ∧
        e.value env = some (a * x + b) := by
  refine ⟨fun α _ e v => ⟨isSome_linearForm?_iff, fun form h => ?_⟩, ?_⟩
  · exact (isLinear_of_linearForm? h).mentions_intercept
  · intro _ e v form env x hexact h hdef hx
    exact value_of_linearForm? hexact h hdef hx

/-- `(2 * x + y) / 4` is `x / 2 + y / 4`. -/
theorem linearForm?_quotient :
    letI := ZeroTests.within 1e-9 (by norm_num)
    letI e : Expr Exact :=
      .div (.add (.mul (.const (some 2)) (.var "x")) (.var "y")) (.const (some 4))
    letI rest : Expr Exact := .div (.var "y") (.const (some 4))
    letI env : String → Exact := (lookup · (some 3) (some 8))
    e.LinearizesExactly "x" ∧ e.linearForm? "x" = some ⟨some (1 / 2), rest⟩ ∧
      e.DefinedAt env ∧ e.value env = some (1 / 2 * 3 + 2) := by
  let tests := ZeroTests.within 1e-9 (by norm_num)
  let e : Expr Exact :=
    .div (.add (.mul (.const (some 2)) (.var "x")) (.var "y")) (.const (some 4))
  let rest : Expr Exact := .div (.var "y") (.const (some 4))
  let env : String → Exact := (lookup · (some 3) (some 8))
  have hnum (tests : ZeroTests) (c : ℝ) : (const (some c)).numericValue = some (some c) := rfl
  have hrun (tests : ZeroTests) (hn : ∀ v : ℝ, 1 ≤ v → tests.negligible v = false)
      (hs : tests.substantial 4 = true) : e.linearForm? "x" = some ⟨some (1 / 2), rest⟩ := by
    have hscale : (mul (.const (some 2)) (.var "x") : Expr Exact).linearForm? "x" =
        some ⟨some 2, .const (some 0)⟩ := by
      simp [linearForm?, mentions, hnum, LinearForm.scale, simplify, simplifyBin, simplifyMul,
        scale, fold, Arithmetic.isFinite, Arithmetic.ofNat]
    have hy : (var "y" : Expr Exact).linearForm? "x" = some ⟨some 0, .var "y"⟩ := by
      simp [linearForm?, mentions, Arithmetic.ofNat]
    have hsum : (add (.const (some 0)) (.var "y") : Expr Exact).simplify = .var "y" := by
      simp [simplify, simplifyBin, simplifyAdd, isZero, Scalar.negligible, tests.negligible_zero]
    have hadd : (add (.mul (.const (some 2)) (.var "x")) (.var "y") : Expr Exact).linearForm? "x" =
        some ⟨some 2, .var "y"⟩ := by
      rw [linearForm?]
      simp [hscale, hy, mentions, LinearForm.add, hsum]
    have hrest : rest.simplify = rest := by
      norm_num [rest, simplify, simplifyBin, simplifyDiv, isOne, isMinusOne, isZero,
        Scalar.negligible, Arithmetic.ofNat, hn]
    rw [linearForm?]
    norm_num [hadd, hnum, hs, Scalar.substantial, LinearForm.divide, mentions]
    exact hrest
  have hn (v : ℝ) (hv : 1 ≤ v) : tests.negligible v = false := by
    show decide (|v| < 1e-9) = false
    rw [abs_of_pos (by linarith), decide_eq_false_iff_not, not_lt]
    norm_num
    linarith
  have hs : tests.substantial 4 = true := by
    show decide (1e-9 ≤ |(4 : ℝ)|) = true
    norm_num
  have hexact : e.LinearizesExactly "x" := by
    have hs' : tests.exact.substantial 4 = true := by
      show (tests.substantial 4 && _) = true
      simp [hs]
    refine (hrun tests hn hs).trans (hrun tests.exact (fun v hv => ?_) hs').symm
    exact ZeroTests.exact_negligible (hn v hv)
  have hdef : e.DefinedAt env := by
    simp [e, env, DefinedAt, parts, value, BinOp.apply, lookup, independent, dependent]
  obtain ⟨a, b, ha, hb, hvalue⟩ :=
    linearForm?_sound_complete.2 e "x" _ env 3 hexact (hrun tests hn hs) hdef rfl
  have hb' : rest.value env = some 2 := by
    show (some 8 : Exact) / some 4 = some 2
    norm_num
  cases ha
  cases hb'.symm.trans hb
  exact ⟨hexact, hrun tests hn hs, hdef, hvalue⟩

end SlopeField.Expr

end
