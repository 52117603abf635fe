import SlopeField.Proofs.Binary64.Operations
import SlopeField.Proofs.Equation.Finite
import SlopeField.Proofs.Exact.Solution

/-!
# The value of a printed tree that is read again

Reading the printed form of a tree groups sums and products to the left and
writes a negative number as a negation. With the exact values of its numbers
the tree keeps its value under both (`value_reading`), and simplifying keeps it
if every test that passes does so on the number itself
(`parse_rendered_parse`). The tree over floats that is read has that value too, if
nothing is rounded on the way (`parse_rendered_unrounded`).
-/

noncomputable section

namespace SlopeField

def Binary64.exact (v : Float) : Exact :=
  match v.toModel.unpack with
  | .zero _ => some 0
  | .finite s m e _ => some ((s.apply (m : ℤ) : ℤ) * (2 : ℝ) ^ e)
  | _ => none

namespace Binary64

variable {v : Float}

theorem exact_eq_none (h : v.isFinite = false) : exact v = none := by
  have h : v.toModel.unpack.isFinite = false := h
  unfold exact
  generalize v.toModel.unpack = u at h ⊢
  cases u with
  | notANumber | infinity => rfl
  | zero | finite => cases h

theorem exact_neg (v : Float) : exact (-v) = -exact v := by
  cases h : v.isFinite with
  | false =>
    have hneg : (-v).isFinite = false := by
      refine Bool.eq_false_iff.mpr fun hneg => ?_
      rw [isFinite_of_neg hneg] at h
      cases h
    rw [exact_eq_none hneg, exact_eq_none h]
    rfl
  | true =>
    obtain ⟨s, e, m, he, rfl⟩ := exists_fields h
    obtain ⟨u, hu, hfields⟩ := unpack_packComponents he m
    simp only [exact, neg_ofFields, unpack_ofFields, hfields]
    obtain ⟨-, rfl⟩ | ⟨-, hpos, rfl⟩ := hu
    · simp
    · have hs (n : ℤ) : (-s).apply n = -s.apply n := by
        cases s with
        | positive => rfl
        | negative => exact (neg_neg n).symm
      simp [hs]

theorem exact_of_isZero (hz : Scalar.isZero v = true) : exact v = some 0 := by
  have hz : (v.toModel.unpack.compare (0.0 : Float).toModel.unpack == some .eq) = true := hz
  rw [unpack_zero] at hz
  unfold exact
  generalize v.toModel.unpack = u at hz ⊢
  cases u with
  | zero => rfl
  | notANumber => cases hz
  | infinity s | finite s => cases s <;> cases hz

theorem exact_of_unpack {m : ℕ} {e : ℤ} {hm : m > 0}
    (h : v.toModel.unpack = .finite .positive m e hm) : exact v = some ((m : ℝ) * 2 ^ e) := by
  simp only [exact, h, Float.Model.UnpackedFloat.Sign.apply, Int.cast_natCast]

theorem exact_two : exact 2.0 = some 2 := by
  have hunpack : (2.0 : Float).toModel.unpack = .finite .positive (2 ^ 52) (-51) (by decide) := rfl
  rw [exact_of_unpack hunpack]
  norm_num

theorem denotes_exact : Expr.Denotes exact where
  zero := exact_of_isZero rfl
  one := by
    have hunpack : (Arithmetic.ofNat 1 : Float).toModel.unpack =
        .finite .positive (2 ^ 52) (-52) (by decide) := rfl
    rw [exact_of_unpack hunpack]
    norm_num
  neg := exact_neg
  isZero := exact_of_isZero

theorem exact_of_not_isZero (h : v.isFinite = true) (hz : Scalar.isZero v = false) :
    ∃ r : ℝ, exact v = some r ∧ r ≠ 0 := by
  obtain ⟨s, e, m, he, rfl⟩ := exists_fields h
  obtain ⟨u, hu, hfields⟩ := unpack_packComponents he m
  have hz : (ofFields s e m he == 0.0) = false := hz
  rw [beq_zero_ofFields, decide_eq_false_iff_not] at hz
  obtain ⟨hn, -⟩ | ⟨-, hpos, rfl⟩ := hu
  · exact (hz hn).elim
  · refine ⟨s.apply ((magnitude e m).mantissa : ℤ) * 2 ^ (magnitude e m).exponent,
      by simp only [exact, unpack_ofFields, hfields], ?_⟩
    have hs : s.apply ((magnitude e m).mantissa : ℤ) ≠ 0 := by
      cases s <;> simp only [Float.Model.UnpackedFloat.Sign.apply] <;> omega
    exact mul_ne_zero (Int.cast_ne_zero.mpr hs) (by positivity)

end Binary64

namespace Exact

variable (a b c : Exact)

theorem add_assoc : a + b + c = a + (b + c) := Option.map₂_assoc fun x y z => by ring

theorem add_sub_assoc : a + b - c = a + (b - c) := Option.map₂_assoc fun x y z => by ring

theorem mul_assoc : a * b * c = a * (b * c) := Option.map₂_assoc fun x y z => by ring

theorem mul_div_assoc : a * b / c = a * (b / c) := by
  cases a with
  | none => rfl
  | some x => cases b with
    | none => rfl
    | some y => cases c with
      | none => rfl
      | some z =>
        by_cases hz : z = 0
        · have hnone (v : ℝ) : (some v / some z : Exact) = none := if_pos hz
          rw [mul_some, hnone, hnone]
          rfl
        · rw [mul_some, div_some hz, div_some hz, mul_some]
          simp only [Option.some.injEq]
          ring

end Exact

namespace Expr

def exact : Expr Float → Expr Exact
  | .var name => .var name
  | .const c => .const (Binary64.exact c)
  | .neg e => .neg e.exact
  | .func f e => .func f e.exact
  | .bin op l r => .bin op l.exact r.exact

theorem exact_eq_map (e : Expr Float) : e.exact = e.map Binary64.exact := by
  induction e with
  | var | const => rfl
  | neg _ ih | func _ _ ih => rw [exact, ih, map]
  | bin _ _ _ ihl ihr => rw [exact, ihl, ihr, map]

theorem exact_join (o : BinOp) (l r : Expr Float) :
    (join o l r).exact = join o l.exact r.exact := by
  induction r with
  | bin o' b d ihb _ =>
    by_cases h : o'.precedence = o.precedence
    · simp only [join_bin_of_eq h, exact, ihb]
    · simp only [join_bin_of_ne h, exact]
  | _ => rfl

theorem exact_combine (o : BinOp) (l r : Expr Float) :
    (combine o l r).exact = combine o l.exact r.exact := by
  unfold combine
  split
  · rfl
  · exact exact_join o l r

variable [tests : ZeroTests] {env : String → Exact}

theorem value_join {o : BinOp} (ho : o.strictRight = false) (l r : Expr Exact) :
    (join o l r).value env = (bin o l r).value env := by
  induction r with
  | bin o' b d ihb _ =>
    by_cases h : o'.precedence = o.precedence
    · rw [join_bin_of_eq h, value, ihb]
      cases o with
      | sub | div | pow => cases ho
      | add =>
        cases o' with
        | add => exact Exact.add_assoc _ _ _
        | sub => exact Exact.add_sub_assoc _ _ _
        | mul | div | pow => cases h
      | mul =>
        cases o' with
        | mul => exact Exact.mul_assoc _ _ _
        | div => exact Exact.mul_div_assoc _ _ _
        | add | sub | pow => cases h
    · rw [join_bin_of_ne h]
  | _ => rfl

theorem value_combine (o : BinOp) (l r : Expr Exact) :
    (combine o l r).value env = (bin o l r).value env := by
  unfold combine
  split
  · rfl
  · rename_i ho
    exact value_join (by simpa using ho) l r

theorem value_reading {e : Expr Float} (h : ∀ c ∈ e.constants, c.isFinite = true) :
    e.reading.exact.value env = e.exact.value env := by
  induction e with
  | var => rfl
  | const c =>
    have hc := h c (by simp [constants])
    unfold reading
    split
    · rename_i hz
      show Binary64.exact _ = Binary64.exact c
      rw [Binary64.exact_of_isZero hz]
      rfl
    · split
      · show -Binary64.exact (-c) = Binary64.exact c
        rw [Binary64.exact_neg]
        cases Binary64.exact c with
        | none => rfl
        | some r => simp
      · rfl
  | neg _ ih => simp only [reading, exact, value, ih h]
  | func _ _ ih => simp only [reading, exact, value, ih h]
  | bin o l r ihl ihr =>
    rw [reading, exact_combine, value_combine, value, exact, value,
      ihl fun c hc => h c (by simp [constants, hc]),
      ihr fun c hc => h c (by simp [constants, hc])]

/-- No test of the simplifier succeeds on a number other than zero, so that
nothing changes where the tests are made exact. -/
def SimplifiesExactly (e : Expr Exact) : Prop :=
  e.simplify = @simplify Exact (@Exact.scalar tests.exact) e

theorem SimplifiesExactly.eval {e : Expr Exact} (h : e.SimplifiesExactly)
    {x y : Exact} {z : ℝ} (hz : e.eval x y = some z) : e.simplify.eval x y = some z := by
  rw [h]
  simp only [eval_tests tests tests.exact] at hz ⊢
  let _ := tests.exact
  rw [eval_eq_value] at hz ⊢
  exact simplify_refines e z hz

end Expr

section
variable {text : String} {e : Expr Float}

theorem leaves_of_parse (h : Expr.parse text = .ok e) :
    (∀ v, e.mentions v = true → v = independent ∨ v = dependent) ∧
      ∀ c ∈ e.constants, c.isFinite = true :=
  Expr.leavesIn_iff.mp (leavesIn_of_parse readsIn_isFinite stable_isFinite h)

theorem eval_reading_of_parse [ZeroTests] (h : Expr.parse text = .ok e) (x y : Exact) :
    e.reading.exact.eval x y = e.exact.eval x y := by
  rw [Expr.eval_eq_value, Expr.value_reading (leaves_of_parse h).2, ← Expr.eval_eq_value]

/-- The printed form of a tree that was read is read again as the simplified
reading, or refused where that is too deep. -/
theorem parse_render_of_parse (h : Expr.parse text = .ok e) :
    Expr.parse e.render =
      if e.reading.depth ≤ maxDepth then .ok e.reading.simplify
      else .error (.tooDeep maxDepth) := by
  obtain ⟨hvar, hfinite⟩ := leaves_of_parse h
  have htokens := tokenize_render e hvar fun c hc => scans_const (hfinite c hc)
  have hderives := (derives_tokens e).mono e.phrase.le_strength
  rw [Expr.parse, read_of_tokenize htokens hderives]
  split <;> rfl

/-- Printing a tree that was read and reading it again keeps its value, rounding
aside. -/
theorem parse_rendered_parse (h : Expr.parse text = .ok e) :
    (Expr.parse e.render =
      if e.reading.depth ≤ maxDepth then .ok e.reading.simplify
      else .error (.tooDeep maxDepth)) ∧
    ∀ [ZeroTests], e.reading.exact.SimplifiesExactly → ∀ x y z : ℝ,
      e.exact.eval (some x) (some y) = some z →
        e.reading.exact.simplify.eval (some x) (some y) = some z := by
  refine ⟨parse_render_of_parse h, ?_⟩
  intro _ hexact x y z hz
  exact hexact.eval ((eval_reading_of_parse h _ _).trans hz)

end

/-- The printed form `x + 2 - y` of `x + (2 - y)` groups the other way. -/
theorem parse_regrouped_difference :
    letI := ZeroTests.within 1e-9 (by norm_num)
    ∃ e : Expr Float, Expr.parse "x + (2 - y)" = .ok e ∧
      Expr.parse e.render = .ok (.sub (.add (.var "x") (.const (2.0 : Float))) (.var "y")) ∧
      e.reading.exact.SimplifiesExactly ∧
      e.reading.exact.simplify.eval (some 1) (some 5) = some (1 + (2 - 5)) := by
  let tests := ZeroTests.within 1e-9 (by norm_num)
  let e : Expr Float := .add (.var "x") (.sub (.const 2.0) (.var "y"))
  have hparse : Expr.parse "x + (2 - y)" = .ok e :=
    toOption_eq_some.mp (by with_unfolding_all decide)
  have hreading : e.reading = .sub (.add (.var "x") (.const 2.0)) (.var "y") := by decide
  have hself (tests : ZeroTests) (h : tests.negligible 2 = false) :
      e.reading.exact.simplify = e.reading.exact := by
    simp [hreading, Expr.exact, Binary64.exact_two, Expr.simplify, Expr.simplifyBin,
      Expr.simplifySub, Expr.simplifyAdd, Expr.isZero, Scalar.negligible, h]
  have htwo : tests.negligible 2 = false := by
    show decide (|(2 : ℝ)| < 1e-9) = false
    norm_num
  have hexact : e.reading.exact.SimplifiesExactly := by
    have htwo' : tests.exact.negligible 2 = false := by
      show (tests.negligible 2 && _) = false
      rw [htwo, Bool.false_and]
    rw [Expr.SimplifiesExactly, hself tests htwo, hself tests.exact htwo']
  obtain ⟨hrender, hvalue⟩ := parse_rendered_parse hparse
  refine ⟨e, hparse, ?_, hexact, hvalue hexact 1 5 _ ?_⟩
  · rw [hrender, hreading]
    exact toOption_eq_some.mp (by with_unfolding_all decide)
  · simp [e, Expr.eval_eq_value, Expr.exact, Expr.value, BinOp.apply, Binary64.exact_two,
      Expr.lookup, independent, dependent]

/-- If no operation that is folded on the way is rounded, the tree that is read
again has the value of the tree that was printed. -/
theorem parse_rendered_unrounded [ZeroTests] {text : String} {e e' : Expr Float}
    (h : Expr.parse text = .ok e) (hagain : Expr.parse e.render = .ok e')
    (hfaithful : e.reading.SimplifiesFaithfully Binary64.exact) {x y : Exact} {z : ℝ}
    (hz : e.exact.eval x y = some z) : e'.exact.eval x y = some z := by
  rw [parse_render_of_parse h] at hagain
  split at hagain
  · cases hagain
    rw [← eval_reading_of_parse h, Expr.eval_eq_value, Expr.exact_eq_map] at hz
    rw [Expr.eval_eq_value, Expr.exact_eq_map]
    exact Expr.simplify_map_refines Binary64.denotes_exact hfaithful z hz
  · cases hagain

/-- The printed form `2 * 2 * x` of `2 * (2 * x)` is read with its constants
folded. -/
theorem parse_refolded_product [ZeroTests] (x : ℝ) (y : Exact) :
    ∃ e e' : Expr Float, Expr.parse "2 * (2 * x)" = .ok e ∧ Expr.parse e.render = .ok e' ∧
      e' = .mul (.const 4.0) (.var "x") ∧ e'.exact.eval (some x) y = some (2 * (2 * x)) := by
  let e : Expr Float := .mul (.const 2.0) (.mul (.const 2.0) (.var "x"))
  have hparse : Expr.parse "2 * (2 * x)" = .ok e :=
    toOption_eq_some.mp (by with_unfolding_all decide)
  have hagain : Expr.parse e.render = .ok (.mul (.const (4.0 : Float)) (.var "x")) :=
    toOption_eq_some.mp (by with_unfolding_all decide)
  have hreading : e.reading = .mul (.mul (.const 2.0) (.const 2.0)) (.var "x") := by decide
  have hfold : Expr.FoldsFaithfully Binary64.exact .mul 2.0 2.0 := by
    intro _
    have hunpack : (2.0 * 2.0 : Float).toModel.unpack =
        .finite .positive (2 ^ 52) (-50) (by decide) := rfl
    show Binary64.exact (2.0 * 2.0) = Binary64.exact 2.0 * Binary64.exact 2.0
    rw [Binary64.exact_of_unpack hunpack, Binary64.exact_two, Exact.mul_some]
    norm_num
  have hfour : Expr.Recognized Binary64.exact 4.0 :=
    ⟨(absurd · (by decide)), (absurd · (by decide)), (absurd · (by decide))⟩
  have hfaithful : e.reading.SimplifiesFaithfully Binary64.exact := by
    rw [hreading]
    exact ⟨⟨trivial, trivial, hfold⟩, trivial, hfour⟩
  refine ⟨e, _, hparse, hagain, rfl, parse_rendered_unrounded hparse hagain hfaithful ?_⟩
  simp [e, Expr.eval_eq_value, Expr.exact, Expr.value, BinOp.apply, Binary64.exact_two,
    Expr.lookup, independent]

-- ---------------------------------------------------------------------------
-- What the tolerance and the bound on the depth change
-- ---------------------------------------------------------------------------

def sumOf : Nat → Expr Float
  | 0 => .var independent
  | n + 1 => .add (sumOf n) (.var independent)

theorem sumOf_leaves (n : Nat) :
    (∀ v, (sumOf n).mentions v = true → v = independent ∨ v = dependent) ∧
      (sumOf n).constants = [] := by
  induction n with
  | zero => exact ⟨fun v hv => .inl (beq_iff_eq.mp hv).symm, rfl⟩
  | succ n ih =>
    refine ⟨?_, by simp [sumOf, Expr.constants, ih.2]⟩
    simp only [sumOf, Expr.mentions, Bool.or_eq_true, beq_iff_eq]
    rintro v (hv | rfl)
    · exact ih.1 v hv
    · exact .inl rfl

theorem depth_sumOf (n : Nat) : (sumOf n).depth = n + 1 := by
  induction n with
  | zero => rfl
  | succ n ih => simp [sumOf, Expr.depth, ih]

theorem reading_sumOf (n : Nat) : (sumOf n).reading = sumOf n := by
  induction n with
  | zero => rfl
  | succ n ih =>
    rw [sumOf, Expr.reading, ih]
    rfl

theorem simplify_sumOf (n : Nat) : (sumOf n).simplify = sumOf n := by
  induction n with
  | zero => rfl
  | succ n ih =>
    rw [sumOf, Expr.simplify, ih]
    cases n <;> rfl

theorem depth_join_sumOf (m n : Nat) :
    (Expr.join .add (sumOf m) (sumOf n)).depth = m + n + 2 := by
  induction n with
  | zero => simp [sumOf, Expr.join, Expr.depth, depth_sumOf]
  | succ n ih =>
    rw [sumOf, Expr.join_bin_of_eq rfl, Expr.depth, ih]
    simp [Expr.depth]
    omega

theorem parse_sums {n : Nat} (h : n + 2 ≤ maxDepth) :
    Expr.parse ((sumOf n).render ++ BinOp.add.spaced ++ Expr.parens true (sumOf n).render) =
      .ok (.add (sumOf n) (sumOf n)) := by
  obtain ⟨hvar, hconst⟩ := sumOf_leaves n
  have hscans := scans_render (sumOf n) hvar (by simp [hconst])
  have hderives := (derives_tokens (sumOf n)).mono (sumOf n).phrase.le_strength
  rw [reading_sumOf] at hderives
  have hwritten : Scans
      ((sumOf n).render ++ BinOp.add.spaced ++ Expr.parens true (sumOf n).render).toList
      ((sumOf n).tokens ++ .op .add :: Expr.wrapTokens true (sumOf n).tokens) := by
    simpa using hscans.bin .add (hscans.wrap true) hderives.last
  have hsum : Derives .sum ((sumOf n).tokens ++ .op .add :: Expr.wrapTokens true (sumOf n).tokens)
      (.add (sumOf n) (sumOf n)) :=
    .sum (.inl rfl) hderives (.ofPower (.ofUnary (.ofAtom (.parens hderives))))
  have hdepth : (Expr.add (sumOf n) (sumOf n)).depth ≤ maxDepth := by
    simp only [Expr.depth, depth_sumOf]
    omega
  rw [parse_eq_ok (tokenize_of_scans hwritten) hsum hdepth, Expr.simplify, simplify_sumOf]
  cases n <;> rfl

theorem parse_render_sums {n : Nat} (h : n + 2 ≤ maxDepth) (hdeep : maxDepth < 2 * n + 2) :
    (Expr.parse (Expr.add (sumOf n) (sumOf n)).render : Except ParseError (Expr Float)) =
      .error (.tooDeep maxDepth) := by
  have hdepth : (Expr.add (sumOf n) (sumOf n)).reading.depth = 2 * n + 2 := by
    rw [Expr.reading, reading_sumOf]
    exact (depth_join_sumOf n n).trans (by omega)
  rw [parse_render_of_parse (parse_sums h), if_neg (by omega)]

/-- Two factors that are not near zero, and whose product is, are folded when
they come to stand side by side; and a sum on the right of another gets as deep
as both together when it loses its parentheses. -/
theorem parse_rendered_differs :
    letI := ZeroTests.within 1e-9 (by norm_num)
    (∃ e e' : Expr Float, Expr.parse "0.0001 * (0.00000001 * x)" = .ok e ∧
      Expr.parse e.render = .ok e' ∧ ∃ z z' : ℝ, e.exact.eval (some 1) (some 0) = some z ∧
        e'.exact.eval (some 1) (some 0) = some z' ∧ z ≠ z') ∧
    ∃ (text : String) (e : Expr Float), Expr.parse text = .ok e ∧
      (Expr.parse e.render : Except ParseError (Expr Float)) = .error (.tooDeep maxDepth) := by
  let _ := ZeroTests.within 1e-9 (by norm_num)
  refine ⟨?_, _, _, parse_sums (n := 128) (by decide), parse_render_sums (by decide) (by decide)⟩
  let e : Expr Float := .mul (.const 0.0001) (.mul (.const 0.00000001) (.var "x"))
  have hparse : Expr.parse "0.0001 * (0.00000001 * x)" = .ok e :=
    toOption_eq_some.mp (by with_unfolding_all decide)
  have hagain : Expr.parse e.render = .ok (.const (0.0 : Float)) :=
    toOption_eq_some.mp (by with_unfolding_all decide)
  obtain ⟨a, ha, hane⟩ :=
    Binary64.exact_of_not_isZero (v := 0.0001) (by decide) (by decide)
  obtain ⟨b, hb, hbne⟩ :=
    Binary64.exact_of_not_isZero (v := 0.00000001) (by decide) (by decide)
  refine ⟨e, _, hparse, hagain, a * (b * 1), 0, ?_, ?_, ?_⟩
  · simp [e, Expr.eval_eq_value, Expr.exact, Expr.value, BinOp.apply, ha, hb, Expr.lookup,
      independent]
  · rw [Expr.eval_eq_value]
    exact Binary64.exact_of_isZero rfl
  · simpa using ⟨hane, hbne⟩

end SlopeField

end
