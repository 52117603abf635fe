import SlopeField.Proofs.Binary64.Overflow
import SlopeField.Proofs.Equation.GeneralSolution
import SlopeField.Proofs.Expr.Printed

/-!
# Finite constants

In floating point, the constants of a right-hand side and of the parts it is
sorted into are finite, and so are those of its solution if the slopes that the
integration divides by are (`solve_constants_isFinite`). These slopes are
products that nothing bounds: see `steep`.
-/

namespace SlopeField

theorem stable_isFinite : Expr.Stable fun c : Float => c.isFinite = true where
  zero := rfl
  one := rfl
  two := rfl
  finite h := h
  neg {c} h := by
    obtain ⟨s, e, m, he, rfl⟩ := Binary64.exists_fields h
    rw [Binary64.neg_ofFields]
    exact Binary64.status_ofFields.1
  succ h := Binary64.isFinite_add_one h

theorem readsIn_isFinite : ReadsIn fun c : Float => c.isFinite = true where
  finite h := h
  pi := rfl
  e := rfl

/-- The constants of every tree that is shown are finite, those of a solution
if the slopes of the affine arguments and denominators in its integrals are. -/
theorem solve_constants_isFinite (text : String) :
    (∀ R, (solve text : SolveRecord Float).rhs = some R → ∀ c ∈ R.constants, c.isFinite = true) ∧
    ∀ family, (solve text : SolveRecord Float).family = some family →
      (∀ p ∈ family.parts, ∀ c ∈ p.constants, c.isFinite = true) ∧
      ∀ S, (solve text : SolveRecord Float).solution = some S →
        (∀ e ∈ family.integrands, e.SlopesIn (fun a => a.isFinite = true) independent) →
        ∀ c ∈ S.constants, c.isFinite = true := by
  obtain ⟨s, hs, heq⟩ | ⟨message, heq⟩ := solve_eq (α := Float) text
  · obtain ⟨hparse, -, hfamily, hd⟩ := solveEquation_eq_ok hs
    have hR : s.rhs.LeavesIn IsWritable fun c => c.isFinite = true :=
      leavesIn_of_parseEquation readsIn_isFinite stable_isFinite hparse
    have hparts := Family.leavesIn_of_classify stable_isFinite hR
    rw [← hfamily] at hparts
    simp only [heq, Solution.record_rhs, Solution.record_family, Option.some.injEq,
      forall_eq', Solution.record_solution]
    refine ⟨(Expr.leavesIn_iff.mp hR).2, fun p hp => (Expr.leavesIn_iff.mp (hparts p hp)).2, ?_⟩
    intro S hS hslopes
    obtain ⟨d, hd', hS⟩ := Option.bind_eq_some_iff.mp hS
    rw [hd'] at hd
    cases Derivation.ends_of_ofFamily hd with
    | implicit _ hnone => cases hnone.symm.trans hS
    | explicit _ hsome hsolved =>
      cases hsome.symm.trans hS
      have hgeneral := hsolved.generalSolution (V := fun _ => True) stable_isFinite trivial
        (fun e he => (hparts e (Family.mem_parts_of_mem_xParts he)).mono (fun _ _ => trivial)
          fun _ => id) hslopes
      exact (Expr.leavesIn_iff.mp (hgeneral.leavesIn stable_isFinite)).2
  · simp [heq]

theorem exponential_constants_isFinite :
    ∃ S, (solve "dy/dx = exp(2 * x) * y" : SolveRecord Float).solution = some S ∧
      ∀ c ∈ S.constants, c.isFinite = true := by
  let factor : Expr Float := .func .exp (.mul (.const 2) (.var "x"))
  have hS : (solve "dy/dx = exp(2 * x) * y" : SolveRecord Float).solution =
      some (.mul (.var "C") (.func .exp (.div factor (.const 2)))) := by decide +kernel
  have hfamily : (solve "dy/dx = exp(2 * x) * y" : SolveRecord Float).family.map
      Family.integrands = some [factor] := by decide +kernel
  obtain ⟨family, hfamily, hintegrands⟩ := Option.map_eq_some_iff.mp hfamily
  have hslope : (Expr.mul (.const 2) (.var "x") : Expr Float).affineSlope? independent =
      some 2 := by decide +kernel
  refine ⟨_, hS, ((solve_constants_isFinite _).2 family hfamily).2 _ hS ?_⟩
  simp only [hintegrands, List.mem_singleton, forall_eq, Expr.SlopesIn, factor, Expr.arguments]
  intro p hp a ha
  obtain rfl : p = .mul (.const 2) (.var "x") := by simpa using hp
  cases hslope.symm.trans ha
  rfl

-- ---------------------------------------------------------------------------
-- A slope that overflows
-- ---------------------------------------------------------------------------

def hugeDigits : List Char := '1' :: List.replicate 155 '0'

def huge : String := String.ofList hugeDigits

def hugeValue : Float := 1e155

theorem toList_huge : huge.toList = hugeDigits := String.toList_ofList ..

-- The arithmetic of floats is evaluated to the end here, which recurses deeply.
set_option maxRecDepth 4096 in
theorem scans_huge : Scans huge.toList [(.number hugeValue : Token Float)] := by
  have hread : Binary64.read? huge = some hugeValue := by
    simp only [Binary64.read?, toList_huge]
    decide
  have hread : Numeral.read? huge = some hugeValue := hread
  intro tokens rest p _ hb
  refine Lexer.scan_number ?_ ?_ ?_ hb p
  · rw [toList_huge]
    exact List.cons_ne_nil _ _
  · rw [toList_huge]
    exact List.all_eq_true.mp (by decide)
  · rw [String.ofList_toList, Lexer.readNumber, hread]
    decide

/-- A slope of two factors, which are finite and whose product is not. -/
def steepSlope : Expr Float := .mul (.const hugeValue) (.mul (.const hugeValue) (.var independent))

def steep : String :=
  Fn.exp.name ++ Expr.parens true
    (huge ++ BinOp.mul.spaced ++ Expr.parens true (huge ++ BinOp.mul.spaced ++ independent))

set_option maxRecDepth 4096 in
theorem parse_steep : Expr.parse steep = .ok (.func .exp steepSlope) := by
  have hinner : Scans (huge ++ BinOp.mul.spaced ++ independent).toList
      [(.number hugeValue : Token Float), .op .mul, .var independent] := by
    simpa using scans_huge.bin .mul (scans_var (.inl rfl)) ⟨_, rfl, rfl⟩
  have houter := scans_huge.bin .mul (hinner.wrap true) ⟨_, rfl, rfl⟩
  have hscans := Scans.func .exp (s := huge ++ BinOp.mul.spaced ++ Expr.parens true
    (huge ++ BinOp.mul.spaced ++ independent)) (by simpa using houter)
  have hmul {us : List (Token Float)} {r : Expr Float} (h : Derives .atom us r) :
      Derives .sum ([.number hugeValue] ++ .op .mul :: us) (.mul (.const hugeValue) r) :=
    .ofProduct (.product (.inl rfl) (.ofPower (.ofUnary (.ofAtom .number))) (.ofUnary (.ofAtom h)))
  have hderives : Derives .sum _ (.func .exp steepSlope) :=
    .ofProduct (.ofPower (.ofUnary (.ofAtom (.func (hmul (.parens (hmul .var)))))))
  have hparse := parse_eq_ok (tokenize_of_scans hscans) hderives (by decide)
  have hsimplify : (Expr.func .exp steepSlope).simplify = .func .exp steepSlope := by
    decide
  rw [hsimplify] at hparse
  exact hparse

theorem steep_solution_not_finite :
    ∃ S, (solve ("dy/dx=" ++ steep) : SolveRecord Float).solution = some S ∧
      ∃ c ∈ S.constants, c.isFinite = false := by
  have hparse : parseEquation ("dy/dx=" ++ steep) = .ok (.func .exp steepSlope) := by
    have hdigits : '=' ∉ hugeDigits := by decide +kernel
    rw [parseEquation_append, parse_steep]
    simp [steep, Expr.parens, toList_huge, hdigits, Fn.name, BinOp.spaced, BinOp.symbol,
      independent]
  have hsome : ((solve ("dy/dx=" ++ steep) : SolveRecord Float).solution.any fun S =>
      S.constants.any fun c => !c.isFinite) = true := by
    rw [solve, solveEquation, hparse]
    decide +kernel
  simpa [Option.any_eq_true] using hsome

end SlopeField
