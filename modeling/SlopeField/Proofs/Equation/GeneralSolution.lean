import SlopeField.Proofs.Equation.Leaves

/-!
# The leaves of solutions

A solution is made of the parts free of `y`, the variable `x` and the constant of
integration, with the slopes met on the way (`GeneralSolution`).
-/

namespace SlopeField

open SlopeField.Expr (Stable LeavesIn)
open SlopeField.Derivation (arbitrary)

variable {α : Type} [Scalar α] {V : String → Prop} {K : α → Prop} {S : Expr α}

def Family.integrands : Family α → List (Expr α)
  | .direct f => [f]
  | .separable xPart _ _ => [xPart]
  | .linear a b =>
    let coefficient := (Expr.neg a).simplify
    match Derivation.integratingFactor a b with
    | .ok factor => [coefficient, factor.weighted]
    | .error _ => [coefficient]
  | .unsupported => []

/-- A solution made of the constant of integration and trees with leaves in `V`
and `K`. -/
inductive GeneralSolution (V : String → Prop) (K : α → Prop) : Expr α → Prop
  | sum : F.LeavesIn V K → GeneralSolution V K (Expr.add F arbitrary).simplify
  | multiple : F.LeavesIn V K → GeneralSolution V K (Expr.mul arbitrary (.func .exp F)).simplify
  | quotient : F.LeavesIn V K → P.LeavesIn V K →
      GeneralSolution V K (Expr.div (.add F arbitrary) (.func .exp P)).simplify

theorem Family.SolvedBy.generalSolution {family : Family α} (hK : Stable K)
    (hx : V independent) (h : family.SolvedBy S)
    (hparts : ∀ e ∈ family.xParts, e.LeavesIn V K)
    (hs : ∀ e ∈ family.integrands, e.SlopesIn K independent) : GeneralSolution V K S := by
  cases h with
  | direct hF =>
    exact .sum (.integrate hK hx hF (hparts _ (by simp [xParts])) (hs _ (by simp [integrands])))
  | separable _ hF =>
    exact .multiple
      (.integrate hK hx hF (hparts _ (by simp [xParts])) (hs _ (by simp [integrands])))
  | @linear a P mu b F hP hmu hF =>
    have hfactor : Derivation.integratingFactor a b =
        .ok ⟨(Expr.neg a).simplify, P, mu, (Expr.mul mu b).simplify⟩ := by
      simp [Derivation.integratingFactor, hP, hmu, pure, Except.pure]
    simp only [integrands, hfactor, List.mem_cons, List.not_mem_nil, or_false,
      forall_eq_or_imp, forall_eq] at hs
    obtain ⟨hsP, hsF⟩ := hs
    have ha : (Expr.neg a).LeavesIn V K := hparts a (by simp [xParts])
    have hPin := (LeavesIn.integrate hK hx hP (ha.simplify hK) hsP).simplify hK
    subst hmu
    have hweighted : (Expr.mul (.func .exp P.simplify) b).LeavesIn V K :=
      ⟨hPin, hparts b (by simp [xParts])⟩
    exact .quotient (.integrate hK hx hF (hweighted.simplify hK) hsF) hPin

theorem GeneralSolution.leavesIn (hK : Stable K) (h : GeneralSolution V K S) :
    S.LeavesIn (fun v => V v ∨ v = integrationConstant) K := by
  have hinl {e : Expr α} (he : e.LeavesIn V K) :
      e.LeavesIn (fun v => V v ∨ v = integrationConstant) K := he.mono (fun _ => .inl) fun _ => id
  cases h with
  | sum hF => exact .simplify hK ⟨hinl hF, .inr rfl⟩
  | multiple hF => exact .simplify hK ⟨.inr rfl, hinl hF⟩
  | quotient hF hP => exact .simplify hK ⟨⟨hinl hF, .inr rfl⟩, hinl hP⟩

end SlopeField
