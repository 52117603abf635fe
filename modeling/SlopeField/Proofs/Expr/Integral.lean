import SlopeField.Expr.Integral
import SlopeField.Proofs.Success

/-!
# The rules of integration

The decomposition `linearForm?` and the antiderivative as judgments, with one
constructor for each rule. `isLinear_of_linearForm?` and
`isAntiderivative_of_ok` read the success of the functions as a derivation, so
that a fact about all antiderivatives is an induction over the rules.
-/

namespace SlopeField.Expr

variable {α : Type} [Scalar α] {v : String}

inductive IsLinear (v : String) : Expr α → LinearForm α → Prop
  | free : e.mentions v = false → IsLinear v e ⟨Arithmetic.ofNat 0, e⟩
  | var : IsLinear v (.var v) ⟨Arithmetic.ofNat 1, .const (Arithmetic.ofNat 0)⟩
  | neg : IsLinear v e form → IsLinear v (.neg e) form.neg
  | add : IsLinear v l forml → IsLinear v r formr → IsLinear v (.add l r) (forml.add formr)
  | sub : IsLinear v l forml → IsLinear v r formr → IsLinear v (.sub l r) (forml.sub formr)
  | scaleLeft : l.numericValue = some c → IsLinear v r form →
      IsLinear v (.mul l r) (form.scale c)
  | scaleRight : r.numericValue = some c → IsLinear v l form →
      IsLinear v (.mul l r) (form.scale c)
  | divide : r.numericValue = some c → Scalar.substantial c = true → IsLinear v l form →
      IsLinear v (.div l r) (form.divide c)

theorem isLinear_of_linearForm? {e : Expr α} {form : LinearForm α}
    (h : e.linearForm? v = some form) : IsLinear v e form := by
  fun_induction linearForm? e v generalizing form with
  | case1 e hf =>
    cases h
    exact .free (by simpa using hf)
  | case2 name hm =>
    cases h
    have hn : name = v := by simpa [mentions] using hm
    exact hn ▸ .var
  | case4 _ _ ih =>
    obtain ⟨f, hf, h⟩ := Option.bind_eq_some_iff.mp h
    cases h
    exact .neg (ih hf)
  | case6 _ _ _ ihl ihr =>
    obtain ⟨f, hf, h⟩ := Option.bind_eq_some_iff.mp h
    obtain ⟨g, hg, h⟩ := Option.bind_eq_some_iff.mp h
    cases h
    exact .add (ihl hf) (ihr hg)
  | case7 _ _ _ ihl ihr =>
    obtain ⟨f, hf, h⟩ := Option.bind_eq_some_iff.mp h
    obtain ⟨g, hg, h⟩ := Option.bind_eq_some_iff.mp h
    cases h
    exact .sub (ihl hf) (ihr hg)
  | case8 _ _ _ hc _ ih =>
    obtain ⟨f, hf, h⟩ := Option.bind_eq_some_iff.mp h
    cases h
    exact .scaleLeft hc (ih hf)
  | case9 _ _ _ _ hc _ ih =>
    obtain ⟨f, hf, h⟩ := Option.bind_eq_some_iff.mp h
    cases h
    exact .scaleRight hc (ih hf)
  | case11 _ _ _ hc hs _ ih =>
    obtain ⟨f, hf, h⟩ := Option.bind_eq_some_iff.mp h
    cases h
    exact .divide hc hs (ih hf)
  | case3 | case5 | case10 | case12 | case13 | case14 => cases h

def IsAffine (v : String) (e : Expr α) (a : α) : Prop :=
  ∃ form, IsLinear v e form ∧ form.slope = a ∧ Scalar.substantial a = true

theorem isAffine_of_affineSlope? {e : Expr α} {a : α} (h : e.affineSlope? v = some a) :
    IsAffine v e a := by
  obtain ⟨form, hform, ha⟩ := Option.bind_eq_some_iff.mp h
  split at ha
  · rename_i hs
    cases ha
    exact ⟨form, isLinear_of_linearForm? hform, rfl, hs⟩
  · cases ha

/-- The second tree is an antiderivative of the first with respect to `v`, by
the rules. -/
inductive IsAntiderivative (v : String) : Expr α → Expr α → Prop
  | free : e.mentions v = false → IsAntiderivative v e (.mul e (.var v))
  | var : IsAntiderivative v (.var v)
      (.div (.pow (.var v) (.const (Arithmetic.ofNat 2))) (.const (Arithmetic.ofNat 2)))
  | neg : IsAntiderivative v e F → IsAntiderivative v (.neg e) (.neg F)
  | add : IsAntiderivative v l L → IsAntiderivative v r R →
      IsAntiderivative v (.add l r) (.add L R)
  | sub : IsAntiderivative v l L → IsAntiderivative v r R →
      IsAntiderivative v (.sub l r) (.sub L R)
  | scaleLeft : l.mentions v = false → IsAntiderivative v r R →
      IsAntiderivative v (.mul l r) (.mul l R)
  | scaleRight : r.mentions v = false → IsAntiderivative v l L →
      IsAntiderivative v (.mul l r) (.mul r L)
  | divide : r.mentions v = false → IsAntiderivative v l L →
      IsAntiderivative v (.div l r) (.div L r)
  | log : l.mentions v = false → IsAntiderivative v (.div l (.var v)) (.mul l (lnAbs (.var v)))
  | logAffine : l.mentions v = false → IsAffine v r a →
      IsAntiderivative v (.div l r) (.mul (.div l (.const a)) r.lnAbs)
  | logPower : e.numericValue = some p →
      Scalar.negligible (p + Arithmetic.ofNat 1) = true →
      IsAntiderivative v (.pow (.var v) e) (lnAbs (.var v))
  | power : e.numericValue = some p →
      Scalar.negligible (p + Arithmetic.ofNat 1) = false →
      IsAntiderivative v (.pow (.var v) e)
        (.div (.pow (.var v) (.const (p + Arithmetic.ofNat 1))) (.const (p + Arithmetic.ofNat 1)))
  | exp : IsAffine v e a →
      IsAntiderivative v (.func .exp e) (.div (.func .exp e) (.const a))
  | sin : IsAffine v e a →
      IsAntiderivative v (.func .sin e) (.div (.neg (.func .cos e)) (.const a))
  | cos : IsAffine v e a →
      IsAntiderivative v (.func .cos e) (.div (.func .sin e) (.const a))
  | tan : IsAffine v e a →
      IsAntiderivative v (.func .tan e) (.div (.neg (lnAbs (.func .cos e))) (.const a))

theorem isAntiderivative_of_functionRule? {f : Fn} {e F : Expr α}
    (h : functionRule? f e v = some F) : IsAntiderivative v (.func f e) F := by
  obtain ⟨a, ha, h⟩ := Option.bind_eq_some_iff.mp h
  have ha := isAffine_of_affineSlope? ha
  cases f with
  | exp => cases h; exact .exp ha
  | sin => cases h; exact .sin ha
  | cos => cases h; exact .cos ha
  | tan => cases h; exact .tan ha
  | _ => cases h

theorem isAntiderivative_of_quotientRule? {l r F : Expr α} (hl : l.mentions v = false)
    (hr : r.mentions v = true) (h : quotientRule? l r v = some F) :
    IsAntiderivative v (.div l r) F := by
  unfold quotientRule? at h
  split at h
  · cases h
    rename_i name
    have hn : name = v := by simpa [mentions] using hr
    exact hn ▸ .log (hn ▸ hl)
  · obtain ⟨a, ha, rfl⟩ := Option.map_eq_some_iff.mp h
    exact .logAffine hl (isAffine_of_affineSlope? ha)

theorem isAntiderivative_of_powerRule? {b e F : Expr α} (h : powerRule? b e v = some F) :
    IsAntiderivative v (.pow b e) F := by
  unfold powerRule? at h
  split at h
  · split at h
    · rename_i name hn
      obtain ⟨p, hp, rfl⟩ := Option.map_eq_some_iff.mp h
      have hn : name = v := by simpa using hn
      subst hn
      simp only
      split
      · rename_i h0
        exact .logPower hp h0
      · rename_i h0
        exact .power hp (by simpa using h0)
    · cases h
  · cases h

theorem isAntiderivative_of_ok {e F : Expr α} (h : e.antiderivative v = .ok F) :
    IsAntiderivative v e F := by
  fun_induction antiderivative e v generalizing F with
  | case1 e hf =>
    cases h
    exact .free (by simpa using hf)
  | case2 name =>
    rename_i hm
    cases h
    have hn : name = v := by simpa [mentions] using hm
    exact hn ▸ .var
  | case3 => simp [mentions] at *
  | case4 _ _ ih =>
    obtain ⟨F, hF, h⟩ := bind_eq_ok.mp h
    cases h
    exact .neg (ih hF)
  | case5 => exact isAntiderivative_of_functionRule? (getD_error_eq_ok.mp h)
  | case6 _ _ _ ihl ihr =>
    obtain ⟨L, hL, h⟩ := bind_eq_ok.mp h
    obtain ⟨R, hR, h⟩ := bind_eq_ok.mp h
    cases h
    exact .add (ihl hL) (ihr hR)
  | case7 _ _ _ ihl ihr =>
    obtain ⟨L, hL, h⟩ := bind_eq_ok.mp h
    obtain ⟨R, hR, h⟩ := bind_eq_ok.mp h
    cases h
    exact .sub (ihl hL) (ihr hR)
  | case8 _ _ hl _ ih =>
    obtain ⟨R, hR, h⟩ := bind_eq_ok.mp h
    cases h
    exact .scaleLeft (by simpa using hl) (ih hR)
  | case9 _ _ _ hr _ ih =>
    obtain ⟨L, hL, h⟩ := bind_eq_ok.mp h
    cases h
    exact .scaleRight (by simpa using hr) (ih hL)
  | case11 _ _ hr _ ih =>
    obtain ⟨L, hL, h⟩ := bind_eq_ok.mp h
    cases h
    exact .divide (by simpa using hr) (ih hL)
  | case13 _ _ hr hl =>
    exact isAntiderivative_of_quotientRule? (by simpa using hl) (by simpa using hr)
      (getD_error_eq_ok.mp h)
  | case14 => exact isAntiderivative_of_powerRule? (getD_error_eq_ok.mp h)
  | case10 | case12 => cases h

theorem integrate_eq_ok {e F : Expr α} :
    e.integrate v = .ok F ↔ ∃ G, e.antiderivative v = .ok G ∧ G.simplify = F := by
  simp [integrate, bind_eq_ok, pure, Except.pure]

theorem isAntiderivative_of_integrate {e F : Expr α} (h : e.integrate v = .ok F) :
    ∃ G, IsAntiderivative v e G ∧ F = G.simplify := by
  obtain ⟨G, hG, rfl⟩ := integrate_eq_ok.mp h
  exact ⟨G, isAntiderivative_of_ok hG, rfl⟩

end SlopeField.Expr
