import SlopeField.Equation.Factors
import SlopeField.Proofs.Expr.Integral
import SlopeField.Proofs.Expr.Normal

/-!
# The leaves of a tree

`LeavesIn V K e`: every variable of `e` satisfies `V` and every constant `K`.
Simplifying brings in no variable, and of constants only finite ones and
negatives. Integrating brings in the variable of integration and, of constants,
also the slopes of affine arguments and denominators.
-/

namespace SlopeField.Expr

variable {α : Type} {V : String → Prop} {K : α → Prop} {e l r : Expr α}

def constants : Expr α → List α
  | .var _ => []
  | .const c => [c]
  | .neg e => e.constants
  | .func _ e => e.constants
  | .bin _ l r => l.constants ++ r.constants

def parts : Expr α → List (Expr α)
  | .var name => [.var name]
  | .const c => [.const c]
  | .neg e => .neg e :: e.parts
  | .func f e => .func f e :: e.parts
  | .bin op l r => .bin op l r :: (l.parts ++ r.parts)

@[simp] theorem self_mem_parts (e : Expr α) : e ∈ e.parts := by
  cases e <;> simp [parts]

/-- Every variable of the tree satisfies `V` and every constant `K`. -/
def LeavesIn (V : String → Prop) (K : α → Prop) : Expr α → Prop
  | .var name => V name
  | .const c => K c
  | .neg e => e.LeavesIn V K
  | .func _ e => e.LeavesIn V K
  | .bin _ l r => l.LeavesIn V K ∧ r.LeavesIn V K

theorem leavesIn_iff :
    e.LeavesIn V K ↔ (∀ v, e.mentions v = true → V v) ∧ ∀ c ∈ e.constants, K c := by
  induction e with
  | var | const => simp [LeavesIn, mentions, constants]
  | neg _ ih => exact ih
  | func _ _ ih => exact ih
  | bin _ _ _ ihl ihr =>
    simp only [LeavesIn, ihl, ihr, mentions, constants, Bool.or_eq_true, List.mem_append]
    constructor
    · rintro ⟨⟨hvl, hcl⟩, hvr, hcr⟩
      exact ⟨fun v hv => hv.elim (hvl v) (hvr v), fun c hc => hc.elim (hcl c) (hcr c)⟩
    · rintro ⟨hv, hc⟩
      exact ⟨⟨fun v h => hv v (.inl h), fun c h => hc c (.inl h)⟩,
        fun v h => hv v (.inr h), fun c h => hc c (.inr h)⟩

namespace LeavesIn

theorem mono {V' : String → Prop} {K' : α → Prop} (h : e.LeavesIn V K) (hV : ∀ v, V v → V' v)
    (hK : ∀ c, K c → K' c) : e.LeavesIn V' K' := by
  induction e with
  | var name => exact hV name h
  | const c => exact hK c h
  | neg _ ih => exact ih h
  | func _ _ ih => exact ih h
  | bin _ _ _ ihl ihr => exact ⟨ihl h.1, ihr h.2⟩

theorem signed (h : e.LeavesIn V K) (negative : Bool) : (e.signed negative).LeavesIn V K := by
  cases negative <;> exact h

section
variable {es : List (Expr α)}

theorem foldl {op : BinOp} (he : e.LeavesIn V K) (h : ∀ f ∈ es, f.LeavesIn V K) :
    (es.foldl (.bin op) e).LeavesIn V K := by
  induction es generalizing e with
  | nil => exact he
  | cons f es ih => exact ih ⟨he, h f (by simp)⟩ fun g hg => h g (by simp [hg])

variable [Arithmetic α]

theorem product (h1 : K (Arithmetic.ofNat 1)) (h : ∀ f ∈ es, f.LeavesIn V K) :
    (product es).LeavesIn V K := by
  cases es with
  | nil => exact h1
  | cons e es => exact foldl (h e (by simp)) fun f hf => h f (by simp [hf])

theorem sum (h0 : K (Arithmetic.ofNat 0)) (h : ∀ f ∈ es, f.LeavesIn V K) :
    (sum es).LeavesIn V K := by
  cases es with
  | nil => exact h0
  | cons e es => exact foldl (h e (by simp)) fun f hf => h f (by simp [hf])

end

end LeavesIn

-- ---------------------------------------------------------------------------
-- Factors and terms
-- ---------------------------------------------------------------------------

theorem leavesIn_factors (h : e.LeavesIn V K) :
    (∀ f ∈ (ProductFactors.of e).numerator, f.LeavesIn V K) ∧
      ∀ f ∈ (ProductFactors.of e).denominator, f.LeavesIn V K := by
  fun_induction ProductFactors.of e with
  | case1 l r ihl ihr =>
    obtain ⟨⟨hln, hld⟩, hrn, hrd⟩ := And.intro (ihl h.1) (ihr h.2)
    simp only [ProductFactors.mul, List.mem_append]
    exact ⟨fun f hf => hf.elim (hln f) (hrn f), fun f hf => hf.elim (hld f) (hrd f)⟩
  | case2 l r ihl ihr =>
    obtain ⟨⟨hln, hld⟩, hrn, hrd⟩ := And.intro (ihl h.1) (ihr h.2)
    simp only [ProductFactors.mul, ProductFactors.inverse, List.mem_append]
    exact ⟨fun f hf => hf.elim (hln f) (hrd f), fun f hf => hf.elim (hld f) (hrn f)⟩
  | case3 _ ih => exact ih h
  | case4 => simpa using h

theorem leavesIn_signedTerms (h : e.LeavesIn V K) :
    ∀ t ∈ signedTerms e, t.2.LeavesIn V K := by
  fun_induction signedTerms e with
  | case1 l r ihl ihr =>
    simp only [List.mem_append]
    exact fun t ht => ht.elim (ihl h.1 t) (ihr h.2 t)
  | case2 l r ihl ihr =>
    simp only [List.mem_append, List.mem_map]
    rintro t (ht | ⟨t, ht, rfl⟩)
    · exact ihl h.1 t ht
    · exact ihr h.2 t ht
  | case3 _ ih =>
    simp only [List.mem_map]
    rintro t ⟨t, ht, rfl⟩
    exact ih h t ht
  | case4 => simpa using h

-- ---------------------------------------------------------------------------
-- Simplifying
-- ---------------------------------------------------------------------------

variable [Scalar α]

/-- What the rules ask of a property of constants, so that they keep it. -/
structure Stable (K : α → Prop) : Prop where
  zero : K (Arithmetic.ofNat 0)
  one : K (Arithmetic.ofNat 1)
  two : K (Arithmetic.ofNat 2)
  finite {c : α} : Arithmetic.isFinite c = true → K c
  neg {c : α} : K c → K (-c)
  /-- The next exponent, in the rule for powers. -/
  succ {c : α} : Arithmetic.isFinite c = true → K (c + Arithmetic.ofNat 1)

theorem Stable.trivial : Stable fun _ : α => True := by
  constructor <;> intros <;> exact True.intro

namespace LeavesIn

variable {c : α}

theorem fold {value : α} (hK : Stable K) (h : e.LeavesIn V K) :
    (fold value e).LeavesIn V K := by
  unfold Expr.fold
  split
  · rename_i hf
    exact hK.finite hf
  · exact h

theorem simplifyNeg (hK : Stable K) (h : e.LeavesIn V K) : (simplifyNeg e).LeavesIn V K := by
  fun_cases Expr.simplifyNeg e with
  | case1 =>
    simp only [LeavesIn]
    split
    · exact hK.zero
    · exact hK.neg h
  | case2 | case3 => exact h

theorem scale (hK : Stable K) (hc : K c) (h : e.LeavesIn V K) : (scale c e).LeavesIn V K := by
  fun_induction Expr.scale c e with
  | case1 => exact fold hK ⟨hc, h⟩
  | case2 | case7 => exact hK.zero
  | case3 | case8 => exact h
  | case4 | case9 => exact simplifyNeg hK h
  | case5 _ _ _ _ _ _ _ hq ih =>
    obtain ⟨⟨-, hf⟩, rfl⟩ := quotientFactor?_eq_some.mp hq
    exact ih (hK.finite hf) h.1
  | case6 | case10 => exact ⟨hc, h⟩

theorem scaleRight (hK : Stable K) (hc : K c) (h : e.LeavesIn V K) :
    (scaleRight e c).LeavesIn V K := by
  fun_cases Expr.scaleRight e c with
  | case1 => exact hK.zero
  | case2 => exact h
  | case3 => exact simplifyNeg hK h
  | case4 _ _ _ _ _ _ hq =>
    obtain ⟨⟨-, hf⟩, rfl⟩ := quotientFactor?_eq_some.mp hq
    exact scale hK (hK.finite hf) h.1
  | case5 | case6 => exact ⟨h, hc⟩

theorem simplifyBin (hK : Stable K) (op : BinOp) (hl : l.LeavesIn V K) (hr : r.LeavesIn V K) :
    (simplifyBin op l r).LeavesIn V K := by
  have hself : (bin op l r).LeavesIn V K := ⟨hl, hr⟩
  cases op with
  | add =>
    simp only [Expr.simplifyBin]
    fun_cases simplifyAdd l r with
    | case1 => exact fold hK hself
    | case2 => exact hl
    | case3 => exact hr
    | case4 => exact hself
  | sub =>
    simp only [Expr.simplifyBin]
    fun_cases simplifySub l r with
    | case1 => exact fold hK hself
    | case2 => exact hl
    | case3 => exact simplifyNeg hK hr
    | case4 => exact hself
  | mul =>
    simp only [Expr.simplifyBin]
    fun_cases simplifyMul l r with
    | case1 => exact scale hK hl hr
    | case2 => exact scaleRight hK hr hl
    | case3 => exact hself
  | div =>
    simp only [Expr.simplifyBin]
    fun_cases simplifyDiv l r with
    | case1 => exact fold hK hself
    | case2 => exact hl
    | case3 => exact simplifyNeg hK hl
    | case4 => exact hK.zero
    | case5 => exact hself
  | pow =>
    simp only [Expr.simplifyBin]
    fun_cases simplifyPow l r with
    | case1 => exact fold hK hself
    | case2 => exact hK.one
    | case3 => exact hl
    | case4 => exact hself

theorem simplify (hK : Stable K) (h : e.LeavesIn V K) : e.simplify.LeavesIn V K := by
  induction e with
  | var | const => exact h
  | neg _ ih => exact simplifyNeg hK (ih h)
  | func _ _ ih => exact ih h
  | bin op _ _ ihl ihr => exact simplifyBin hK op (ihl h.1) (ihr h.2)

end LeavesIn

-- ---------------------------------------------------------------------------
-- Integrating
-- ---------------------------------------------------------------------------

/-- The arguments of functions and the denominators, which are what a rule may
ask for a slope. -/
def arguments : Expr α → List (Expr α)
  | .var _ => []
  | .const _ => []
  | .neg e => e.arguments
  | .func _ e => e :: e.arguments
  | .bin op l r => (if op = .div then [r] else []) ++ (l.arguments ++ r.arguments)

def SlopesIn (K : α → Prop) (v : String) (e : Expr α) : Prop :=
  ∀ p ∈ e.arguments, ∀ a, p.affineSlope? v = some a → K a

theorem isFinite_of_numericValue {p : α} (h : e.numericValue = some p) :
    Arithmetic.isFinite p = true := by
  unfold numericValue at h
  split at h
  · simp only at h
    split at h
    · rename_i hf
      cases h
      exact hf
    · cases h
  · cases h

section
variable {v : String}

theorem SlopesIn.left {op : BinOp} (h : (bin op l r).SlopesIn K v) : l.SlopesIn K v :=
  fun p hp => h p (by simp [arguments, hp])

theorem SlopesIn.right {op : BinOp} (h : (bin op l r).SlopesIn K v) : r.SlopesIn K v :=
  fun p hp => h p (by simp [arguments, hp])

namespace LeavesIn

theorem functionRule {f : Fn} {arg F : Expr α} (hrule : functionRule? f arg v = some F)
    (h : arg.LeavesIn V K) (hs : (func f arg).SlopesIn K v) : F.LeavesIn V K := by
  obtain ⟨a, ha, hrule⟩ := Option.bind_eq_some_iff.mp hrule
  have ha := hs arg (by simp [arguments]) a ha
  cases f with
  | exp | sin | cos | tan =>
    cases hrule
    exact ⟨h, ha⟩
  | _ => cases hrule

theorem quotientRule {F : Expr α} (hrule : quotientRule? l r v = some F) (hl : l.LeavesIn V K)
    (hr : r.LeavesIn V K) (hs : (div l r).SlopesIn K v) : F.LeavesIn V K := by
  unfold quotientRule? at hrule
  split at hrule
  · cases hrule
    exact ⟨hl, hr⟩
  · obtain ⟨a, ha, rfl⟩ := Option.map_eq_some_iff.mp hrule
    exact ⟨⟨hl, hs r (by simp [arguments]) a ha⟩, hr⟩

theorem powerRule (hK : Stable K) {F : Expr α} (hrule : powerRule? l r v = some F)
    (hl : l.LeavesIn V K) : F.LeavesIn V K := by
  unfold powerRule? at hrule
  split at hrule
  · split at hrule
    · obtain ⟨p, hp, rfl⟩ := Option.map_eq_some_iff.mp hrule
      have hnext := hK.succ (isFinite_of_numericValue hp)
      simp only
      split
      · exact hl
      · exact ⟨⟨hl, hnext⟩, hnext⟩
    · cases hrule
  · cases hrule

theorem antiderivative (hK : Stable K) (hv : V v) {F : Expr α} (hF : e.antiderivative v = .ok F)
    (h : e.LeavesIn V K) (hs : e.SlopesIn K v) : F.LeavesIn V K := by
  fun_induction Expr.antiderivative e v generalizing F with
  | case1 =>
    cases hF
    exact ⟨h, hv⟩
  | case2 =>
    cases hF
    exact ⟨⟨hv, hK.two⟩, hK.two⟩
  | case3 =>
    cases hF
    exact ⟨h, hv⟩
  | case4 _ _ ih =>
    obtain ⟨G, hG, h'⟩ := bind_eq_ok.mp hF
    cases h'
    show G.LeavesIn V K
    exact ih hG h hs
  | case5 =>
    exact functionRule (getD_error_eq_ok.mp hF) h hs
  | case6 _ _ _ ihl ihr | case7 _ _ _ ihl ihr =>
    obtain ⟨L, hL, h'⟩ := bind_eq_ok.mp hF
    obtain ⟨R, hR, h'⟩ := bind_eq_ok.mp h'
    cases h'
    exact ⟨ihl hL h.1 hs.left, ihr hR h.2 hs.right⟩
  | case8 _ _ _ _ ih =>
    obtain ⟨R, hR, h'⟩ := bind_eq_ok.mp hF
    cases h'
    exact ⟨h.1, ih hR h.2 hs.right⟩
  | case9 _ _ _ _ _ ih =>
    obtain ⟨L, hL, h'⟩ := bind_eq_ok.mp hF
    cases h'
    exact ⟨h.2, ih hL h.1 hs.left⟩
  | case11 _ _ _ _ ih =>
    obtain ⟨L, hL, h'⟩ := bind_eq_ok.mp hF
    cases h'
    exact ⟨ih hL h.1 hs.left, h.2⟩
  | case13 => exact quotientRule (getD_error_eq_ok.mp hF) h.1 h.2 hs
  | case14 => exact powerRule hK (getD_error_eq_ok.mp hF) h.1
  | case10 | case12 => cases hF

theorem integrate (hK : Stable K) (hv : V v) {F : Expr α} (hF : e.integrate v = .ok F)
    (h : e.LeavesIn V K) (hs : e.SlopesIn K v) : F.LeavesIn V K := by
  obtain ⟨G, hG, rfl⟩ := integrate_eq_ok.mp hF
  exact (h.antiderivative hK hv hG hs).simplify hK

end LeavesIn

end

end SlopeField.Expr
