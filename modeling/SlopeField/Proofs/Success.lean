/-!
# Computations that succeed

What the success of a step, a sequence of steps or a relabelled error says
about its parts, and where a sequence of steps fails.
-/

namespace SlopeField

variable {ε ε' α β : Type} {a : α} {b : β}

@[simp] theorem ok_bind (a : α) (f : α → Except ε β) : Except.ok a >>= f = f a := rfl

@[simp] theorem error_bind (e : ε) (f : α → Except ε β) : Except.error e >>= f = .error e := rfl

theorem bind_eq_ok {x : Except ε α} {f : α → Except ε β} :
    x >>= f = .ok b ↔ ∃ a, x = .ok a ∧ f a = .ok b := by
  cases x <;> simp [bind, Except.bind]

theorem mapError_eq_ok {x : Except ε α} {f : ε → ε'} : x.mapError f = .ok a ↔ x = .ok a := by
  constructor
  · intro h
    cases x with
    | error e => cases (h : Except.error (f e) = .ok a)
    | ok b => cases (h : (.ok b : Except ε' α) = .ok a); rfl
  · rintro rfl
    rfl

theorem getD_error_eq_ok {x : Option α} {e : ε} :
    (x.map Except.ok).getD (.error e) = .ok a ↔ x = some a := by
  cases x <;> simp

theorem toOption_eq_some {x : Except ε α} : x.toOption = some a ↔ x = .ok a := by
  cases x <;> simp [Except.toOption]

/-- What every step keeps, a sequence of steps keeps. -/
theorem foldlM_invariant {step : β → α → Except ε β} (P : β → Prop) {xs : List α} {b' : β}
    (hstep : ∀ a ∈ xs, ∀ c c', P c → step c a = .ok c' → P c')
    (hb : P b) (h : xs.foldlM step b = .ok b') : P b' := by
  induction xs generalizing b with
  | nil =>
    cases h
    exact hb
  | cons a xs ih =>
    rw [List.foldlM_cons] at h
    obtain ⟨c, hc, h⟩ := bind_eq_ok.mp h
    exact ih (fun d hd => hstep d (by simp [hd])) (hstep a (by simp) b c hb hc) h

theorem bind_eq_error {x : Except ε α} {f : α → Except ε β} {e : ε} :
    x >>= f = .error e ↔ x = .error e ∨ ∃ a, x = .ok a ∧ f a = .error e := by
  cases x <;> simp [bind, Except.bind]

/-- A sequence of steps fails at one of them, after those before it have
succeeded. -/
theorem foldlM_eq_error {step : β → α → Except ε β} {xs : List α} {e : ε}
    (h : xs.foldlM step b = .error e) :
    ∃ pre a post b', xs = pre ++ a :: post ∧ pre.foldlM step b = .ok b' ∧ step b' a = .error e := by
  induction xs generalizing b with
  | nil => cases h
  | cons a xs ih =>
    rw [List.foldlM_cons] at h
    obtain hstep | ⟨c, hstep, hrest⟩ := bind_eq_error.mp h
    · exact ⟨[], a, xs, b, rfl, rfl, hstep⟩
    · obtain ⟨pre, a', post, b', rfl, hpre, hfail⟩ := ih hrest
      refine ⟨a :: pre, a', post, b', rfl, ?_, hfail⟩
      rw [List.foldlM_cons, hstep]
      exact hpre

theorem foldlM_error_of_step {step : β → α → Except ε β} {pre : List α} {b' : β} {e : ε}
    (hpre : pre.foldlM step b = .ok b') (hstep : step b' a = .error e) (post : List α) :
    (pre ++ a :: post).foldlM step b = .error e := by
  rw [List.foldlM_append, hpre, ok_bind, List.foldlM_cons, hstep, error_bind]

end SlopeField
