import SlopeField.Proofs.Success
import SlopeField.Token.Lexer

/-!
# Scanning

The scanner at a place where no token is unfinished, and what the next piece of
text does there: a run of number characters, a word, or a single character. A
run ends where no character follows that could belong to it (`Boundary`).

Tokens are only ever added, each by one of three readers (`Produces`); a
character adds at most two of them and moves the scanner by one place
(`step_eq_ok`). So what every added token keeps holds of all tokens of a text
(`invariant_of_tokenize`).
-/

namespace SlopeField.Lexer

variable {α : Type}

-- ---------------------------------------------------------------------------
-- Characters
-- ---------------------------------------------------------------------------

theorem isBlank_of_isNumberChar {c : Char} (h : isNumberChar c = true) :
    Text.isBlank c = false := by
  simp [isNumberChar, Char.isDigit, UInt32.le_iff_toNat_le] at h
  obtain ⟨h₁, h₂⟩ | rfl := h
  · have hc : c.toNat = c.val.toNat := rfl
    simp [Text.isBlank]
    omega
  · decide

theorem not_blank_of_isWordStart {c : Char} (h : isWordStart c = true) :
    Text.isBlank c = false ∧ isNumberChar c = false := by
  have h : (decide ('A'.val ≤ c.val ∧ c.val ≤ 'Z'.val) ||
      (decide ('a'.val ≤ c.val) && decide (c.val ≤ 'z'.val)) || c == '_') = true := h
  simp [UInt32.le_iff_toNat_le] at h
  have hc : c.toNat = c.val.toNat := rfl
  have hdot : c ≠ '.' := by
    rintro rfl
    simp at h
  obtain h | rfl := h
  · simp [Text.isBlank, isNumberChar, Char.isDigit, UInt32.le_iff_toNat_le, hdot]
    omega
  · decide

theorem isWordChar_eq_false {c : Char} (hnumber : isNumberChar c = false)
    (hstart : isWordStart c = false) : isWordChar c = false := by
  simp only [isNumberChar, isWordStart, Bool.or_eq_false_iff] at hnumber hstart
  simp [isWordChar, Char.isAlphanum, hnumber, hstart]

-- ---------------------------------------------------------------------------
-- Numbers and words
-- ---------------------------------------------------------------------------

section
variable [Numeral α] {t : Token α}

theorem readNumber_eq_ok [Arithmetic α] {literal : String} (h : readNumber literal = .ok t) :
    ∃ v, t = .number v ∧ Arithmetic.isFinite v = true := by
  unfold readNumber at h
  split at h
  · split at h
    · rename_i v _ hf
      cases h
      exact ⟨v, rfl, hf⟩
    · cases h
  · cases h

theorem readWord_eq_ok {name : String} (h : readWord name = .ok t) :
    t = .number Numeral.pi ∨ t = .number Numeral.e ∨
      (∃ v, t = .var v ∧ (v = independent ∨ v = dependent)) ∨ ∃ f, t = .func f := by
  unfold readWord at h
  simp only at h
  split at h
  · cases h
    exact .inl rfl
  · split at h
    · cases h
      exact .inr (.inl rfl)
    · split at h
      · rename_i hv
        cases h
        exact .inr (.inr (.inl ⟨_, rfl, hv⟩))
      · split at h <;> cases h
        exact .inr (.inr (.inr ⟨_, rfl⟩))

theorem readWord_of_mem_names (f : Fn) :
    ∀ name ∈ f.names, readWord name = .ok (.func f : Token α) := by
  have hname : ∀ name ∈ f.names, name.map Char.toLower = name ∧ name ≠ "pi" ∧ name ≠ "e" ∧
      ¬(name = independent ∨ name = dependent) ∧ Fn.ofName? name = some f := by
    cases f <;> decide +kernel
  intro name h
  obtain ⟨hlower, hpi, he, hvar, hf⟩ := hname name h
  simp only [readWord, hlower, if_neg hpi, if_neg he, if_neg hvar, hf]

end

-- ---------------------------------------------------------------------------
-- Pieces of text
-- ---------------------------------------------------------------------------

variable [Arithmetic α] [Numeral α]

def scan (s : Lexer α) (cs : List Char) : Except ParseError (List (Token α)) := do
  let s ← cs.foldlM step s
  return (← s.flush).tokens.reverse

theorem tokenize_eq_scan (text : String) :
    tokenize text = scan ({} : Lexer α) text.toList := rfl

@[simp] theorem scan_nil (tokens : List (Token α)) (p : Nat) :
    scan ⟨tokens, .none, p⟩ [] = .ok tokens.reverse := rfl

theorem scan_cons (s : Lexer α) (c : Char) (cs : List Char) :
    scan s (c :: cs) = s.step c >>= fun s => scan s cs := by
  simp [scan, List.foldlM_cons]

/-- The next character ends every unfinished token. -/
def Boundary (rest : List Char) : Prop :=
  ∀ c ∈ rest.head?, isNumberChar c = false ∧ isWordChar c = false

theorem boundary_nil : Boundary [] := by simp [Boundary]

theorem boundary_cons {c : Char} (h : isNumberChar c = false ∧ isWordChar c = false)
    (cs : List Char) : Boundary (c :: cs) := by
  simpa [Boundary] using h

theorem step_of_boundary (s : Lexer α) {c : Char} (hnumber : isNumberChar c = false)
    (hword : isWordChar c = false) : s.step c = s.flush >>= fun s => s.start c := by
  cases hp : s.pending with
  | none => simp [step, flush, hp]
  | number | word => simp [step, hp, hnumber, hword]

theorem scan_of_flush {s s' : Lexer α} {rest : List Char} (h : s.flush = .ok s')
    (hs' : s'.pending = .none) (hb : Boundary rest) : scan s rest = scan s' rest := by
  have hflush : s'.flush = .ok s' := by rw [flush, hs']
  cases rest with
  | nil => simp [scan, h, hflush]
  | cons c cs =>
    obtain ⟨hnum, hword⟩ := hb c (by simp)
    rw [scan_cons, scan_cons, step_of_boundary s hnum hword, step_of_boundary s' hnum hword, h,
      hflush]

section
variable {tokens : List (Token α)} {t : Token α} {cs rest : List Char}

/-- A run of characters that go on with the same token, numbers and words
alike. -/
theorem scan_run (kind : List Char → Pending) {c : Char}
    (hstart : ∀ p, step (⟨tokens, .none, p⟩ : Lexer α) c = .ok ⟨tokens, kind [c], p + 1⟩)
    (hstep : ∀ d ∈ cs, ∀ ds p,
      step (⟨tokens, kind ds, p⟩ : Lexer α) d = .ok ⟨tokens, kind (d :: ds), p + 1⟩)
    (hflush : ∀ p, flush (⟨tokens, kind (c :: cs).reverse, p⟩ : Lexer α) =
      .ok ⟨t :: tokens, .none, p⟩)
    (hb : Boundary rest) (p : Nat) :
    ∃ p', scan ⟨tokens, .none, p⟩ (c :: cs ++ rest) = scan ⟨t :: tokens, .none, p'⟩ rest := by
  have hrun (ds : List Char) (p : Nat) : cs.foldlM step (⟨tokens, kind ds, p⟩ : Lexer α) =
      .ok ⟨tokens, kind (cs.reverse ++ ds), p + cs.length⟩ := by
    clear hflush
    induction cs generalizing ds p with
    | nil => rfl
    | cons d cs ih =>
      rw [List.foldlM_cons, hstep d (by simp), ok_bind, ih fun e he => hstep e (by simp [he])]
      simp
      omega
  refine ⟨p + 1 + cs.length, ?_⟩
  rw [← scan_of_flush (hflush _) rfl hb, List.cons_append, scan, List.foldlM_cons, hstart, ok_bind,
    List.foldlM_append, hrun, ok_bind, List.reverse_cons]
  rfl

theorem scan_number (hne : cs ≠ []) (h : ∀ c ∈ cs, isNumberChar c = true)
    (hread : readNumber (String.ofList cs) = .ok t) (hb : Boundary rest) (p : Nat) :
    ∃ p', scan ⟨tokens, .none, p⟩ (cs ++ rest) = scan ⟨t :: tokens, .none, p'⟩ rest := by
  cases cs with
  | nil => exact (hne rfl).elim
  | cons c cs =>
    have hc := h c (by simp)
    refine scan_run .number (fun p => ?_) (fun d hd ds p => ?_) (fun p => ?_) hb p
    · simp [step, start, isBlank_of_isNumberChar hc, hc]
    · exact if_pos (h d (by simp [hd]))
    · simp only [flush, List.reverse_reverse, hread]
      rfl

theorem scan_word {c : Char} (hc : isWordStart c = true) (h : ∀ c ∈ cs, isWordChar c = true)
    (hread : readWord (String.ofList (c :: cs)) = .ok t) (hb : Boundary rest) (p : Nat) :
    ∃ p', scan ⟨tokens, .none, p⟩ (c :: cs ++ rest) = scan ⟨t :: tokens, .none, p'⟩ rest := by
  obtain ⟨hblank, hnum⟩ := not_blank_of_isWordStart hc
  refine scan_run .word (fun p => ?_) (fun d hd ds p => ?_) (fun p => ?_) hb p
  · simp [step, start, hblank, hnum, hc]
  · exact if_pos (h d hd)
  · simp only [flush, List.reverse_reverse, hread]
    rfl

theorem scan_space (p : Nat) :
    scan (⟨tokens, .none, p⟩ : Lexer α) (' ' :: rest) = scan ⟨tokens, .none, p + 1⟩ rest := rfl

theorem scan_skip (h : ∀ c ∈ cs, Text.isBlank c = true) (tokens : List (Token α))
    (rest : List Char) (p : Nat) :
    ∃ p', scan ⟨tokens, .none, p⟩ (cs ++ rest) = scan ⟨tokens, .none, p'⟩ rest := by
  induction cs generalizing p with
  | nil => exact ⟨p, rfl⟩
  | cons c cs ih =>
    have hstep : step (⟨tokens, .none, p⟩ : Lexer α) c = .ok ⟨tokens, .none, p + 1⟩ := by
      simp [step, start, h c (by simp)]
    rw [List.cons_append, scan_cons, hstep]
    exact ih (fun d hd => h d (by simp [hd])) (p + 1)

theorem scan_blanks (h : ∀ c ∈ cs, Text.isBlank c = true) (tokens : List (Token α)) (p : Nat) :
    scan ⟨tokens, .none, p⟩ cs = .ok tokens.reverse := by
  obtain ⟨p', hskip⟩ := scan_skip h tokens [] p
  rw [← List.append_nil cs, hskip, scan_nil]

theorem scan_glyph {c : Char} (hc : Text.isBlank c = false ∧ isNumberChar c = false ∧
    isWordStart c = false) (h : readGlyph? tokens.head? c = some t) (p : Nat) :
    scan ⟨tokens, .none, p⟩ (c :: rest) = scan ⟨t :: tokens, .none, p + 1⟩ rest := by
  simp [scan_cons, step, start, hc, h]

end

-- ---------------------------------------------------------------------------
-- Tokens that are added
-- ---------------------------------------------------------------------------

inductive Produces (previous : Option (Token α)) : Token α → Prop
  | number : readNumber literal = .ok t → Produces previous t
  | word : readWord name = .ok t → Produces previous t
  | glyph : readGlyph? previous c = some t → Produces previous t

inductive Adds (tokens : List (Token α)) : List (Token α) → Prop
  | none : Adds tokens tokens
  | one : Produces tokens.head? t → Adds tokens (t :: tokens)

section
variable {s s' : Lexer α} {c : Char}

theorem flush_eq_ok (h : s.flush = .ok s') :
    Adds s.tokens s'.tokens ∧ s'.position = s.position := by
  unfold flush at h
  split at h
  · cases h
    exact ⟨.none, rfl⟩
  · obtain ⟨t, ht, h⟩ := bind_eq_ok.mp h
    cases h
    exact ⟨.one (.number ht), rfl⟩
  · obtain ⟨t, ht, h⟩ := bind_eq_ok.mp h
    cases h
    exact ⟨.one (.word ht), rfl⟩

theorem start_eq_ok (h : s.start c = .ok s') :
    Adds s.tokens s'.tokens ∧ s'.position = s.position + 1 := by
  unfold start at h
  simp only at h
  split at h
  · cases h
    exact ⟨.none, rfl⟩
  · split at h
    · cases h
      exact ⟨.none, rfl⟩
    · split at h
      · cases h
        exact ⟨.none, rfl⟩
      · split at h
        · rename_i t ht
          cases h
          exact ⟨.one (.glyph ht), rfl⟩
        · cases h

/-- A character goes on with the unfinished token, or ends it and starts anew. -/
theorem step_cases (s : Lexer α) (c : Char) :
    (∃ p, s.step c = .ok { s with pending := p, position := s.position + 1 }) ∨
      s.step c = s.flush >>= fun s => s.start c := by
  cases hp : s.pending with
  | none => exact .inr (by simp [step, flush, hp])
  | number ds =>
    by_cases hc : isNumberChar c = true
    · exact .inl ⟨.number (c :: ds), by simp [step, hp, hc]⟩
    · exact .inr (by simp [step, hp, hc])
  | word ds =>
    by_cases hc : isWordChar c = true
    · exact .inl ⟨.word (c :: ds), by simp [step, hp, hc]⟩
    · exact .inr (by simp [step, hp, hc])

/-- One character adds at most two tokens: the unfinished one, and its own. -/
theorem step_eq_ok (h : s.step c = .ok s') :
    (∃ tokens, Adds s.tokens tokens ∧ Adds tokens s'.tokens) ∧
      s'.position = s.position + 1 := by
  obtain ⟨p, hstep⟩ | hstep := step_cases s c
  · cases hstep.symm.trans h
    exact ⟨⟨s.tokens, .none, .none⟩, rfl⟩
  · obtain ⟨s'', hflush, hstart⟩ := bind_eq_ok.mp (hstep.symm.trans h)
    obtain ⟨hended, hposition⟩ := flush_eq_ok hflush
    obtain ⟨hstarted, hmoved⟩ := start_eq_ok hstart
    exact ⟨⟨s''.tokens, hended, hstarted⟩, hposition ▸ hmoved⟩

end

section
variable {P : List (Token α) → Prop}
  (hP : ∀ tokens t, Produces tokens.head? t → P tokens → P (t :: tokens))
include hP

theorem Adds.invariant {tokens tokens' : List (Token α)} (h : Adds tokens tokens')
    (hin : P tokens) : P tokens' := by
  cases h with
  | none => exact hin
  | one ht => exact hP _ _ ht hin

/-- What every added token keeps, last first, holds of the tokens of a text. -/
theorem invariant_of_tokenize {text : String} {ts : List (Token α)} (hnil : P [])
    (h : tokenize text = .ok ts) : P ts.reverse := by
  obtain ⟨s, hs, h⟩ := bind_eq_ok.mp h
  obtain ⟨s', hflush, h⟩ := bind_eq_ok.mp h
  cases h
  have hin : P s.tokens := by
    refine foldlM_invariant (fun s : Lexer α => P s.tokens) (fun _ _ s s' hin hstep => ?_) hnil hs
    obtain ⟨⟨tokens, hended, hstarted⟩, -⟩ := step_eq_ok hstep
    exact hstarted.invariant hP (hended.invariant hP hin)
  rw [List.reverse_reverse]
  exact (flush_eq_ok hflush).1.invariant hP hin

end

end SlopeField.Lexer
