import SlopeField.Binary64
import SlopeField.Proofs.Token.Scan

/-!
# Characters that are refused

A foreign character (`IsForeign`) begins no token and goes on with none: the
scanner ends the unfinished token there and then stops. A character is reported
exactly if it is foreign and the text before it can be read
(`tokenize_eq_invalidCharacter_iff`), so the report depends on no character
behind it.
-/

namespace SlopeField

namespace Lexer

variable {α : Type}

def glyphs : List Char := ['-', '−', '+', '*', '×', '·', '/', '÷', '^', '(', ')', ',', 'π']

structure IsForeign (c : Char) : Prop where
  blank : Text.isBlank c = false
  number : isNumberChar c = false
  wordStart : isWordStart c = false
  glyph : c ∉ glyphs

instance (c : Char) : Decidable (IsForeign c) :=
  decidable_of_iff (Text.isBlank c = false ∧ isNumberChar c = false ∧ isWordStart c = false ∧
    c ∉ glyphs) ⟨fun ⟨hb, hn, hw, hg⟩ => ⟨hb, hn, hw, hg⟩, fun ⟨hb, hn, hw, hg⟩ => ⟨hb, hn, hw, hg⟩⟩

-- ---------------------------------------------------------------------------
-- What each reader refuses
-- ---------------------------------------------------------------------------

section
variable [Numeral α] {s : Lexer α} {c : Char} {e : ParseError}

theorem readNumber_eq_error [Arithmetic α] {literal : String}
    (h : (readNumber literal : Except ParseError (Token α)) = .error e) :
    e = .malformedNumber literal := by
  unfold readNumber at h
  split at h
  · split at h <;> cases h
    rfl
  · cases h
    rfl

theorem readWord_eq_error {name : String}
    (h : (readWord name : Except ParseError (Token α)) = .error e) :
    e = .unknownIdentifier name := by
  unfold readWord at h
  simp only at h
  split at h
  · cases h
  · split at h
    · cases h
    · split at h
      · cases h
      · split at h <;> cases h
        rfl

theorem readGlyph?_eq_none_iff {previous : Option (Token α)} :
    readGlyph? previous c = none ↔ c ∉ glyphs := by
  unfold readGlyph?
  split <;> simp_all [glyphs]

theorem start_eq_error_iff :
    s.start c = .error e ↔ IsForeign c ∧ e = .invalidCharacter c s.position := by
  constructor
  · intro h
    unfold start at h
    simp only at h
    split at h
    · cases h
    · split at h
      · cases h
      · split at h
        · cases h
        · split at h
          · cases h
          · rename_i hblank hnumber hword _ hglyph
            cases h
            simp only [Bool.not_eq_true] at hblank hnumber hword
            exact ⟨⟨hblank, hnumber, hword, readGlyph?_eq_none_iff.mp hglyph⟩, rfl⟩
  · rintro ⟨hc, rfl⟩
    have hglyph : readGlyph? s.tokens.head? c = none := readGlyph?_eq_none_iff.mpr hc.glyph
    simp [start, hc.blank, hc.number, hc.wordStart, hglyph]

end

-- ---------------------------------------------------------------------------
-- One character
-- ---------------------------------------------------------------------------

variable [Arithmetic α] [Numeral α] {s s' : Lexer α} {c ch : Char} {cs : List Char} {pos : Nat}

theorem flush_ne_invalidCharacter : s.flush ≠ .error (.invalidCharacter ch pos) := by
  intro h
  unfold flush at h
  split at h
  · cases h
  · obtain h | ⟨t, -, h⟩ := bind_eq_error.mp h
    · cases readNumber_eq_error h
    · cases h
  · obtain h | ⟨t, -, h⟩ := bind_eq_error.mp h
    · cases readWord_eq_error h
    · cases h

theorem step_eq_invalidCharacter_iff :
    s.step c = .error (.invalidCharacter ch pos) ↔
      c = ch ∧ s.position = pos ∧ IsForeign ch ∧ ∃ s', s.flush = .ok s' := by
  constructor
  · intro h
    obtain ⟨p, hstep⟩ | hstep := step_cases s c
    · cases hstep.symm.trans h
    · obtain hfail | ⟨s', hflush, hstart⟩ := bind_eq_error.mp (hstep.symm.trans h)
      · exact (flush_ne_invalidCharacter hfail).elim
      · obtain ⟨hforeign, herror⟩ := start_eq_error_iff.mp hstart
        cases herror
        exact ⟨rfl, (flush_eq_ok hflush).2.symm, hforeign, s', hflush⟩
  · rintro ⟨rfl, rfl, hc, s', hflush⟩
    have hword := isWordChar_eq_false hc.number hc.wordStart
    rw [step_of_boundary s hc.number hword, hflush, ok_bind]
    exact start_eq_error_iff.mpr ⟨hc, by rw [(flush_eq_ok hflush).2]⟩

-- ---------------------------------------------------------------------------
-- A whole text
-- ---------------------------------------------------------------------------

theorem position_of_foldlM (h : cs.foldlM step s = .ok s') :
    s'.position = s.position + cs.length := by
  induction cs generalizing s with
  | nil =>
    cases h
    rfl
  | cons c cs ih =>
    rw [List.foldlM_cons] at h
    obtain ⟨s'', hstep, hrest⟩ := bind_eq_ok.mp h
    rw [ih hrest, (step_eq_ok hstep).2, List.length_cons]
    omega

theorem exists_tokenize_iff :
    (∃ ts : List (Token α), tokenize (String.ofList cs) = .ok ts) ↔
      ∃ s s' : Lexer α, cs.foldlM step {} = .ok s ∧ s.flush = .ok s' := by
  simp only [tokenize, String.toList_ofList, bind_eq_ok]
  constructor
  · rintro ⟨ts, s, hs, s', hflush, -⟩
    exact ⟨s, s', hs, hflush⟩
  · rintro ⟨s, s', hs, hflush⟩
    exact ⟨_, s, hs, s', hflush, rfl⟩

theorem tokenize_eq_invalidCharacter_iff {text : String} :
    tokenize (α := α) text = .error (.invalidCharacter ch pos) ↔
      text.toList[pos]? = some ch ∧ IsForeign ch ∧
        ∃ ts : List (Token α), tokenize (String.ofList (text.toList.take pos)) = .ok ts := by
  rw [exists_tokenize_iff]
  constructor
  · intro h
    -- The scan stops at a character, or at the end, where only a token can be at fault.
    obtain hfail | ⟨s, -, hend⟩ := bind_eq_error.mp h
    · obtain ⟨pre, c, post, s, htext, hpre, hstep⟩ := foldlM_eq_error hfail
      obtain ⟨rfl, hpos, hforeign, s', hflush⟩ := step_eq_invalidCharacter_iff.mp hstep
      have hlength : pre.length = pos := by
        rw [← hpos, position_of_foldlM hpre]
        exact (Nat.zero_add _).symm
      subst hlength
      rw [htext, List.take_left]
      exact ⟨by simp, hforeign, s, s', hpre, hflush⟩
    · obtain hfail | ⟨s', -, hend⟩ := bind_eq_error.mp hend
      · exact (flush_ne_invalidCharacter hfail).elim
      · cases hend
  · rintro ⟨hch, hforeign, s, s', hs, hflush⟩
    obtain ⟨hlt, hget⟩ := List.getElem?_eq_some_iff.mp hch
    have hposition : s.position = pos := by
      rw [position_of_foldlM hs, List.length_take, Nat.min_eq_left (Nat.le_of_lt hlt)]
      exact Nat.zero_add pos
    have hstep := step_eq_invalidCharacter_iff.mpr ⟨rfl, hposition, hforeign, s', hflush⟩
    have htext : text.toList.take pos ++ ch :: text.toList.drop (pos + 1) = text.toList := by
      simp [← hget]
    have hfail := foldlM_error_of_step hs hstep (text.toList.drop (pos + 1))
    rw [tokenize, ← htext, hfail, error_bind]

end Lexer

section
variable {α : Type} [Arithmetic α] [Numeral α]

/-- A character that is reported stands at the place that is named, the text
before it can be read, and every text that is the same up to and with it is
refused alike. -/
theorem invalidCharacter_exact_local {text : String} {ch : Char} {pos : Nat}
    (h : tokenize (α := α) text = .error (.invalidCharacter ch pos)) :
    text.toList[pos]? = some ch ∧
    (∃ ts : List (Token α), tokenize (String.ofList (text.toList.take pos)) = .ok ts) ∧
    ∀ other : String, other.toList.take (pos + 1) = text.toList.take (pos + 1) →
      tokenize (α := α) other = .error (.invalidCharacter ch pos) := by
  -- All that the report depends on lies in the first `pos + 1` characters.
  obtain ⟨hch, hforeign, hbefore⟩ := Lexer.tokenize_eq_invalidCharacter_iff.mp h
  refine ⟨hch, hbefore, fun other hsame => ?_⟩
  have hch' : other.toList[pos]? = some ch := by
    rw [← List.getElem?_take_of_lt (Nat.lt_succ_self pos), hsame,
      List.getElem?_take_of_lt (Nat.lt_succ_self pos), hch]
  have hbefore' : other.toList.take pos = text.toList.take pos := by
    have htake := congrArg (List.take pos) hsame
    rwa [List.take_take, List.take_take, Nat.min_eq_left (Nat.le_succ pos)] at htake
  exact Lexer.tokenize_eq_invalidCharacter_iff.mpr ⟨hch', hforeign, hbefore' ▸ hbefore⟩

end

/-- Places count characters, whatever their size. The malformed number behind the
character is not reached, and may as well be missing. -/
theorem invalidCharacter_before_malformed :
    letI report : ParseError := .invalidCharacter '§' 4
    tokenize (α := Float) "2×y § 1.2.3" = .error report ∧
    "2×y § 1.2.3".toList[4]? = some '§' ∧
    (∃ ts : List (Token Float), tokenize (String.ofList ("2×y § 1.2.3".toList.take 4)) = .ok ts) ∧
    tokenize (α := Float) "2×y §" = .error report := by
  have hbefore : (tokenize (α := Float)
      (String.ofList ("2×y § 1.2.3".toList.take 4))).toOption.isSome = true := by decide +kernel
  obtain ⟨ts, hts⟩ := Option.isSome_iff_exists.mp hbefore
  have h : tokenize (α := Float) "2×y § 1.2.3" = .error (.invalidCharacter '§' 4) :=
    Lexer.tokenize_eq_invalidCharacter_iff.mpr ⟨by decide, by decide, ts, toOption_eq_some.mp hts⟩
  obtain ⟨hch, hread, hlocal⟩ := invalidCharacter_exact_local h
  exact ⟨h, hch, hread, hlocal "2×y §" (by decide)⟩

end SlopeField
