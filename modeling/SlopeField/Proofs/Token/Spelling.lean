import SlopeField.Binary64
import SlopeField.Proofs.Token.Leaves

/-!
# Spellings

A list of tokens can be written in many ways (`Written`): with any blanks
between its tokens, any literal of each number, any name of each function,
letters in either case and any glyph of each operator. A minus is written alike
as a negation and as a subtraction, so only a list that marks each minus by the
token before it can be read back (`MinusMarked`).

The scanner marks every minus in this way. Of the written lists that are marked
it reads back exactly those whose variables are `x` and `y`
(`tokenize_eq_ok_iff_writable`).
-/

namespace SlopeField

open Lexer (scan Boundary boundary_nil boundary_cons)

variable {α : Type}

def BinOp.glyphs : BinOp → List Char
  | .add => ['+']
  | .sub => ['-', '−']
  | .mul => ['*', '×', '·']
  | .div => ['/', '÷']
  | .pow => ['^']

structure IsLiteral (cs : List Char) : Prop where
  chars : ∀ c ∈ cs, c.isDigit = true ∨ c = '.'
  point : cs.count '.' ≤ 1
  digit : ∃ c ∈ cs, c.isDigit = true

def SameLetters (cs : List Char) (name : String) : Prop :=
  cs.map Char.toLower = name.toList.map Char.toLower

def IsGap (cs : List Char) : Prop := ∀ c ∈ cs, Text.isBlank c = true

section
variable [Arithmetic α] [Numeral α]

inductive Token.Spelled : Token α → List Char → Prop
  | number : IsLiteral cs → Numeral.read? (String.ofList cs) = some v →
      Arithmetic.isFinite v = true → Spelled (.number v) cs
  | var : SameLetters cs name → Spelled (.var name) cs
  | func : name ∈ f.names → SameLetters cs name → Spelled (.func f) cs
  | op : c ∈ o.glyphs → Spelled (.op o) [c]
  | neg : c ∈ BinOp.sub.glyphs → Spelled .neg [c]
  | lparen : Spelled .lparen ['(']
  | rparen : Spelled .rparen [')']
  | comma : Spelled .comma [',']

/-- The texts of a list of tokens, with at least one blank between two of them. -/
inductive Written : List (Token α) → List Char → Prop
  | nil {gap : List Char} : IsGap gap → Written [] gap
  | cons {t : Token α} {ts : List (Token α)} {before word gap rest : List Char} :
      IsGap before → t.Spelled word → IsGap gap → (ts ≠ [] → gap ≠ []) → Written ts rest →
      Written (t :: ts) (before ++ word ++ gap ++ rest)

end

/-- After the previous token, if there is one, a minus is a negation at the start
and where an operand is still to come, and a subtraction elsewhere. -/
def MinusDue (previous : Option (Token α)) (t : Token α) : Prop :=
  (t = .neg → previous.all Token.expectsOperand = true) ∧
    (t = .op .sub → previous.all Token.expectsOperand = false)

def MinusMarked (ts : List (Token α)) : Prop :=
  ∀ before t after, ts = before ++ t :: after → MinusDue before.getLast? t

theorem minusDue_minus (previous : Option (Token α)) : MinusDue previous (.minus previous) := by
  unfold Token.minus
  split <;> simp_all [MinusDue]

theorem minusMarked_nil : MinusMarked ([] : List (Token α)) := by
  intro before t after h
  simp at h

theorem MinusMarked.concat {ts : List (Token α)} {t : Token α} (h : MinusMarked ts)
    (ht : MinusDue ts.getLast? t) : MinusMarked (ts ++ [t]) := by
  intro before u after heq
  obtain rfl | ⟨after, v, rfl⟩ := after.eq_nil_or_concat
  · obtain ⟨rfl, hlast⟩ := List.append_inj' heq rfl
    cases hlast
    exact ht
  · rw [List.concat_eq_append, ← List.cons_append, ← List.append_assoc] at heq
    obtain ⟨rfl, -⟩ := List.append_inj' heq rfl
    exact h before u after rfl

theorem MinusMarked.due {tokens ts : List (Token α)} {t : Token α}
    (h : MinusMarked (tokens.reverse ++ t :: ts)) : MinusDue tokens.head? t := by
  have hdue := h tokens.reverse t ts rfl
  rwa [List.getLast?_reverse] at hdue

-- ---------------------------------------------------------------------------
-- Words in either case
-- ---------------------------------------------------------------------------

theorem isWordStart_of_toLower {c : Char} (h : c.toLower.isLower = true) :
    Lexer.isWordStart c = true := by
  show (decide ('A'.val ≤ c.val ∧ c.val ≤ 'Z'.val) ||
    (decide ('a'.val ≤ c.val) && decide (c.val ≤ 'z'.val)) || c == '_') = true
  by_cases hupper : 'A'.val ≤ c.val ∧ c.val ≤ 'Z'.val
  · rw [decide_eq_true hupper]
    rfl
  · have hlower : c.toLower = c := dif_neg hupper
    have h : (decide ('a'.val ≤ c.val) && decide (c.val ≤ 'z'.val)) = true := hlower ▸ h
    rw [h, Bool.or_true]
    rfl

theorem isWordChar_of_isWordStart {c : Char} (h : Lexer.isWordStart c = true) :
    Lexer.isWordChar c = true := by
  simp only [Lexer.isWordStart, Lexer.isWordChar, Char.isAlphanum, Bool.or_eq_true] at h ⊢
  exact h.imp_left .inl

def IsWord (name : String) : Prop :=
  name.toList ≠ [] ∧ ∀ c ∈ name.toList, c.toLower.isLower = true

theorem isWord_iff {name : String} :
    IsWord name ↔ name.toList ≠ [] ∧ (name.toList.all fun c => c.toLower.isLower) = true := by
  rw [IsWord, List.all_eq_true]

theorem isWord_of_mem_names (f : Fn) : ∀ name ∈ f.names, IsWord name := by
  simp only [isWord_iff]
  cases f <;> decide

theorem isWord_of_isWritable {name : String} (h : IsWritable name) : IsWord name := by
  rw [isWord_iff]
  obtain rfl | rfl := h <;> decide

section
variable [Numeral α] {t : Token α} {name : String} {cs : List Char}

theorem SameLetters.readWord (h : SameLetters cs name) (hread : Lexer.readWord name = .ok t) :
    Lexer.readWord (String.ofList cs) = .ok t := by
  have hlower : (String.ofList cs).map Char.toLower = name.map Char.toLower :=
    String.toList_injective (by simpa [String.toList_map, SameLetters] using h)
  unfold Lexer.readWord at hread ⊢
  rw [hlower]
  -- Only the refusal, which does not happen here, names the word as written.
  grind

theorem readWord_of_isWritable (h : IsWritable name) :
    Lexer.readWord name = .ok (.var name : Token α) := by
  have hlower : name.map Char.toLower = name ∧ name ≠ "pi" ∧ name ≠ "e" := by
    obtain rfl | rfl := h <;> decide +kernel
  obtain ⟨hlower, hpi, he⟩ := hlower
  simp only [Lexer.readWord, hlower, if_neg hpi, if_neg he]
  exact if_pos h

end

-- ---------------------------------------------------------------------------
-- One token
-- ---------------------------------------------------------------------------

theorem glyphs_single (o : BinOp) : ∀ c ∈ o.glyphs,
    Text.isBlank c = false ∧ Lexer.isNumberChar c = false ∧ Lexer.isWordStart c = false := by
  cases o <;> simp [BinOp.glyphs] <;> decide

theorem boundary_of_isBlank {c : Char} (h : Text.isBlank c = true) (cs : List Char) :
    Boundary (c :: cs) := by
  have hnumber : Lexer.isNumberChar c = false := by
    refine Bool.eq_false_iff.mpr fun hc => ?_
    cases h.symm.trans (Lexer.isBlank_of_isNumberChar hc)
  have hstart : Lexer.isWordStart c = false := by
    refine Bool.eq_false_iff.mpr fun hc => ?_
    cases h.symm.trans (Lexer.not_blank_of_isWordStart hc).1
  exact boundary_cons ⟨hnumber, Lexer.isWordChar_eq_false hnumber hstart⟩ cs

theorem IsGap.boundary {gap : List Char} (h : IsGap gap) : Boundary gap := by
  cases gap with
  | nil => exact boundary_nil
  | cons c gap => exact boundary_of_isBlank (h c (by simp)) gap

section
variable [Arithmetic α] [Numeral α] {t : Token α} {tokens ts : List (Token α)}
  {word rest cs : List Char}

omit [Arithmetic α] in
theorem readGlyph_of_mem_glyphs (previous : Option (Token α)) {o : BinOp} (ho : o ≠ .sub) :
    ∀ c ∈ o.glyphs, Lexer.readGlyph? previous c = some (.op o) := by
  cases o <;> simp_all [BinOp.glyphs, Lexer.readGlyph?]

omit [Arithmetic α] in
theorem readGlyph_of_mem_minus (previous : Option (Token α)) :
    ∀ c ∈ BinOp.sub.glyphs, Lexer.readGlyph? previous c = some (.minus previous) := by
  simp [BinOp.glyphs, Lexer.readGlyph?]

theorem scan_letters {name : String} (h : SameLetters word name) (hname : IsWord name)
    (hread : Lexer.readWord name = .ok t) (hb : Boundary rest) (p : Nat) :
    ∃ p', scan ⟨tokens, .none, p⟩ (word ++ rest) = scan ⟨t :: tokens, .none, p'⟩ rest := by
  have hstart : ∀ c ∈ word, Lexer.isWordStart c = true := by
    intro c hc
    have hlower : c.toLower ∈ name.toList.map Char.toLower := h ▸ List.mem_map_of_mem hc
    obtain ⟨d, hd, hcd⟩ := List.mem_map.mp hlower
    exact isWordStart_of_toLower (hcd ▸ hname.2 d hd)
  cases word with
  | nil => exact (hname.1 (List.map_eq_nil_iff.mp (Eq.symm h))).elim
  | cons c cs =>
    refine Lexer.scan_word (hstart c (by simp)) (fun d hd => ?_) (h.readWord hread) hb p
    exact isWordChar_of_isWordStart (hstart d (by simp [hd]))

theorem scan_number_literal {v : α} (h : IsLiteral word)
    (hread : Numeral.read? (String.ofList word) = some v) (hfinite : Arithmetic.isFinite v = true)
    (hb : Boundary rest) (p : Nat) :
    ∃ p', scan ⟨tokens, .none, p⟩ (word ++ rest) = scan ⟨.number v :: tokens, .none, p'⟩ rest := by
  obtain ⟨c, hc, -⟩ := h.digit
  refine Lexer.scan_number (List.ne_nil_of_mem hc) (fun d hd => ?_) ?_ hb p
  · simpa [Lexer.isNumberChar] using h.chars d hd
  · simp [Lexer.readNumber, hread, hfinite]

theorem scan_spelled (h : t.Spelled word) (hminus : MinusDue tokens.head? t)
    (hvar : ∀ name, t = .var name → IsWritable name) (hb : Boundary rest) (p : Nat) :
    ∃ p', scan ⟨tokens, .none, p⟩ (word ++ rest) = scan ⟨t :: tokens, .none, p'⟩ rest := by
  cases h with
  | number hliteral hread hfinite => exact scan_number_literal hliteral hread hfinite hb p
  | @var _ name hletters =>
    have hname := hvar name rfl
    exact scan_letters hletters (isWord_of_isWritable hname) (readWord_of_isWritable hname) hb p
  | func hname hletters =>
    exact scan_letters hletters (isWord_of_mem_names _ _ hname)
      (Lexer.readWord_of_mem_names _ _ hname) hb p
  | @op c o hc =>
    refine ⟨p + 1, Lexer.scan_glyph (glyphs_single o c hc) ?_ p⟩
    by_cases ho : o = .sub
    · subst ho
      rw [readGlyph_of_mem_minus _ c hc, Token.minus, hminus.2 rfl]
      rfl
    · exact readGlyph_of_mem_glyphs _ ho c hc
  | @neg c hc =>
    refine ⟨p + 1, Lexer.scan_glyph (glyphs_single .sub c hc) ?_ p⟩
    rw [readGlyph_of_mem_minus _ c hc, Token.minus, hminus.1 rfl]
    rfl
  | lparen => exact ⟨p + 1, Lexer.scan_glyph (by decide) rfl p⟩
  | rparen => exact ⟨p + 1, Lexer.scan_glyph (by decide) rfl p⟩
  | comma => exact ⟨p + 1, Lexer.scan_glyph (by decide) rfl p⟩

-- ---------------------------------------------------------------------------
-- All tokens
-- ---------------------------------------------------------------------------

theorem Written.boundary (h : Written ts rest) {gap : List Char} (hgap : IsGap gap)
    (hne : ts ≠ [] → gap ≠ []) : Boundary (gap ++ rest) := by
  cases gap with
  | nil =>
    cases h with
    | nil hrest => exact hrest.boundary
    | cons => exact (hne (List.cons_ne_nil _ _) rfl).elim
  | cons c gap => exact boundary_of_isBlank (hgap c (by simp)) _

/-- Reading a written list after the tokens so far. -/
theorem scan_written (h : Written ts cs) (tokens : List (Token α))
    (hmarked : MinusMarked (tokens.reverse ++ ts))
    (hvar : ∀ name, .var name ∈ ts → IsWritable name) (p : Nat) :
    scan ⟨tokens, .none, p⟩ cs = .ok (tokens.reverse ++ ts) := by
  induction h generalizing tokens p with
  | nil hgap => rw [Lexer.scan_blanks hgap, List.append_nil]
  | @cons t ts before word gap rest hbefore hword hgap hne hrest ih =>
    obtain ⟨p₁, h₁⟩ := Lexer.scan_skip hbefore tokens (word ++ (gap ++ rest)) p
    obtain ⟨p₂, h₂⟩ := scan_spelled hword hmarked.due
      (fun name hname => hvar name (by simp [hname])) (hrest.boundary hgap hne) p₁
    obtain ⟨p₃, h₃⟩ := Lexer.scan_skip hgap (t :: tokens) rest p₂
    have hmarked' : MinusMarked ((t :: tokens).reverse ++ ts) := by simpa using hmarked
    have h₄ := ih (t :: tokens) hmarked' (fun name hname => hvar name (by simp [hname])) p₃
    rw [List.append_assoc, List.append_assoc, h₁, h₂, h₃, h₄]
    simp

-- ---------------------------------------------------------------------------
-- Tokens of a text
-- ---------------------------------------------------------------------------

theorem Lexer.Produces.minusDue {previous : Option (Token α)} (h : Produces previous t) :
    MinusDue previous t := by
  cases h with
  | number h =>
    obtain ⟨v, rfl, -⟩ := readNumber_eq_ok h
    exact ⟨nofun, nofun⟩
  | word h =>
    obtain rfl | rfl | ⟨v, rfl, -⟩ | ⟨f, rfl⟩ := readWord_eq_ok h
    all_goals exact ⟨nofun, nofun⟩
  | glyph h =>
    unfold readGlyph? at h
    split at h <;> cases h
    case h_1 | h_2 => exact minusDue_minus previous
    all_goals exact ⟨nofun, nofun⟩

theorem minusMarked_of_tokenize {text : String} (h : tokenize text = .ok ts) :
    MinusMarked ts := by
  have hmarked := Lexer.invariant_of_tokenize (P := fun tokens => MinusMarked tokens.reverse)
    (fun tokens t ht hin => ?_) minusMarked_nil h
  · rwa [List.reverse_reverse] at hmarked
  · rw [List.reverse_cons]
    refine hin.concat ?_
    rw [List.getLast?_reverse]
    exact ht.minusDue

theorem isWritable_of_tokenize {text name : String} (h : tokenize text = .ok ts)
    (hname : .var name ∈ ts) : IsWritable name :=
  leafIn_of_tokenize (K := fun _ => True) (by constructor <;> simp) h _ hname

/-- A written list with marked minuses is read back exactly if its variables are
`x` and `y`, and every list that is read has its minuses marked. -/
theorem tokenize_eq_ok_iff_writable :
    (∀ (ts : List (Token α)) (text : String), MinusMarked ts → Written ts text.toList →
      (tokenize text = .ok ts ↔ ∀ name, .var name ∈ ts → IsWritable name)) ∧
    ∀ (text : String) (ts : List (Token α)), tokenize text = .ok ts → MinusMarked ts := by
  refine ⟨fun ts text hmarked hwritten => ⟨fun h name => isWritable_of_tokenize h, ?_⟩,
    fun text ts => minusMarked_of_tokenize⟩
  intro hvar
  rw [Lexer.tokenize_eq_scan]
  exact scan_written hwritten [] hmarked hvar 0

end

theorem isGap_nil : IsGap [] := by simp [IsGap]

theorem isGap_space : IsGap [' '] := List.all_eq_true.mp rfl

/-- The same glyph is a negation first and then a subtraction. -/
theorem tokenize_two_minuses :
    letI ts : List (Token Float) := [.neg, .var "y", .op .sub, .number 2.5]
    MinusMarked ts ∧ Written ts "− Y − 2.50".toList ∧ tokenize "− Y − 2.50" = .ok ts := by
  have hliteral : IsLiteral ['2', '.', '5', '0'] :=
    ⟨by simp, by decide, '2', by simp, rfl⟩
  have hread : Numeral.read? (String.ofList ['2', '.', '5', '0']) = some (2.5 : Float) := by
    decide +kernel
  have hwritten : Written [.neg, .var "y", .op .sub, .number (2.5 : Float)]
      ([] ++ ['−'] ++ [' '] ++ ([] ++ ['Y'] ++ [' '] ++ ([] ++ ['−'] ++ [' '] ++
        ([] ++ ['2', '.', '5', '0'] ++ [] ++ [])))) :=
    .cons isGap_nil (.neg (by decide)) isGap_space (by simp)
      (.cons isGap_nil (.var (by unfold SameLetters; decide)) isGap_space (by simp)
        (.cons isGap_nil (.op (by decide)) isGap_space (by simp)
          (.cons isGap_nil (.number hliteral hread (by decide +kernel)) isGap_nil (by simp)
            (.nil isGap_nil))))
  have hneg : MinusMarked [(.neg : Token Float)] := minusMarked_nil.concat ⟨fun _ => rfl, nofun⟩
  have hsub : MinusMarked [.neg, .var "y", (.op .sub : Token Float)] :=
    (hneg.concat (t := .var "y") ⟨nofun, nofun⟩).concat ⟨nofun, fun _ => rfl⟩
  have hmarked : MinusMarked [.neg, .var "y", .op .sub, .number (2.5 : Float)] :=
    hsub.concat ⟨nofun, nofun⟩
  refine ⟨hmarked, hwritten,
    (tokenize_eq_ok_iff_writable.1 _ "− Y − 2.50" hmarked hwritten).mpr ?_⟩
  simp [IsWritable, dependent]

/-- A variable that is neither `x` nor `y` has a text, but is not read. -/
theorem unwritable_variable_refused :
    letI ts : List (Token Float) := [.var "z"]
    MinusMarked ts ∧ Written ts "z".toList ∧ tokenize "z" =
      (.error (.unknownIdentifier "z") : Except ParseError (List (Token Float))) := by
  have hwritten : Written [(.var "z" : Token Float)] ([] ++ ['z'] ++ [] ++ []) :=
    .cons isGap_nil (.var (by unfold SameLetters; decide)) isGap_nil (by simp) (.nil isGap_nil)
  have hmarked : MinusMarked [(.var "z" : Token Float)] :=
    minusMarked_nil.concat ⟨nofun, nofun⟩
  have hname : "z".map Char.toLower = "z" ∧ Fn.ofName? "z" = none := by decide +kernel
  have hread : Lexer.readWord "z" =
      (.error (.unknownIdentifier "z") : Except ParseError (Token Float)) := by
    simp [Lexer.readWord, hname, independent, dependent]
  have hflush : Lexer.flush (⟨[], .word ['z'], 1⟩ : Lexer Float) =
      .error (.unknownIdentifier "z") := by
    show (Lexer.readWord "z" >>= fun t => _) = _
    rw [hread]
    rfl
  refine ⟨hmarked, hwritten, ?_⟩
  show (Lexer.flush ⟨[], .word ['z'], 1⟩ >>= fun s => _) = _
  rw [hflush]
  rfl

end SlopeField
