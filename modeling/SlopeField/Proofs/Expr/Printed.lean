import SlopeField.Equation.Solve
import SlopeField.Proofs.Binary64.Text
import SlopeField.Proofs.Expr.Leaves
import SlopeField.Proofs.Expr.Reading
import SlopeField.Proofs.Token.Scan
import SlopeField.Proofs.Token.ShuntingYard

/-!
# Printed trees are read back

Scanning the printed form of a tree gives its tokens (`scans_render`), if that
holds of its constants. Together with the grammar this says what the parser
makes of a printed tree over floats (`parse_render`).

A text whose tokens form a phrase is read as the tree of the phrase, or refused
where that is too deep (`read_of_tokenize`). A blank text has no tokens, so the
test for one never gets in the way.
-/

namespace SlopeField

open Lexer (scan Boundary boundary_nil boundary_cons)

variable {α : Type} [Scalar α] [Numeral α]

/-- Where an operand is due, the text is scanned as these tokens. -/
def Scans (cs : List Char) (ts : List (Token α)) : Prop :=
  ∀ (tokens : List (Token α)) (rest : List Char) (p : Nat),
    tokens.head?.all Token.expectsOperand = true → Boundary rest →
    ∃ p', scan ⟨tokens, .none, p⟩ (cs ++ rest) = scan ⟨ts.reverse ++ tokens, .none, p'⟩ rest

variable {cs ds : List Char} {ts us : List (Token α)}

theorem tokenize_of_scans {text : String} (h : Scans text.toList ts) :
    tokenize text = .ok ts := by
  obtain ⟨p, hp⟩ := h [] [] 0 rfl boundary_nil
  rw [List.append_nil] at hp
  rw [Lexer.tokenize_eq_scan, hp]
  simp

theorem Scans.parens (h : Scans cs ts) :
    ∀ (tokens : List (Token α)) (rest : List Char) (p : Nat),
      ∃ p', scan ⟨tokens, .none, p⟩ ('(' :: cs ++ [')'] ++ rest) =
        scan ⟨.rparen :: (ts.reverse ++ .lparen :: tokens), .none, p'⟩ rest := by
  intro tokens rest p
  obtain ⟨p', hcs⟩ :=
    h (.lparen :: tokens) (')' :: rest) (p + 1) rfl (boundary_cons (by decide) rest)
  refine ⟨p' + 1, ?_⟩
  have hopen : scan (⟨tokens, .none, p⟩ : Lexer α) ('(' :: (cs ++ ')' :: rest)) =
      scan ⟨.lparen :: tokens, .none, p + 1⟩ (cs ++ ')' :: rest) :=
    Lexer.scan_glyph (by decide) rfl p
  have hclose : scan (⟨ts.reverse ++ .lparen :: tokens, .none, p'⟩ : Lexer α) (')' :: rest) =
      scan ⟨.rparen :: (ts.reverse ++ .lparen :: tokens), .none, p' + 1⟩ rest :=
    Lexer.scan_glyph (by decide) rfl p'
  rw [hclose] at hcs
  rw [← hcs, ← hopen]
  simp

theorem Scans.wrap {s : String} (h : Scans s.toList ts) (wrap : Bool) :
    Scans (Expr.parens wrap s).toList (Expr.wrapTokens wrap ts) := by
  cases wrap with
  | false => exact h
  | true =>
    intro tokens rest p _ _
    obtain ⟨p', hp⟩ := h.parens tokens rest p
    refine ⟨p', ?_⟩
    simpa [Expr.parens, Expr.wrapTokens] using hp

theorem Scans.neg (h : Scans cs ts) : Scans ('-' :: cs) (.neg :: ts) := by
  intro tokens rest p hdue hb
  obtain ⟨p', hp⟩ := h (.neg :: tokens) rest (p + 1) rfl hb
  refine ⟨p', ?_⟩
  have hminus : Lexer.readGlyph? tokens.head? '-' = some .neg := by
    simp [Lexer.readGlyph?, Token.minus, hdue]
  rw [List.cons_append, Lexer.scan_glyph (by decide) hminus, hp]
  simp

theorem scan_spaced (o : BinOp) {tokens : List (Token α)}
    (h : tokens.head?.all Token.expectsOperand = false) (rest : List Char) (p : Nat) :
    ∃ p', scan ⟨tokens, .none, p⟩ (o.spaced.toList ++ rest) =
      scan ⟨.op o :: tokens, .none, p'⟩ rest := by
  have hglyph {c : Char} (hc : Text.isBlank c = false ∧ Lexer.isNumberChar c = false ∧
      Lexer.isWordStart c = false) (hr : Lexer.readGlyph? tokens.head? c = some (.op o)) :
      scan ⟨tokens, .none, p⟩ ([' ', c, ' '] ++ rest) =
        scan ⟨.op o :: tokens, .none, p + 3⟩ rest := by
    rw [List.cons_append, Lexer.scan_space, List.cons_append, Lexer.scan_glyph hc hr]
    rfl
  cases o with
  | add => exact ⟨_, hglyph (by decide) rfl⟩
  | sub => exact ⟨_, hglyph (c := '-') (by decide) (by simp [Lexer.readGlyph?, Token.minus, h])⟩
  | mul => exact ⟨_, hglyph (by decide) rfl⟩
  | div => exact ⟨_, hglyph (by decide) rfl⟩
  | pow => exact ⟨_, Lexer.scan_glyph (by decide) rfl p⟩

theorem boundary_spaced (o : BinOp) (rest : List Char) : Boundary (o.spaced.toList ++ rest) := by
  cases o <;> exact boundary_cons (by decide) _

theorem Scans.bin (o : BinOp) (hl : Scans cs ts) (hr : Scans ds us)
    (hlast : ∃ t ∈ ts.getLast?, t.expectsOperand = false) :
    Scans (cs ++ o.spaced.toList ++ ds) (ts ++ .op o :: us) := by
  intro tokens rest p hdue hb
  obtain ⟨t, ht, hlast⟩ := hlast
  obtain ⟨p₁, h₁⟩ := hl tokens (o.spaced.toList ++ (ds ++ rest)) p hdue (boundary_spaced o _)
  have hhead : (ts.reverse ++ tokens).head?.all Token.expectsOperand = false := by
    simp [List.head?_append, Option.mem_def.mp ht, hlast]
  obtain ⟨p₂, h₂⟩ := scan_spaced o hhead (ds ++ rest) p₁
  obtain ⟨p₃, h₃⟩ := hr (.op o :: (ts.reverse ++ tokens)) rest p₂ rfl hb
  refine ⟨p₃, ?_⟩
  rw [h₂, h₃] at h₁
  simpa using h₁

theorem scans_word {c : Char} {t : Token α} (hc : Lexer.isWordStart c = true)
    (h : ∀ d ∈ cs, Lexer.isWordChar d = true)
    (hread : Lexer.readWord (String.ofList (c :: cs)) = .ok t) : Scans (c :: cs) [t] :=
  fun _ _ p _ hb => Lexer.scan_word hc h hread hb p

theorem scans_var {name : String} (h : name = independent ∨ name = dependent) :
    Scans name.toList [(.var name : Token α)] := by
  obtain rfl | rfl := h
  · exact scans_word (c := 'x') (by decide) (by simp) (by cbv)
  · exact scans_word (c := 'y') (by decide) (by simp) (by cbv)

omit [Scalar α] in
theorem readWord_name (f : Fn) : Lexer.readWord f.name = .ok (.func f : Token α) := by
  refine Lexer.readWord_of_mem_names f f.name ?_
  cases f <;> decide

theorem name_isWord (f : Fn) : ∃ c cs, f.name.toList = c :: cs ∧ Lexer.isWordStart c = true ∧
    ∀ d ∈ cs, Lexer.isWordChar d = true := by
  cases f <;> exact ⟨_, _, rfl, rfl, List.all_eq_true.mp rfl⟩

theorem Scans.func (f : Fn) {s : String} (h : Scans s.toList ts) :
    Scans (f.name ++ Expr.parens true s).toList (.func f :: Expr.wrapTokens true ts) := by
  intro tokens rest p _ _
  obtain ⟨c, cs, hname, hc, hcs⟩ := name_isWord f
  have hread : Lexer.readWord (String.ofList (c :: cs)) = .ok (.func f : Token α) := by
    rw [← hname, String.ofList_toList, readWord_name]
  obtain ⟨p₁, h₁⟩ := Lexer.scan_word hc hcs hread
    (boundary_cons (c := '(') (by decide) (s.toList ++ [')'] ++ rest)) p
  obtain ⟨p₂, h₂⟩ := h.parens (.func f :: tokens) rest p₁
  refine ⟨p₂, ?_⟩
  rw [← hname] at h₁
  simpa [Expr.parens, Expr.wrapTokens] using h₁.trans h₂

theorem scans_render (e : Expr α)
    (hvar : ∀ v, e.mentions v = true → v = independent ∨ v = dependent)
    (hconst : ∀ c ∈ e.constants, Scans (Expr.const c).render.toList (Expr.const c).tokens) :
    Scans e.render.toList e.tokens := by
  induction e with
  | var name => exact scans_var (hvar name (by simp [Expr.mentions]))
  | const c => exact hconst c (by simp [Expr.constants])
  | neg e ih =>
    have h := ((ih hvar hconst).wrap (e.needsParens negPrecedence false)).neg
    simpa [Expr.render, Expr.tokens] using h
  | func f e ih => exact (ih hvar hconst).func f
  | bin o l r ihl ihr =>
    have hl := ihl (fun v hv => hvar v (by simp [Expr.mentions, hv]))
      fun c hc => hconst c (by simp [Expr.constants, hc])
    have hr := ihr (fun v hv => hvar v (by simp [Expr.mentions, hv]))
      fun c hc => hconst c (by simp [Expr.constants, hc])
    have hprec : o.precedence ≤ negPrecedence := by cases o <;> decide
    obtain ⟨q, -, -, hleft⟩ := derives_operand (derives_tokens l) hprec o.strictLeft
    have h := (hl.wrap (l.needsParens o.precedence o.strictLeft)).bin o
      (hr.wrap (r.needsParens o.precedence o.strictRight)) hleft.last
    simpa [Expr.render, Expr.tokens] using h

theorem tokenize_render (e : Expr α)
    (hvar : ∀ v, e.mentions v = true → v = independent ∨ v = dependent)
    (hconst : ∀ c ∈ e.constants, Scans (Expr.const c).render.toList (Expr.const c).tokens) :
    tokenize e.render = .ok e.tokens :=
  tokenize_of_scans (scans_render e hvar hconst)

theorem parse_of_scans (e : Expr α)
    (hvar : ∀ v, e.mentions v = true → v = independent ∨ v = dependent)
    (hconst : ∀ c ∈ e.constants, Scans (Expr.const c).render.toList (Expr.const c).tokens) :
    tokenize e.render >>= toPostfix >>= reducePostfix =
      if e.reading.depth ≤ maxDepth then .ok e.reading else .error (.tooDeep maxDepth) := by
  have h := (derives_tokens e).mono e.phrase.le_strength
  rw [tokenize_render e hvar hconst, ok_bind, toPostfix_of_derives h, ok_bind,
    reducePostfix_reversePolish]

-- ---------------------------------------------------------------------------
-- Whole texts
-- ---------------------------------------------------------------------------

section
variable {e : Expr α} {text : String}

theorem trimList_ne_nil_of_tokenize (h : tokenize text = .ok ts) (hne : ts ≠ []) :
    Text.trimList text.toList ≠ [] := by
  intro hnil
  have hblank := Lexer.scan_blanks (α := α) (Text.trimList_eq_nil_iff.mp hnil) [] 0
  rw [Lexer.tokenize_eq_scan] at h
  cases h.symm.trans hblank
  exact hne rfl

theorem read_of_tokenize (h : tokenize text = .ok ts) (hd : Derives .sum ts e) :
    Expr.read text = if e.depth ≤ maxDepth then .ok e else .error (.tooDeep maxDepth) := by
  have hne : ts ≠ [] := by
    rintro rfl
    obtain ⟨t, ht, -⟩ := hd.last
    cases ht
  rw [Expr.read, if_neg (trimList_ne_nil_of_tokenize h hne), h, ok_bind, toPostfix_of_derives hd,
    ok_bind, reducePostfix_reversePolish]

theorem parse_eq_ok (h : tokenize text = .ok ts) (hd : Derives .sum ts e)
    (hdepth : e.depth ≤ maxDepth) : Expr.parse text = .ok e.simplify := by
  rw [Expr.parse, read_of_tokenize h hd, if_pos hdepth]
  rfl

theorem parseEquation_append (rhs : String) (h : '=' ∉ rhs.toList) :
    parseEquation ("dy/dx=" ++ rhs) = (Expr.parse rhs : Except ParseError (Expr α)) := by
  have hsplit : splitEquation? ("dy/dx=" ++ rhs) = some ("dy/dx".toList, rhs.toList) := by
    simp [splitEquation?, h]
  rw [parseEquation, hsplit]
  simp only [String.ofList_toList]
  rfl

end

-- ---------------------------------------------------------------------------
-- Floats
-- ---------------------------------------------------------------------------

section
variable {c : Float}

theorem scans_zero : Scans "0".toList [(.number (Arithmetic.ofNat 0) : Token Float)] := by
  intro tokens rest p _ hb
  exact Lexer.scan_number (by decide) (List.all_eq_true.mp rfl) rfl hb p

theorem scans_abs (hc : c.isFinite = true) (hz : (c == 0.0) = false) :
    Scans (Binary64.text c.abs).toList [.number c.abs] := by
  intro tokens rest p _ hb
  have hfinite : Arithmetic.isFinite c.abs = true := Binary64.isFinite_abs hc
  have hread : Numeral.read? (Binary64.text c.abs) = some c.abs := Binary64.read?_text hfinite
  refine Lexer.scan_number ?_ (fun ch hch => ?_) ?_ hb p
  · intro hnil
    rw [String.toList_eq_nil_iff.mp hnil] at hread
    cases hread
  · rw [Binary64.text_abs hc hz] at hch
    obtain h | rfl := Decimal.mem_positional hch
    · simp [Lexer.isNumberChar, h]
    · decide
  · simp [Lexer.readNumber, hread, hfinite]

theorem scans_const (hc : c.isFinite = true) :
    Scans (Expr.const c).render.toList (Expr.const c).tokens := by
  by_cases hz : Scalar.isZero c = true
  · rw [Expr.render, Expr.tokens, if_pos hz, if_pos hz]
    exact scans_zero
  · have hne : (c == 0.0) = false := Bool.eq_false_iff.mpr hz
    have habs := scans_abs hc hne
    rw [Expr.render, Expr.tokens, if_neg hz, if_neg hz]
    split
    case isTrue hneg =>
      have hlt : c < 0.0 := of_decide_eq_true hneg
      have htext : Numeral.text c = "-" ++ Binary64.text c.abs := Binary64.text_of_neg hc hlt
      rw [htext, ← Binary64.abs_of_neg hc hlt]
      simpa using habs.neg
    case isFalse hneg =>
      have hlt : ¬c < 0.0 := fun h => hneg (decide_eq_true h)
      rw [Binary64.abs_of_pos hc hne hlt] at habs
      exact habs

end

/-- The printed form of a tree over floats is read as its reading, or refused
where that is too deep. -/
theorem parse_render (e : Expr Float)
    (hvar : ∀ v, e.mentions v = true → v = independent ∨ v = dependent)
    (hfinite : ∀ c ∈ e.constants, c.isFinite = true) :
    tokenize e.render >>= toPostfix >>= reducePostfix =
      if e.reading.depth ≤ maxDepth then .ok e.reading else .error (.tooDeep maxDepth) :=
  parse_of_scans e hvar fun c hc => scans_const (hfinite c hc)

/-- `x + (-2.5 - y)` is printed as `x + -2.5 - y`, which groups to the left. -/
theorem parse_rendered_sum :
    tokenize (Expr.bin .add (.var "x") (.bin .sub (.const (-2.5 : Float)) (.var "y"))).render >>=
        toPostfix >>= reducePostfix =
      .ok (.bin .sub (.bin .add (.var "x") (.neg (.const 2.5))) (.var "y")) := by
  have h := parse_render (.bin .add (.var "x") (.bin .sub (.const (-2.5 : Float)) (.var "y")))
    (fun v hv => ?_) (by simp [Expr.constants]; decide +kernel)
  · exact h
  · simp only [Expr.mentions, Bool.or_eq_true, beq_iff_eq, Bool.false_or] at hv
    exact hv.imp Eq.symm Eq.symm

end SlopeField
