import SlopeField.Proofs.Document.Parse
import SlopeField.Proofs.Token.Scan

/-!
# Documents written line by line

The lines of sections all count, so a document that is these lines and nothing
else is read as the sections (`parse_join`). A template adds no values, so what
is read off the document afterwards is what its sections say
(`get?_addTemplates`).
-/

namespace SlopeField

namespace Text

variable {cs before after : List Char}

theorem exists_trimList_eq {c : Char} (hbefore : ∀ d ∈ before, isBlank d = true)
    (hc : isBlank c = false) (cs : List Char) : ∃ cs', trimList (before ++ c :: cs) = c :: cs' := by
  have hdrop : (before ++ c :: cs).dropWhile isBlank = c :: cs := by
    rw [List.dropWhile_append_of_pos hbefore, List.dropWhile_cons_of_neg (by simp [hc])]
  have hlast : ∃ rest, (cs.reverse ++ [c]).dropWhile isBlank = rest ++ [c] := by
    rw [List.dropWhile_append]
    split
    · exact ⟨[], List.dropWhile_cons_of_neg (by simp [hc])⟩
    · exact ⟨_, rfl⟩
  obtain ⟨rest, hrest⟩ := hlast
  exact ⟨rest.reverse, by rw [trimList, hdrop, List.reverse_cons, hrest]; simp⟩

theorem trimList_padded (hbefore : ∀ d ∈ before, isBlank d = true)
    (hafter : ∀ d ∈ after, isBlank d = true) (hne : cs ≠ [])
    (hfirst : ∀ d ∈ cs.head?, isBlank d = false) (hlast : ∀ d ∈ cs.getLast?, isBlank d = false) :
    trimList (before ++ cs ++ after) = cs := by
  have hdrop : (before ++ cs ++ after).dropWhile isBlank = cs ++ after := by
    rw [List.append_assoc, List.dropWhile_append_of_pos hbefore]
    cases cs with
    | nil => exact (hne rfl).elim
    | cons c cs => exact List.dropWhile_cons_of_neg (by simp [hfirst c rfl])
  have hback : (after.reverse ++ cs.reverse).dropWhile isBlank = cs.reverse := by
    rw [List.dropWhile_append_of_pos (by simpa using hafter)]
    refine (Document.stops_of_head ?_).2
    simpa using hlast
  rw [trimList, hdrop, List.reverse_append, hback, List.reverse_reverse]

end Text

namespace Document

variable {l : List Char}

-- ---------------------------------------------------------------------------
-- Lines that count
-- ---------------------------------------------------------------------------

theorem IsSpace.isBlank (h : IsSpace l) : ∀ c ∈ l, Text.isBlank c = true := by
  intro c hc
  obtain rfl | rfl := h c hc <;> decide

theorem IsName.significant {before n : List Char} (hn : IsName n) (hbefore : IsSpace before)
    (rest : List Char) : Significant (before ++ (n ++ rest)) := by
  cases n with
  | nil => exact hn.elim
  | cons c n =>
    obtain ⟨hblank, -⟩ := Lexer.not_blank_of_isWordStart (c := c) hn.1
    obtain ⟨cs, hcs⟩ := Text.exists_trimList_eq hbefore.isBlank hblank (n ++ rest)
    rw [Significant, List.cons_append, hcs]
    refine ⟨by simp, ?_⟩
    have hstart (d : Char) (hd : isNameStart d = false) : ¬d = c := by
      rintro rfl
      exact absurd hn.1 (by simp [hd])
    simp [hstart '/' (by decide), hstart '#' (by decide), hstart '%' (by decide)]

theorem TitleLine.significant {title : String} (h : TitleLine title l) : Significant l := by
  obtain ⟨hbefore, hn, -⟩ := h
  rw [List.append_assoc]
  exact hn.significant hbefore _

theorem KeyLine.significant {e : Entry} (h : KeyLine e l) : Significant l := by
  obtain ⟨hbefore, hn, -, -⟩ := h
  rw [List.append_assoc, List.append_assoc]
  exact hn.significant hbefore _

theorem SectionLines.significant {s : Section} {ls : List (List Char)} (h : SectionLines s ls) :
    ∀ l ∈ ls, Significant l := by
  obtain ⟨htitle, -, hkeys⟩ := h
  refine List.forall_mem_cons.mpr ⟨htitle.significant, ?_⟩
  induction hkeys with
  | nil => simp
  | cons hkey _ ih => exact List.forall_mem_cons.mpr ⟨hkey.significant, ih⟩

theorem Written.significant {ss : List Section} {ls : List (List Char)} (h : Written ss ls) :
    ∀ l ∈ ls, Significant l := by
  induction h with
  | nil => simp
  | cons hlines _ ih => exact List.forall_mem_append.mpr ⟨hlines.significant, ih⟩

theorem Written.ne_nil {ss : List Section} {ls : List (List Char)} (h : Written ss ls)
    (hne : ss ≠ []) : ls ≠ [] := by
  cases h with
  | nil => exact (hne rfl).elim
  | cons hlines _ =>
    cases hlines
    simp

theorem significantLines_join {ls : List (List Char)} (hne : ls ≠ [])
    (hunbroken : ∀ l ∈ ls, Unbroken l) (hsignificant : ∀ l ∈ ls, Significant l) :
    significantLines (String.ofList (join ls)) = ls := by
  have hsplit : (join ls).splitOn '\n' = ls :=
    List.splitOn_intercalate '\n' (fun l hl hmem => (hunbroken l hl _ hmem).1 rfl) hne
  rw [significantLines, String.toList_ofList, hsplit]
  exact List.filter_eq_self.mpr fun l hl => decide_eq_true (hsignificant l hl)

theorem not_mem_join {ls : List (List Char)} (hunbroken : ∀ l ∈ ls, Unbroken l) :
    '\r' ∉ join ls := by
  induction ls with
  | nil => simp [join]
  | cons l ls ih =>
    obtain ⟨hl, hls⟩ := List.forall_mem_cons.mp hunbroken
    rw [join_cons, List.mem_append, following]
    rintro (hmem | hmem)
    · exact (hl _ hmem).2 rfl
    · split at hmem
      · cases hmem
      · exact ih hls (by simpa using hmem)

-- ---------------------------------------------------------------------------
-- Templates
-- ---------------------------------------------------------------------------

theorem get?_eq (d : Document) (title key : String) :
    d.get? title key = (d.field? title key).join := by
  simp only [get?, field?]
  cases d.sections.lookup title <;> rfl

theorem lookup_addKeys (keys : List String) (fields : Fields) (key : String) :
    ((keys.foldl (fun fs key => alter key (·.getD none) fs) fields).lookup key).join =
      (fields.lookup key).join := by
  induction keys generalizing fields with
  | nil => rfl
  | cons k keys ih =>
    rw [List.foldl_cons, ih, lookup_alter]
    split
    · subst k
      cases fields.lookup key <;> rfl
    · rfl

theorem get?_addTemplate (d : Document) (part : String × List String) (title key : String) :
    (d.addTemplate part).get? title key = d.get? title key := by
  simp only [get?_eq, field?, addTemplate, lookup_alter]
  by_cases htitle : title = part.1
  · subst htitle
    cases d.sections.lookup part.1 with
    | none => simpa using lookup_addKeys part.2 [] key
    | some fields => simpa using lookup_addKeys part.2 fields key
  · simp [htitle]

theorem get?_addTemplates (template : Template) (d : Document) (title key : String) :
    (template.foldl addTemplate d).get? title key = d.get? title key := by
  induction template generalizing d with
  | nil => rfl
  | cons part template ih => rw [List.foldl_cons, ih, get?_addTemplate]

theorem parse_of_written {text : String} {ss : List Section} (h : '\r' ∉ text.toList)
    (hne : ss ≠ []) (hwritten : Written ss (significantLines text)) (template : Template) :
    parse text template = .ok (template.foldl addTemplate (ofSections ss)) := by
  obtain ⟨r, hread, htrim⟩ :=
    (readSections_join_iff (plain_of_mem_significantLines h)).mpr ⟨hne, hwritten⟩
  rw [parse, significantText_eq h, hread]
  exact if_pos htrim

/-- The lines of sections, and nothing else, are read as a document that says under each title and
key what the last line with it says. -/
theorem parse_join {ss : List Section} {ls : List (List Char)} (hne : ss ≠ [])
    (hwritten : Written ss ls) (hunbroken : ∀ l ∈ ls, Unbroken l) (template : Template) :
    ∃ d, parse (String.ofList (join ls)) template = .ok d ∧ ∀ title key,
      d.get? title key = (lastEntry (entriesUnder ss title) key).map Entry.values := by
  have hlines := significantLines_join (hwritten.ne_nil hne) hunbroken hwritten.significant
  have hcr : '\r' ∉ (String.ofList (join ls)).toList := by
    rw [String.toList_ofList]
    exact not_mem_join hunbroken
  rw [← hlines] at hwritten
  refine ⟨_, parse_of_written hcr hne hwritten template, fun title key => ?_⟩
  rw [get?_addTemplates, get?_eq, (holds_ofSections ss).fields]
  cases lastEntry (entriesUnder ss title) key <;> rfl

end Document

end SlopeField
