import SlopeField.Proofs.Document.Contents
import SlopeField.Proofs.Document.Sections

/-!
# Documents are read by their grammar

A text is a document exactly if the lines that count are those of one section
or more, and the document then holds what these sections say
(`parse_isOk_iff_written`).
-/

namespace SlopeField.Document

-- ---------------------------------------------------------------------------
-- The lines that count
-- ---------------------------------------------------------------------------

theorem isSignificant_iff {line : List Char} : isSignificant line = true ↔ Significant line := by
  unfold isSignificant Significant
  generalize Text.trimList line = cs
  split
  · simp
  · simp
  · rename_i c cs hslashes
    have hslash : ¬['/', '/'] <+: c :: cs := by
      rw [List.cons_prefix_cons]
      rintro ⟨rfl, rest, rfl⟩
      exact hslashes rest rfl rfl
    simp [hslash, @eq_comm _ '#', @eq_comm _ '%']

section
variable {cs reversed : List Char}

theorem linesFrom_newline (h : '\r' ∉ reversed) (cs : List Char) :
    linesFrom reversed ('\n' :: cs) = reversed.reverse :: linesFrom [] cs := by
  rw [linesFrom]
  rintro r rfl
  simp at h

theorem linesFrom_cons {c : Char} (h : c ≠ '\n') (reversed cs : List Char) :
    linesFrom reversed (c :: cs) = linesFrom (c :: reversed) cs := by
  rw [linesFrom]
  exact h

/-- The lines of a text are its pieces between line feeds, but for an empty one
at the end. -/
theorem filter_linesFrom (hcs : '\r' ∉ cs) (hreversed : '\r' ∉ reversed) :
    (linesFrom reversed cs).filter isSignificant =
      ((cs.splitOn '\n').modifyHead (reversed.reverse ++ ·)).filter isSignificant := by
  induction cs generalizing reversed with
  | nil =>
    rw [linesFrom]
    split
    · rename_i hempty
      obtain rfl := List.isEmpty_iff.mp hempty
      rfl
    · simp
  | cons c cs ih =>
    obtain ⟨hc, hrest⟩ : '\r' ≠ c ∧ '\r' ∉ cs := by simpa using hcs
    rw [List.splitOn_cons_eq_if_modifyHead]
    by_cases hline : c = '\n'
    · subst hline
      have hnil : (cs.splitOn '\n').modifyHead ([] ++ ·) = cs.splitOn '\n' := by
        cases cs.splitOn '\n' <;> rfl
      rw [linesFrom_newline hreversed, List.filter_cons, ih hrest (by simp), List.reverse_nil, hnil]
      simp [List.filter_cons]
    · rw [linesFrom_cons hline, ih hrest (by simpa using ⟨hc, hreversed⟩)]
      simp [hline, Function.comp_def]

theorem unbroken_of_mem_splitOn (hcs : '\r' ∉ cs) : ∀ l ∈ cs.splitOn '\n', Unbroken l := by
  induction cs with
  | nil => simp [Unbroken]
  | cons c cs ih =>
    obtain ⟨hc, hrest⟩ : '\r' ≠ c ∧ '\r' ∉ cs := by simpa using hcs
    have ih := ih hrest
    rw [List.splitOn_cons_eq_if_modifyHead]
    split
    · exact List.forall_mem_cons.mpr ⟨by simp [Unbroken], ih⟩
    · rename_i hline
      cases hsplit : cs.splitOn '\n' with
      | nil => simp
      | cons l ls =>
        rw [hsplit] at ih
        obtain ⟨hl, hls⟩ := List.forall_mem_cons.mp ih
        refine List.forall_mem_cons.mpr ⟨List.forall_mem_cons.mpr ⟨?_, hl⟩, hls⟩
        exact ⟨by simpa using hline, Ne.symm hc⟩

end

section
variable {text : String}

theorem significantText_eq (h : '\r' ∉ text.toList) :
    significantText text = join (significantLines text) := by
  have hhead : (text.toList.splitOn '\n').modifyHead ([].reverse ++ ·) =
      text.toList.splitOn '\n' := by cases text.toList.splitOn '\n' <;> rfl
  have hlines := filter_linesFrom h List.not_mem_nil
  rw [hhead] at hlines
  rw [significantText, lines, hlines, join, significantLines]
  congr 2
  funext line
  exact Bool.eq_iff_iff.mpr (isSignificant_iff.trans decide_eq_true_iff.symm)

theorem plain_of_mem_significantLines (h : '\r' ∉ text.toList) :
    ∀ l ∈ significantLines text, Plain l := by
  intro l hl
  obtain ⟨hmem, hsignificant⟩ := List.mem_filter.mp hl
  exact ⟨unbroken_of_mem_splitOn h l hmem, (of_decide_eq_true hsignificant).1⟩

theorem parse_nil_eq_ok {d : Document} (h : '\r' ∉ text.toList) :
    parse text [] = .ok d ↔
      ∃ ss, ss ≠ [] ∧ Written ss (significantLines text) ∧ d = ofSections ss := by
  have hplain := plain_of_mem_significantLines h
  rw [parse, significantText_eq h]
  constructor
  · intro hparse
    split at hparse
    · cases hparse
    · rename_i ss r hread
      split at hparse
      · rename_i htrim
        cases hparse
        obtain ⟨hne, hwritten⟩ := (readSections_join_iff hplain).mp ⟨r, hread, htrim⟩
        exact ⟨ss, hne, hwritten, rfl⟩
      · cases hparse
  · rintro ⟨ss, hne, hwritten, rfl⟩
    obtain ⟨r, hread, htrim⟩ := (readSections_join_iff hplain).mpr ⟨hne, hwritten⟩
    simp only [hread, if_pos htrim, List.foldl_nil]

theorem Written.unique {ls : List (List Char)} {ss ss' : List Section} (hplain : ∀ l ∈ ls, Plain l)
    (h : Written ss ls) (h' : Written ss' ls) : ss = ss' :=
  (moreSections_of_written h hplain).1.symm.trans (moreSections_of_written h' hplain).1

/-- A text is a document exactly if the lines that count are those of one section
or more, and then the document holds what these sections say. -/
theorem parse_isOk_iff_written (text : String) (h : '\r' ∉ text.toList) :
    ((∃ d, parse text [] = .ok d) ↔ ∃ ss, ss ≠ [] ∧ Written ss (significantLines text)) ∧
    ∀ d ss, parse text [] = .ok d → Written ss (significantLines text) → d.Holds ss := by
  constructor
  · constructor
    · rintro ⟨d, hparse⟩
      obtain ⟨ss, hne, hwritten, -⟩ := (parse_nil_eq_ok h).mp hparse
      exact ⟨ss, hne, hwritten⟩
    · rintro ⟨ss, hne, hwritten⟩
      exact ⟨_, (parse_nil_eq_ok h).mpr ⟨ss, hne, hwritten, rfl⟩⟩
  · intro d ss hparse hwritten
    obtain ⟨ss', -, hwritten', rfl⟩ := (parse_nil_eq_ok h).mp hparse
    obtain rfl := hwritten.unique (plain_of_mem_significantLines h) hwritten'
    exact holds_ofSections ss

/-- A section that comes twice, with a comment and a key that comes twice. -/
def repeated : String :=
  "# run\nrange\n  low: 1\n  low: 2, x; true\nother\n  key:\nrange\n  high: 3\n"

theorem parse_repeated :
    ∃ d ss, parse repeated [] = .ok d ∧ Written ss (significantLines repeated) ∧ d.Holds ss ∧
      d.sections.map (fun part => (part.1, part.2.map Prod.fst)) =
        [("range", ["low", "high"]), ("other", ["key"])] ∧
      (d.get? "range" "low").map List.length = some 3 ∧
      (d.get? "other" "key").map List.length = some 0 := by
  have hcr : '\r' ∉ repeated.toList := by decide +kernel
  have hparse : (parse repeated []).toOption.any (fun d =>
      d.sections.map (fun part => (part.1, part.2.map Prod.fst)) =
          [("range", ["low", "high"]), ("other", ["key"])] ∧
        (d.get? "range" "low").map List.length = some 3 ∧
        (d.get? "other" "key").map List.length = some 0) = true := by decide +kernel
  obtain ⟨d, hd, hall⟩ := (Option.any_eq_true _ _).mp hparse
  have hd := toOption_eq_some.mp hd
  obtain ⟨ss, -, hwritten⟩ := (parse_isOk_iff_written repeated hcr).1.mp ⟨d, hd⟩
  exact ⟨d, ss, hd, hwritten, (parse_isOk_iff_written repeated hcr).2 d ss hd hwritten,
    of_decide_eq_true hall⟩

end

end SlopeField.Document
