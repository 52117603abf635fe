import SlopeField.Proofs.Document.KeyLine

/-!
# Reading sections

On lines joined by line feeds, a section takes its title line and all key lines
that follow (`reads_readSection_iff`), and a text is read to its end exactly if
its lines are those of some sections (`readSections_join_iff`). A title line is
never a key line, so there is one way to split the lines.
-/

namespace SlopeField.Document

variable {l t r : List Char} {ls ls' : List (List Char)}

-- ---------------------------------------------------------------------------
-- Joined lines
-- ---------------------------------------------------------------------------

def join (ls : List (List Char)) : List Char := ['\n'].intercalate ls

def following (ls : List (List Char)) : List Char := if ls = [] then [] else '\n' :: join ls

theorem join_cons (l : List Char) (ls : List (List Char)) :
    join (l :: ls) = l ++ following ls := by
  cases ls with
  | nil => simp [join, following]
  | cons l' ls => simp [join, following]

theorem atEnd_following (ls : List (List Char)) : AtEnd (following ls) := by
  intro c hc
  unfold following at hc
  split at hc
  · cases hc
  · cases hc
    rfl

theorem drop_following (ls : List (List Char)) : (following ls).drop 1 = join ls := by
  unfold following
  split
  · subst ls
    rfl
  · rfl

theorem following_eq_cons_iff : following ls = '\n' :: r ↔ ls ≠ [] ∧ r = join ls := by
  unfold following
  split
  · simp [*]
  · simp [*, eq_comm]

def Plain (l : List Char) : Prop := Unbroken l ∧ Text.trimList l ≠ []

theorem Plain.skipSpace_ne_nil (h : Plain l) : skipSpace l ≠ [] := by
  intro hl
  have htrim := trimList_skipSpace l
  rw [hl] at htrim
  exact h.2 htrim.symm

theorem Plain.skipLines_append (h : Plain l) (t : List Char) :
    skipLines (l ++ t) = skipSpace l ++ t := by
  obtain ⟨space, hspace, hl⟩ := exists_space l
  have hhead : ∀ c ∈ (skipSpace l ++ t).head?,
      (c == ' ' || c == '\t' || c == '\r' || c == '\n') = false := by
    intro c hc
    cases hskip : skipSpace l with
    | nil => exact (h.skipSpace_ne_nil hskip).elim
    | cons d l' =>
      rw [hskip] at hc
      obtain rfl : d = c := by simpa using hc
      have hbreak := h.1.skipSpace d (hskip ▸ .head _)
      have hspace := head_skipSpace l d (by simp [hskip])
      simp [hbreak, hspace]
  have hskip := takeWhile_eq_of_head (p := fun c => c == ' ' || c == '\t' || c == '\r' || c == '\n')
    (n := space) (fun c hc => by obtain rfl | rfl := hspace c hc <;> rfl) hhead
  rw [← List.append_assoc, ← hl] at hskip
  exact hskip.2

theorem skipLines_join_cons (h : Plain l) (ls : List (List Char)) :
    skipLines (join (l :: ls)) = skipSpace l ++ following ls := by
  rw [join_cons, h.skipLines_append]

theorem reads_titleLine_skipSpace_iff (hl : Unbroken l) (ht : AtEnd t) {v : String} :
    Reads (titleLine (skipSpace l ++ t)) v r ↔ TitleLine v l ∧ t = '\n' :: r := by
  rw [← reads_titleLine_iff hl ht, reads_titleLine, reads_titleLine, skipSpace_atEnd ht,
    skipSpace_atEnd ht, skipSpace_skipSpace]

theorem reads_keyLine_skipSpace_iff (hl : Unbroken l) (ht : AtEnd t) {e : Entry} :
    Reads (keyLine (skipSpace l ++ t)) e r ↔ KeyLine e l ∧ r = t.drop 1 := by
  rw [← reads_keyLine_iff hl ht, reads_keyLine, reads_keyLine, skipSpace_atEnd ht,
    skipSpace_atEnd ht, skipSpace_skipSpace]

-- ---------------------------------------------------------------------------
-- Key lines
-- ---------------------------------------------------------------------------

def KeyFree (ls : List (List Char)) : Prop := ∀ l ∈ ls.head?, ∀ e, ¬KeyLine e l

section
variable {cs : List Char}

theorem keyLines_of_reads {e : Entry} (h : Reads (keyLine cs) e r) :
    (keyLines cs).value = e :: (keyLines (skipLines r)).value ∧
      (keyLines cs).rest = (keyLines (skipLines r)).rest := by
  obtain ⟨line, hline, rfl, rfl⟩ := h
  rw [keyLines, hline]
  exact ⟨rfl, rfl⟩

theorem keyLines_of_not_reads (h : ∀ e r, ¬Reads (keyLine cs) e r) :
    (keyLines cs).value = [] ∧ (keyLines cs).rest = cs := by
  cases hline : keyLine cs with
  | error failure =>
    rw [keyLines, hline]
    exact ⟨rfl, rfl⟩
  | ok line => exact (h _ _ ⟨line, hline, rfl, rfl⟩).elim

end

theorem keyLines_join {entries : List Entry} (hkeys : List.Forall₂ KeyLine entries ls)
    (hfree : KeyFree ls') (hplain : ∀ l ∈ ls ++ ls', Plain l) :
    (keyLines (skipLines (join (ls ++ ls')))).value = entries ∧
      (keyLines (skipLines (join (ls ++ ls')))).rest = skipLines (join ls') := by
  induction hkeys with
  | nil =>
    rw [List.nil_append] at hplain ⊢
    refine keyLines_of_not_reads fun e r hreads => ?_
    cases ls' with
    | nil =>
      obtain ⟨r₁, -, ⟨taken, hname, -⟩, -⟩ := reads_keyLine.mp hreads
      cases hname
    | cons l ls' =>
      have hl := hplain l (.head _)
      rw [skipLines_join_cons hl, reads_keyLine_skipSpace_iff hl.1 (atEnd_following ls')] at hreads
      exact hfree l rfl e hreads.1
  | @cons e l entries ls he hkeys ih =>
    rw [List.cons_append] at hplain ⊢
    obtain ⟨hl, hplain⟩ := List.forall_mem_cons.mp hplain
    obtain ⟨hentries, hrest⟩ := ih hplain
    have hreads := (reads_keyLine_skipSpace_iff hl.1 (atEnd_following (ls ++ ls'))).mpr ⟨he, rfl⟩
    rw [drop_following] at hreads
    rw [skipLines_join_cons hl]
    obtain ⟨hvalue, hleft⟩ := keyLines_of_reads hreads
    exact ⟨by rw [hvalue, hentries], by rw [hleft, hrest]⟩

theorem exists_keyLines (ls : List (List Char)) :
    ∃ entries ls₁ ls₂, ls = ls₁ ++ ls₂ ∧ List.Forall₂ KeyLine entries ls₁ ∧ KeyFree ls₂ := by
  induction ls with
  | nil => exact ⟨[], [], [], rfl, .nil, by simp [KeyFree]⟩
  | cons l ls ih =>
    by_cases hkey : ∃ e, KeyLine e l
    · obtain ⟨e, he⟩ := hkey
      obtain ⟨entries, ls₁, ls₂, rfl, hkeys, hfree⟩ := ih
      exact ⟨e :: entries, l :: ls₁, ls₂, rfl, .cons he hkeys, hfree⟩
    · exact ⟨[], [], l :: ls, rfl, .nil, by rintro _ ⟨⟩ e he; exact hkey ⟨e, he⟩⟩

-- ---------------------------------------------------------------------------
-- Sections
-- ---------------------------------------------------------------------------

theorem reads_readSection {cs : List Char} {s : Section} : Reads (readSection cs) s r ↔
    ∃ r₁ e r₂, Reads (titleLine cs) s.title r₁ ∧ Reads (keyLine r₁) e r₂ ∧
      s.entries = e :: (keyLines (skipLines r₂)).value ∧ r = (keyLines (skipLines r₂)).rest := by
  constructor
  · rintro ⟨taken, h, rfl, rfl⟩
    obtain ⟨title, htitle, h⟩ := bind_eq_ok.mp h
    obtain ⟨first, hfirst, h⟩ := bind_eq_ok.mp h
    cases h
    exact ⟨_, _, _, ⟨title, htitle, rfl, rfl⟩, ⟨first, hfirst, rfl, rfl⟩, rfl, rfl⟩
  · obtain ⟨title, entries⟩ := s
    rintro ⟨_, _, _, ⟨title, htitle, rfl, rfl⟩, ⟨first, hfirst, rfl, rfl⟩, rfl, rfl⟩
    simp only [Reads, readSection, htitle, hfirst, ok_bind]
    exact ⟨_, rfl, rfl, rfl⟩

theorem reads_readSection_iff {s : Section} (hplain : ∀ l ∈ ls, Plain l) :
    Reads (readSection (skipLines (join ls))) s r ↔ ∃ ls₁ ls₂, ls = ls₁ ++ ls₂ ∧
      SectionLines s ls₁ ∧ KeyFree ls₂ ∧ r = skipLines (join ls₂) := by
  rw [reads_readSection]
  constructor
  · rintro ⟨r₁, e, r₂, htitle, hkey, hentries, rfl⟩
    cases ls with
    | nil =>
      obtain ⟨r₁, ⟨taken, hname, -⟩, -⟩ := reads_titleLine.mp htitle
      cases hname
    | cons l ls =>
      obtain ⟨hl, hplain⟩ := List.forall_mem_cons.mp hplain
      rw [skipLines_join_cons hl, reads_titleLine_skipSpace_iff hl.1 (atEnd_following ls),
        following_eq_cons_iff] at htitle
      obtain ⟨htitle, hne, rfl⟩ := htitle
      cases ls with
      | nil => exact (hne rfl).elim
      | cons l' ls =>
        obtain ⟨hl', hplain⟩ := List.forall_mem_cons.mp hplain
        rw [join_cons, reads_keyLine_iff hl'.1 (atEnd_following ls), drop_following] at hkey
        obtain ⟨hkey, rfl⟩ := hkey
        obtain ⟨entries, ls₁, ls₂, rfl, hkeys, hfree⟩ := exists_keyLines ls
        obtain ⟨hvalue, hrest⟩ := keyLines_join hkeys hfree hplain
        obtain ⟨title, entries'⟩ := s
        obtain rfl : entries' = e :: entries := by rw [← hvalue]; exact hentries
        exact ⟨l :: l' :: ls₁, ls₂, rfl, .intro htitle (by simp) (.cons hkey hkeys), hfree, hrest⟩
  · rintro ⟨_, ls₂, rfl, ⟨htitle, hne, hkeys⟩, hfree, rfl⟩
    rename_i title entries l lines
    cases hkeys with
    | nil => exact (hne rfl).elim
    | @cons e l' entries lines hkey hkeys =>
      simp only [List.cons_append, List.mem_cons, forall_eq_or_imp] at hplain ⊢
      obtain ⟨hl, hl', hplain⟩ := hplain
      obtain ⟨hvalue, hrest⟩ := keyLines_join hkeys hfree hplain
      refine ⟨join (l' :: (lines ++ ls₂)), e, join (lines ++ ls₂), ?_, ?_, ?_, hrest.symm⟩
      · rw [skipLines_join_cons hl, reads_titleLine_skipSpace_iff hl.1 (atEnd_following _),
          following_eq_cons_iff]
        exact ⟨htitle, by simp, rfl⟩
      · rw [join_cons, reads_keyLine_iff hl'.1 (atEnd_following _), drop_following]
        exact ⟨hkey, rfl⟩
      · rw [hvalue]

theorem not_reads_readSection_nil {s : Section} : ¬Reads (readSection []) s r := by
  intro h
  have hplain : ∀ l ∈ ([] : List (List Char)), Plain l := by simp
  obtain ⟨ls₁, ls₂, hls, hlines, -⟩ := (reads_readSection_iff hplain).mp h
  obtain ⟨rfl, -⟩ := List.nil_eq_append_iff.mp hls
  cases hlines

-- ---------------------------------------------------------------------------
-- One way to split the lines
-- ---------------------------------------------------------------------------

theorem TitleLine.not_mem {v : String} (h : TitleLine v l) : ':' ∉ l := by
  obtain ⟨hbefore, hn, hafter⟩ := h
  rename_i before n after
  have hspace {space : List Char} (h : IsSpace space) : ':' ∉ space := fun hc => by
    obtain hc | hc := h _ hc <;> exact absurd hc (by decide)
  have hname : ':' ∉ n := by
    cases n with
    | nil => exact hn.elim
    | cons c n =>
      rintro (_ | ⟨_, hc⟩)
      · exact absurd hn.1 (by decide)
      · exact absurd (hn.2 _ hc) (by decide)
  simp [hspace hbefore, hname, hspace hafter]

theorem KeyLine.mem {e : Entry} (h : KeyLine e l) : ':' ∈ l := by
  obtain ⟨hbefore, hn, hbetween, hvalues⟩ := h
  simp

theorem Written.keyFree {ss : List Section} (h : Written ss ls) : KeyFree ls := by
  cases h with
  | nil => simp [KeyFree]
  | cons hlines _ =>
    obtain ⟨htitle, -, -⟩ := hlines
    rintro _ ⟨⟩ e he
    exact htitle.not_mem he.mem

-- ---------------------------------------------------------------------------
-- Whole texts
-- ---------------------------------------------------------------------------

section
variable {cs : List Char}

theorem moreSections_of_reads {s : Section} (h : Reads (readSection cs) s r) :
    (moreSections cs).value = s :: (moreSections r).value ∧
      (moreSections cs).rest = (moreSections r).rest := by
  obtain ⟨part, hpart, rfl, rfl⟩ := h
  rw [moreSections, hpart]
  exact ⟨rfl, rfl⟩

theorem moreSections_of_not_reads (h : ∀ s r, ¬Reads (readSection cs) s r) :
    (moreSections cs).value = [] ∧ (moreSections cs).rest = cs := by
  cases hpart : readSection cs with
  | error failure =>
    rw [moreSections, hpart]
    exact ⟨rfl, rfl⟩
  | ok part => exact (h _ _ ⟨part, hpart, rfl, rfl⟩).elim

theorem readSections_eq_ok {ss : List Section} : readSections cs = .ok (ss, r) ↔
    ∃ s r₁, Reads (readSection (skipLines cs)) s r₁ ∧ ss = s :: (moreSections r₁).value ∧
      r = (moreSections r₁).rest := by
  constructor
  · intro h
    obtain ⟨first, hfirst, h⟩ := bind_eq_ok.mp h
    cases h
    exact ⟨_, _, ⟨first, hfirst, rfl, rfl⟩, rfl, rfl⟩
  · rintro ⟨_, _, ⟨first, hfirst, rfl, rfl⟩, rfl, rfl⟩
    simp only [readSections, hfirst, ok_bind]
    rfl

end

theorem written_moreSections (hplain : ∀ l ∈ ls, Plain l) :
    ∃ ls₁ ls₂, ls = ls₁ ++ ls₂ ∧ Written (moreSections (skipLines (join ls))).value ls₁ ∧
      (moreSections (skipLines (join ls))).rest = skipLines (join ls₂) := by
  -- The induction is on the number of lines, of which a section takes at least one.
  induction hn : ls.length using Nat.strong_induction_on generalizing ls with
  | _ n ih =>
    by_cases hreads : ∃ s r, Reads (readSection (skipLines (join ls))) s r
    · obtain ⟨s, r, hreads⟩ := hreads
      obtain ⟨hvalue, hrest⟩ := moreSections_of_reads hreads
      obtain ⟨ls₁, ls₂, rfl, hlines, -, rfl⟩ := (reads_readSection_iff hplain).mp hreads
      have hlt : ls₂.length < n := by
        cases hlines
        simp at hn
        omega
      obtain ⟨ls₃, ls₄, rfl, hwritten, hleft⟩ :=
        ih _ hlt (fun l hl => hplain l (List.mem_append_right _ hl)) rfl
      rw [hvalue, hrest]
      exact ⟨ls₁ ++ ls₃, ls₄, by simp, .cons hlines hwritten, hleft⟩
    · obtain ⟨hvalue, hrest⟩ := moreSections_of_not_reads fun s r h => hreads ⟨s, r, h⟩
      rw [hvalue, hrest]
      exact ⟨[], ls, rfl, .nil, rfl⟩

theorem moreSections_of_written {ss : List Section} (h : Written ss ls)
    (hplain : ∀ l ∈ ls, Plain l) :
    (moreSections (skipLines (join ls))).value = ss ∧
      (moreSections (skipLines (join ls))).rest = [] := by
  induction h with
  | nil => exact moreSections_of_not_reads fun _ _ => not_reads_readSection_nil
  | cons hlines hwritten ih =>
    have hreads := (reads_readSection_iff hplain).mpr ⟨_, _, rfl, hlines, hwritten.keyFree, rfl⟩
    obtain ⟨hvalue, hrest⟩ := moreSections_of_reads hreads
    obtain ⟨hss, hleft⟩ := ih fun l hl => hplain l (List.mem_append_right _ hl)
    exact ⟨by rw [hvalue, hss], by rw [hrest, hleft]⟩

theorem trimList_skipLines_join (hplain : ∀ l ∈ ls, Plain l)
    (h : Text.trimList (skipLines (join ls)) = []) : ls = [] := by
  cases ls with
  | nil => rfl
  | cons l ls =>
    have hl := hplain l (.head _)
    rw [skipLines_join_cons hl, Text.trimList_eq_nil_iff] at h
    refine (hl.2 ?_).elim
    rw [← trimList_skipSpace, Text.trimList_eq_nil_iff]
    exact fun c hc => h c (List.mem_append_left _ hc)

/-- A text is read to its end as the sections that its lines are made of. -/
theorem readSections_join_iff {ss : List Section} (hplain : ∀ l ∈ ls, Plain l) :
    (∃ r, readSections (join ls) = .ok (ss, r) ∧ Text.trimList r = []) ↔
      ss ≠ [] ∧ Written ss ls := by
  constructor
  · rintro ⟨r, hread, htrim⟩
    obtain ⟨s, r₁, hreads, rfl, rfl⟩ := readSections_eq_ok.mp hread
    obtain ⟨ls₁, ls₂, rfl, hlines, -, rfl⟩ := (reads_readSection_iff hplain).mp hreads
    obtain ⟨ls₃, ls₄, rfl, hwritten, hleft⟩ :=
      written_moreSections fun l hl => hplain l (List.mem_append_right _ hl)
    rw [hleft] at htrim
    obtain rfl := trimList_skipLines_join (fun l hl => hplain l (by simp [hl])) htrim
    simp only [List.append_nil] at hwritten ⊢
    exact ⟨by simp, .cons hlines hwritten⟩
  · rintro ⟨hne, hwritten⟩
    cases hwritten with
    | nil => exact (hne rfl).elim
    | cons hlines hwritten =>
      have hreads := (reads_readSection_iff hplain).mpr ⟨_, _, rfl, hlines, hwritten.keyFree, rfl⟩
      obtain ⟨hvalue, hrest⟩ := moreSections_of_written hwritten fun l hl =>
        hplain l (List.mem_append_right _ hl)
      refine ⟨[], readSections_eq_ok.mpr ⟨_, _, hreads, ?_, hrest.symm⟩, rfl⟩
      rw [hvalue]

end SlopeField.Document
