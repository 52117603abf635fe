import SlopeField.Proofs.Document.Reader

/-!
# Reading a key line

The reader of key lines succeeds exactly on the key lines of the grammar
(`reads_keyLine_iff`). Its list of values stops at the first blank piece, and
then at a separator, where no line ends.
-/

namespace SlopeField.Document

variable {l t r : List Char}

-- ---------------------------------------------------------------------------
-- Lists of values
-- ---------------------------------------------------------------------------

section
variable {cs : List Char} {c : Char}

theorem value?_of_blank (h : Text.trimList (cs.takeWhile isValueChar) = []) : value? cs = none :=
  dif_pos h

theorem value?_of_ne (h : Text.trimList (cs.takeWhile isValueChar) ≠ []) :
    ∃ v, value? cs = some v ∧ v.value = valueOf (cs.takeWhile isValueChar) ∧
      v.rest = cs.dropWhile isValueChar :=
  ⟨_, dif_neg h, rfl, rfl⟩

theorem separator?_of_isSeparator (h : skipSpace cs = c :: r) (hc : isSeparator c = true) :
    ∃ s, separator? cs = some s ∧ s.rest = skipSpace r := by
  unfold separator?
  split
  · simp_all
  · rename_i c' r' h'
    obtain ⟨rfl, rfl⟩ : c' = c ∧ r' = r := by simpa [h'] using h
    exact ⟨_, if_pos hc, rfl⟩

theorem separator?_of_not_isSeparator (h : ∀ c ∈ (skipSpace cs).head?, isSeparator c = false) :
    separator? cs = none := by
  unfold separator?
  split
  · rfl
  · rename_i c r hcs
    rw [hcs] at h
    exact if_neg (Bool.eq_false_iff.mp (h c rfl))

theorem moreValues_of_not_isSeparator (h : ∀ c ∈ (skipSpace cs).head?, isSeparator c = false) :
    (moreValues cs).value = [] ∧ (moreValues cs).rest = cs := by
  rw [moreValues, separator?_of_not_isSeparator h]
  exact ⟨rfl, rfl⟩

theorem moreValues_of_blank (h : skipSpace cs = c :: r) (hc : isSeparator c = true)
    (hblank : Text.trimList ((skipSpace r).takeWhile isValueChar) = []) :
    (moreValues cs).value = [] ∧ (moreValues cs).rest = cs := by
  obtain ⟨s, hs, hrest⟩ := separator?_of_isSeparator h hc
  rw [moreValues, hs]
  simp only
  rw [← hrest] at hblank
  rw [value?_of_blank hblank]
  exact ⟨rfl, rfl⟩

theorem moreValues_of_ne (h : skipSpace cs = c :: r) (hc : isSeparator c = true)
    (hne : Text.trimList ((skipSpace r).takeWhile isValueChar) ≠ []) :
    (moreValues cs).value = valueOf ((skipSpace r).takeWhile isValueChar) ::
        (moreValues ((skipSpace r).dropWhile isValueChar)).value ∧
      (moreValues cs).rest = (moreValues ((skipSpace r).dropWhile isValueChar)).rest := by
  obtain ⟨s, hs, hrest⟩ := separator?_of_isSeparator h hc
  rw [← hrest] at hne ⊢
  obtain ⟨v, hv, hvalue, hdrop⟩ := value?_of_ne hne
  rw [← hvalue, ← hdrop, moreValues, hs]
  simp only
  rw [hv]
  exact ⟨rfl, rfl⟩

end

theorem forall_space {p : Char → Bool} (hspace : p ' ' = true) (htab : p '\t' = true) :
    ∀ c : Char, (c == ' ' || c == '\t') = true → p c = true := by
  intro c hc
  obtain rfl | rfl : c = ' ' ∨ c = '\t' := by simpa using hc
  · exact hspace
  · exact htab

theorem trimList_skipSpace (cs : List Char) : Text.trimList (skipSpace cs) = Text.trimList cs := by
  rw [Text.trimList, Text.trimList, skipSpace,
    dropWhile_dropWhile (forall_space (by decide) (by decide))]

theorem piece_skipSpace (cs : List Char) :
    Text.trimList ((skipSpace cs).takeWhile isValueChar) =
        Text.trimList (cs.takeWhile isValueChar) ∧
      valueOf ((skipSpace cs).takeWhile isValueChar) = valueOf (cs.takeWhile isValueChar) ∧
      (skipSpace cs).dropWhile isValueChar = cs.dropWhile isValueChar := by
  have hvalue := forall_space (p := isValueChar) (by decide) (by decide)
  have htrim : Text.trimList ((skipSpace cs).takeWhile isValueChar) =
      Text.trimList (cs.takeWhile isValueChar) := by
    rw [skipSpace, takeWhile_dropWhile hvalue]
    exact trimList_skipSpace _
  exact ⟨htrim, by rw [valueOf, valueOf, htrim], dropWhile_dropWhile hvalue cs⟩

theorem skipSpace_cons_of_isSeparator {c : Char} (hc : isSeparator c = true) (cs : List Char) :
    skipSpace (c :: cs) = c :: cs := by
  refine skipSpace_of_head ?_
  rintro _ ⟨⟩
  constructor <;> rintro rfl <;> exact absurd hc (by decide)

theorem Unbroken.dropWhile (h : Unbroken l) (p : Char → Bool) : Unbroken (l.dropWhile p) :=
  fun c hc => h c ((List.dropWhile_suffix p).subset hc)

/-- The pieces behind a first one: none at the end, else those behind a
separator. -/
def Further (l : List Char) (ps : List (List Char)) : Prop :=
  l = [] ∧ ps = [] ∨ ∃ c l', l = c :: l' ∧ isSeparator c = true ∧ ps = pieces l'

theorem pieces_eq (hl : Unbroken l) :
    ∃ ps, pieces l = l.takeWhile isValueChar :: ps ∧ Further (l.dropWhile isValueChar) ps := by
  induction l with
  | nil => exact ⟨[], rfl, .inl ⟨rfl, rfl⟩⟩
  | cons c l ih =>
    obtain ⟨hc, hl⟩ := List.forall_mem_cons.mp hl
    have hchar : isValueChar c = !isSeparator c := by
      simp [isValueChar, isSeparator, beq_false_of_ne hc.1, beq_false_of_ne hc.2]
    rw [pieces, List.splitOnP_cons_eq_if_modifyHead]
    cases hsep : isSeparator c with
    | true =>
      refine ⟨pieces l, ?_, .inr ⟨c, l, ?_, hsep, rfl⟩⟩
      · simp [hchar, hsep, pieces]
      · simp [hchar, hsep]
    | false =>
      obtain ⟨ps, hps, hfurther⟩ := ih hl
      rw [pieces] at hps
      exact ⟨ps, by simp [hchar, hsep, hps], by simpa [hchar, hsep] using hfurther⟩

theorem moreValues_further (ht : AtEnd t) {ps : List (List Char)} (hl : Unbroken l)
    (hfurther : Further l ps) :
    ((∀ p ∈ ps, Text.trimList p ≠ []) →
      (moreValues (l ++ t)).value = ps.map valueOf ∧ (moreValues (l ++ t)).rest = t) ∧
    (¬(∀ p ∈ ps, Text.trimList p ≠ []) →
      ∃ c r, (moreValues (l ++ t)).rest = c :: r ∧ isSeparator c = true) := by
  induction ps generalizing l with
  | nil =>
    obtain ⟨rfl, -⟩ | ⟨c, l', -, -, hps⟩ := hfurther
    · have hend : skipSpace t = t := skipSpace_atEnd ht []
      have hsep : ∀ c ∈ (skipSpace t).head?, isSeparator c = false := by
        intro c hc
        rw [hend] at hc
        rw [ht c hc]
        decide
      exact ⟨fun _ => moreValues_of_not_isSeparator hsep, fun h => (h (by simp)).elim⟩
    · exact (List.splitOnP_ne_nil _ _ hps.symm).elim
  | cons p ps ih =>
    obtain ⟨-, hps⟩ | ⟨c, l', rfl, hc, hps⟩ := hfurther
    · cases hps
    obtain ⟨-, hl'⟩ := List.forall_mem_cons.mp hl
    obtain ⟨ps', hpieces, hfurther⟩ := pieces_eq hl'
    obtain ⟨rfl, rfl⟩ := List.cons.inj (hps.trans hpieces)
    have hskip : skipSpace (c :: l' ++ t) = c :: (l' ++ t) :=
      skipSpace_cons_of_isSeparator hc (l' ++ t)
    obtain ⟨htrim, hvalue, hdrop⟩ := piece_skipSpace (l' ++ t)
    rw [takeWhile_atEnd (by decide) ht] at htrim hvalue
    rw [dropWhile_atEnd (by decide) ht] at hdrop
    by_cases hblank : Text.trimList (l'.takeWhile isValueChar) = []
    · obtain ⟨-, hrest⟩ := moreValues_of_blank hskip hc (htrim.trans hblank)
      exact ⟨fun h => (h _ (.head _) hblank).elim, fun _ => ⟨c, l' ++ t, hrest, hc⟩⟩
    · obtain ⟨hmore, hrest⟩ := moreValues_of_ne hskip hc (fun h => hblank (htrim.symm.trans h))
      rw [hmore, hrest, hvalue, hdrop]
      obtain ⟨hall, hnot⟩ := ih (Unbroken.dropWhile hl' isValueChar) hfurther
      constructor
      · intro h
        obtain ⟨hvalues, hend⟩ := hall fun p hp => h p (.tail _ hp)
        exact ⟨by rw [hvalues, List.map_cons], hend⟩
      · intro h
        exact hnot fun hps => h (List.forall_mem_cons.mpr ⟨hblank, hps⟩)

theorem values_of_blank {cs : List Char} (h : Text.trimList (cs.takeWhile isValueChar) = []) :
    (values cs).value = [] ∧ (values cs).rest = cs := by
  rw [values, value?_of_blank h]
  exact ⟨rfl, rfl⟩

theorem values_of_ne {cs : List Char} (h : Text.trimList (cs.takeWhile isValueChar) ≠ []) :
    (values cs).value = valueOf (cs.takeWhile isValueChar) ::
        (moreValues (cs.dropWhile isValueChar)).value ∧
      (values cs).rest = (moreValues (cs.dropWhile isValueChar)).rest := by
  obtain ⟨v, hv, hvalue, hdrop⟩ := value?_of_ne h
  rw [← hvalue, ← hdrop, values, hv]
  exact ⟨rfl, rfl⟩

-- ---------------------------------------------------------------------------
-- Key lines
-- ---------------------------------------------------------------------------

theorem reads_keyLineEnd_iff (hl : Unbroken l) (ht : AtEnd t) :
    Reads (keyLineEnd (l ++ t)) () r ↔ IsSpace l ∧ r = t.drop 1 := by
  rw [reads_keyLineEnd, skipSpace_atEnd ht, breaks_iff hl.skipSpace ht, skipSpace_eq_nil_iff,
    List.append_eq_nil_iff, skipSpace_eq_nil_iff]
  cases t with
  | nil => simp
  | cons c t =>
    obtain rfl : c = '\n' := ht c rfl
    simp [eq_comm]

theorem not_reads_keyLineEnd {c : Char} {cs : List Char} (hc : isSeparator c = true) :
    ¬Reads (keyLineEnd (c :: cs)) () r := by
  rw [reads_keyLineEnd, skipSpace_cons_of_isSeparator hc]
  rintro ((h | h) | ⟨h, -⟩) <;> cases h <;> exact absurd hc (by decide)

theorem IsSpace.trimList_eq (h : IsSpace l) : Text.trimList l = [] := by
  rw [← trimList_skipSpace, skipSpace_eq_nil_iff.mpr h]
  rfl

/-- The values behind a colon are read to the end of the line exactly if the
grammar has them there. -/
theorem reads_values_iff (hl : Unbroken l) (ht : AtEnd t) {vs : List Value} :
    (values (skipSpace l ++ t)).value = vs ∧
        Reads (keyLineEnd (values (skipSpace l ++ t)).rest) () r ↔
      ValueList vs l ∧ r = t.drop 1 := by
  obtain ⟨htrim, hvalue, hdrop⟩ := piece_skipSpace l
  obtain ⟨ps, hpieces, hfurther⟩ := pieces_eq hl
  rw [← takeWhile_atEnd (by decide) ht (skipSpace l)] at htrim hvalue
  have hspace : IsSpace l → Text.trimList (l.takeWhile isValueChar) = [] := fun h =>
    IsSpace.trimList_eq fun c hc => h c ((List.takeWhile_prefix _).subset hc)
  by_cases hblank : Text.trimList (l.takeWhile isValueChar) = []
  · obtain ⟨hnone, hrest⟩ := values_of_blank (htrim.trans hblank)
    have hskip : IsSpace (skipSpace l) ↔ IsSpace l := by
      rw [← skipSpace_eq_nil_iff, skipSpace_skipSpace, skipSpace_eq_nil_iff]
    rw [hnone, hrest, reads_keyLineEnd_iff hl.skipSpace ht, hskip]
    constructor
    · rintro ⟨rfl, hspace, rfl⟩
      exact ⟨.none hspace, rfl⟩
    · rintro ⟨⟨hspace⟩ | ⟨hall⟩, rfl⟩
      · exact ⟨rfl, hspace, rfl⟩
      · exact (hall _ (hpieces ▸ .head _) hblank).elim
  · obtain ⟨hsome, hrest⟩ := values_of_ne (fun h => hblank (htrim.symm.trans h))
    obtain ⟨hall, hnot⟩ := moreValues_further ht (hl.dropWhile isValueChar) hfurther
    rw [hsome, hrest, hvalue, dropWhile_atEnd (by decide) ht, hdrop]
    by_cases hps : ∀ p ∈ ps, Text.trimList p ≠ []
    · obtain ⟨hmore, hend⟩ := hall hps
      have hvalues : valueOf (l.takeWhile isValueChar) ::
          (moreValues (l.dropWhile isValueChar ++ t)).value = (pieces l).map valueOf := by
        rw [hpieces, hmore, List.map_cons]
      rw [hvalues, hend, ← List.nil_append t, reads_keyLineEnd_iff (by simp [Unbroken]) ht]
      constructor
      · rintro ⟨rfl, -, rfl⟩
        refine ⟨.some ?_, rfl⟩
        rw [hpieces]
        exact List.forall_mem_cons.mpr ⟨hblank, hps⟩
      · rintro ⟨⟨hspaces⟩ | ⟨-⟩, rfl⟩
        · exact (hblank (hspace hspaces)).elim
        · exact ⟨rfl, by simp [IsSpace], rfl⟩
    · obtain ⟨c, r', hleft, hc⟩ := hnot hps
      rw [hleft]
      constructor
      · rintro ⟨-, h⟩
        exact (not_reads_keyLineEnd hc h).elim
      · rintro ⟨⟨hspaces⟩ | ⟨hall⟩, -⟩
        · exact (hblank (hspace hspaces)).elim
        · rw [hpieces] at hall
          exact (hps fun p hp => hall p (.tail _ hp)).elim

theorem reads_keyLine_iff (hl : Unbroken l) (ht : AtEnd t) {e : Entry} :
    Reads (keyLine (l ++ t)) e r ↔ KeyLine e l ∧ r = t.drop 1 := by
  rw [reads_keyLine, skipSpace_atEnd ht]
  constructor
  · rintro ⟨r₁, r₂, hname, hcolon, hvalues⟩
    obtain ⟨n, l', hskip, hn, hkey, -, rfl⟩ := (reads_name_iff ht).mp hname
    have hl' : Unbroken l' := (hskip ▸ hl.skipSpace).of_append_right
    obtain ⟨r₃, hbehind, rfl⟩ := reads_colon.mp hcolon
    rw [skipSpace_atEnd ht] at hbehind
    obtain ⟨rest, hrest, rfl⟩ : ∃ rest, skipSpace l' = ':' :: rest ∧ r₃ = rest ++ t := by
      cases hskip' : skipSpace l' with
      | nil =>
        rw [hskip', List.nil_append] at hbehind
        exact absurd (ht ':' (by rw [hbehind]; rfl)) (by decide)
      | cons c rest =>
        rw [hskip', List.cons_append, List.cons.injEq] at hbehind
        obtain ⟨rfl, rfl⟩ := hbehind
        exact ⟨rest, rfl, rfl⟩
    have hbroken : Unbroken rest := fun c hc => hl'.skipSpace c (hrest ▸ .tail _ hc)
    rw [skipSpace_atEnd ht, reads_values_iff hbroken ht] at hvalues
    obtain ⟨space, hspace, heq⟩ := exists_space l
    obtain ⟨space', hspace', heq'⟩ := exists_space l'
    refine ⟨?_, hvalues.2⟩
    rw [heq, hskip, heq', hrest, ← List.append_assoc, ← List.append_assoc]
    obtain ⟨key, vs⟩ := e
    obtain rfl : key = String.ofList n := hkey
    exact .intro hspace hn hspace' hvalues.1
  · rintro ⟨⟨hbefore, hn, hbetween, hvalues⟩, rfl⟩
    rename_i before n between rest vs
    have hbroken : Unbroken rest := by
      intro c hc
      exact hl c (by simp [hc])
    refine ⟨between ++ ':' :: rest ++ t, skipSpace rest ++ t, ?_, ?_, ?_⟩
    · refine (reads_name_iff ht).mpr ⟨n, between ++ ':' :: rest, ?_, hn, rfl, ?_, rfl⟩
      · rw [List.append_assoc, List.append_assoc, skipSpace_append hbefore, hn.skipSpace_append]
      · cases between with
        | nil => simp; decide
        | cons c between => simpa using hbetween.head_not_isNameChar
    · refine reads_colon.mpr ⟨rest ++ t, ?_, (skipSpace_atEnd ht rest).symm⟩
      rw [List.append_assoc, skipSpace_append hbetween]
      exact skipSpace_of_head (by rintro _ ⟨⟩; decide)
    · exact (reads_values_iff hbroken ht).mpr ⟨hvalues, rfl⟩

end SlopeField.Document
