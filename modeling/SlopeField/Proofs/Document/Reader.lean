import Mathlib.Data.List.TakeWhile
import SlopeField.Proofs.Success
import SlopeField.Proofs.Document.Grammar

/-!
# Reading a line

What the readers do on a line and what comes after it. Each is first restated
without the bound that it carries (`Reads`), and the reader of title lines then
succeeds exactly on the title lines of the grammar (`reads_titleLine_iff`).
-/

namespace SlopeField.Document

variable {l t r : List Char}

def Unbroken (l : List Char) : Prop := ∀ c ∈ l, c ≠ '\n' ∧ c ≠ '\r'

/-- The text is at an end, or goes on with a new line. -/
def AtEnd (t : List Char) : Prop := ∀ c ∈ t.head?, c = '\n'

def Reads {β : Type} {n : Nat} (x : Except Failure (Taken β n)) (v : β) (r : List Char) : Prop :=
  ∃ taken, x = .ok taken ∧ taken.value = v ∧ taken.rest = r

theorem Unbroken.of_append_right {l' : List Char} (h : Unbroken (l ++ l')) : Unbroken l' :=
  fun c hc => h c (List.mem_append_right l hc)

-- ---------------------------------------------------------------------------
-- Runs of characters
-- ---------------------------------------------------------------------------

section
variable {p q : Char → Bool}

theorem stops_of_head (h : ∀ c ∈ l.head?, p c = false) :
    l.takeWhile p = [] ∧ l.dropWhile p = l := by
  cases l with
  | nil => exact ⟨rfl, rfl⟩
  | cons c l => simp [h c rfl]

theorem takeWhile_eq_of_head {n : List Char} (hn : ∀ c ∈ n, p c = true)
    (hl : ∀ c ∈ l.head?, p c = false) : (n ++ l).takeWhile p = n ∧ (n ++ l).dropWhile p = l := by
  obtain ⟨htake, hdrop⟩ := stops_of_head hl
  rw [List.takeWhile_append_of_pos hn, List.dropWhile_append_of_pos hn, htake, hdrop]
  exact ⟨List.append_nil n, rfl⟩

theorem AtEnd.stops (ht : AtEnd t) (hp : p '\n' = false) :
    t.takeWhile p = [] ∧ t.dropWhile p = t :=
  stops_of_head fun c hc => ht c hc ▸ hp

theorem takeWhile_atEnd (hp : p '\n' = false) (ht : AtEnd t) (l : List Char) :
    (l ++ t).takeWhile p = l.takeWhile p := by
  rw [List.takeWhile_append, (ht.stops hp).1, List.append_nil]
  split
  · rename_i hlength
    exact ((List.takeWhile_prefix p).eq_of_length hlength).symm
  · rfl

theorem dropWhile_atEnd (hp : p '\n' = false) (ht : AtEnd t) (l : List Char) :
    (l ++ t).dropWhile p = l.dropWhile p ++ t := by
  rw [List.dropWhile_append, (ht.stops hp).2]
  split
  · rename_i hempty
    rw [List.isEmpty_iff.mp hempty, List.nil_append]
  · rfl

theorem head_dropWhile (p : Char → Bool) (l : List Char) :
    ∀ c ∈ (l.dropWhile p).head?, p c = false := by
  intro c hc
  have hhead := List.head?_dropWhile_not p l
  rwa [Option.mem_def.mp hc] at hhead

theorem dropWhile_dropWhile (h : ∀ c, q c = true → p c = true) (l : List Char) :
    (l.dropWhile q).dropWhile p = l.dropWhile p := by
  induction l with
  | nil => rfl
  | cons c l ih =>
    by_cases hq : q c = true
    · simp [hq, h c hq, ih]
    · simp [hq]

theorem takeWhile_dropWhile (h : ∀ c, q c = true → p c = true) (l : List Char) :
    (l.dropWhile q).takeWhile p = (l.takeWhile p).dropWhile q := by
  induction l with
  | nil => rfl
  | cons c l ih =>
    by_cases hq : q c = true
    · simp [hq, h c hq, ih]
    · by_cases hp : p c = true <;> simp [hq, hp]

end

-- ---------------------------------------------------------------------------
-- Space
-- ---------------------------------------------------------------------------

theorem skipSpace_atEnd (ht : AtEnd t) (l : List Char) : skipSpace (l ++ t) = skipSpace l ++ t :=
  dropWhile_atEnd (by decide) ht l

theorem skipSpace_eq_nil_iff : skipSpace l = [] ↔ IsSpace l := by
  simp [skipSpace, IsSpace]

theorem skipSpace_append {space : List Char} (h : IsSpace space) (l : List Char) :
    skipSpace (space ++ l) = skipSpace l :=
  List.dropWhile_append_of_pos fun c hc => by simpa using h c hc

theorem skipSpace_of_head (h : ∀ c ∈ l.head?, c ≠ ' ' ∧ c ≠ '\t') : skipSpace l = l :=
  (stops_of_head fun c hc => by simpa using h c hc).2

theorem exists_space (l : List Char) : ∃ space, IsSpace space ∧ l = space ++ skipSpace l := by
  refine ⟨l.takeWhile fun c => c == ' ' || c == '\t', fun c hc => ?_,
    List.takeWhile_append_dropWhile.symm⟩
  simpa using List.mem_takeWhile_imp hc

theorem head_skipSpace (l : List Char) : ∀ c ∈ (skipSpace l).head?, c ≠ ' ' ∧ c ≠ '\t' := by
  intro c hc
  simpa using head_dropWhile _ l c hc

theorem skipSpace_skipSpace (l : List Char) : skipSpace (skipSpace l) = skipSpace l :=
  skipSpace_of_head (head_skipSpace l)

-- ---------------------------------------------------------------------------
-- Names
-- ---------------------------------------------------------------------------

theorem reads_name_cons_iff {c : Char} {cs : List Char} {v : String} :
    Reads (name (c :: cs)) v r ↔ isNameStart c = true ∧
      v = String.ofList (c :: cs.takeWhile isNameChar) ∧ r = cs.dropWhile isNameChar := by
  simp only [name]
  constructor
  · rintro ⟨taken, h, rfl, rfl⟩
    split at h
    · cases h
      exact ⟨‹_›, rfl, rfl⟩
    · cases h
  · rintro ⟨hstart, rfl, rfl⟩
    exact ⟨_, by rw [if_pos hstart], rfl, rfl⟩

theorem reads_name_iff (ht : AtEnd t) {v : String} : Reads (name (l ++ t)) v r ↔
    ∃ n l', l = n ++ l' ∧ IsName n ∧ v = String.ofList n ∧
      (∀ c ∈ l'.head?, isNameChar c = false) ∧ r = l' ++ t := by
  cases l with
  | nil =>
    constructor
    · rintro ⟨taken, h, -, -⟩
      cases t with
      | nil => cases h
      | cons c t =>
        obtain rfl : c = '\n' := ht c rfl
        cases h
    · rintro ⟨n, l', hl, hn, -⟩
      obtain ⟨rfl, -⟩ := List.nil_eq_append_iff.mp hl
      exact hn.elim
  | cons c l =>
    rw [List.cons_append, reads_name_cons_iff, takeWhile_atEnd (by decide) ht,
      dropWhile_atEnd (by decide) ht]
    constructor
    · rintro ⟨hstart, rfl, rfl⟩
      refine ⟨c :: l.takeWhile isNameChar, l.dropWhile isNameChar, ?_, ⟨hstart, ?_⟩, rfl,
        head_dropWhile _ l, rfl⟩
      · rw [List.cons_append, List.takeWhile_append_dropWhile]
      · exact fun d hd => List.mem_takeWhile_imp hd
    · rintro ⟨n, l', hl, hn, rfl, hhead, rfl⟩
      cases n with
      | nil => exact hn.elim
      | cons d n =>
        rw [List.cons_append, List.cons.injEq] at hl
        obtain ⟨rfl, rfl⟩ := hl
        obtain ⟨htake, hdrop⟩ := takeWhile_eq_of_head hn.2 hhead
        exact ⟨hn.1, by rw [htake], by rw [hdrop]⟩

-- ---------------------------------------------------------------------------
-- The readers, step by step
-- ---------------------------------------------------------------------------

section
variable {cs : List Char}

def Breaks (cs r : List Char) : Prop := cs = '\n' :: r ∨ cs = '\r' :: '\n' :: r

theorem lineEnd?_eq_some {taken : Taken Unit cs.length} (h : lineEnd? cs = some taken) :
    Breaks cs taken.rest := by
  unfold lineEnd? at h
  split at h
  · cases h
    exact .inl rfl
  · cases h
    exact .inr rfl
  · cases h

theorem exists_lineEnd? (h : Breaks cs r) : ∃ taken, lineEnd? cs = some taken ∧ taken.rest = r := by
  obtain rfl | rfl := h <;> exact ⟨_, rfl, rfl⟩

theorem lineEnd?_eq_none (h : cs = []) : lineEnd? cs = none := by
  subst h
  rfl

theorem reads_titleLine {v : String} : Reads (titleLine cs) v r ↔
    ∃ r₁, Reads (name (skipSpace cs)) v r₁ ∧ Breaks (skipSpace r₁) r := by
  constructor
  · rintro ⟨taken, h, rfl, rfl⟩
    obtain ⟨title, htitle, h⟩ := bind_eq_ok.mp h
    split at h
    · cases h
    · rename_i line hline
      cases h
      exact ⟨title.rest, ⟨title, htitle, rfl, rfl⟩, lineEnd?_eq_some hline⟩
  · rintro ⟨_, ⟨title, htitle, rfl, rfl⟩, hbreaks⟩
    obtain ⟨line, hline, rfl⟩ := exists_lineEnd? hbreaks
    simp only [Reads, titleLine, htitle, ok_bind, hline]
    exact ⟨_, rfl, rfl, rfl⟩

theorem reads_colon : Reads (colon cs) () r ↔
    ∃ r₁, skipSpace cs = ':' :: r₁ ∧ r = skipSpace r₁ := by
  unfold colon
  constructor
  · rintro ⟨taken, h, -, rfl⟩
    split at h
    · rename_i rest hrest
      cases h
      exact ⟨rest, hrest, rfl⟩
    · cases h
  · rintro ⟨rest, hrest, rfl⟩
    split
    · rename_i rest' hrest'
      obtain rfl : rest' = rest := by simpa [hrest'] using hrest
      exact ⟨_, rfl, rfl, rfl⟩
    · rename_i hne
      exact (hne rest hrest).elim

theorem reads_keyLineEnd : Reads (keyLineEnd cs) () r ↔
    Breaks (skipSpace cs) r ∨ skipSpace cs = [] ∧ r = [] := by
  unfold keyLineEnd
  constructor
  · rintro ⟨taken, h, -, rfl⟩
    split at h
    · rename_i line hline
      cases h
      exact .inl (lineEnd?_eq_some hline)
    · split at h
      · rename_i hempty
        cases h
        exact .inr ⟨List.isEmpty_iff.mp hempty, rfl⟩
      · cases h
  · rintro (hbreaks | ⟨hempty, rfl⟩)
    · obtain ⟨line, hline, rfl⟩ := exists_lineEnd? hbreaks
      simp only [Reads, hline]
      exact ⟨_, rfl, trivial, rfl⟩
    · simp only [Reads, lineEnd?_eq_none hempty, hempty, List.isEmpty_nil, if_true]
      exact ⟨_, rfl, trivial, rfl⟩

theorem reads_keyLine {e : Entry} : Reads (keyLine cs) e r ↔
    ∃ r₁ r₂, Reads (name (skipSpace cs)) e.key r₁ ∧ Reads (colon r₁) () r₂ ∧
      (values r₂).value = e.values ∧ Reads (keyLineEnd (values r₂).rest) () r := by
  constructor
  · rintro ⟨taken, h, rfl, rfl⟩
    obtain ⟨key, hkey, h⟩ := bind_eq_ok.mp h
    obtain ⟨sep, hsep, h⟩ := bind_eq_ok.mp h
    obtain ⟨line, hline, h⟩ := bind_eq_ok.mp h
    cases h
    exact ⟨_, _, ⟨key, hkey, rfl, rfl⟩, ⟨sep, hsep, rfl, rfl⟩, rfl, ⟨line, hline, rfl, rfl⟩⟩
  · obtain ⟨key, vs⟩ := e
    rintro ⟨_, _, ⟨key, hkey, rfl, rfl⟩, ⟨sep, hsep, -, rfl⟩, rfl, ⟨line, hline, -, rfl⟩⟩
    simp only [Reads, keyLine, hkey, hsep, hline, ok_bind]
    exact ⟨_, rfl, rfl, rfl⟩

end

-- ---------------------------------------------------------------------------
-- Title lines
-- ---------------------------------------------------------------------------

theorem breaks_iff (hl : Unbroken l) (ht : AtEnd t) :
    Breaks (l ++ t) r ↔ l = [] ∧ t = '\n' :: r := by
  cases l with
  | nil =>
    cases t with
    | nil => simp [Breaks]
    | cons c t =>
      obtain rfl : c = '\n' := ht c rfl
      simp [Breaks]
  | cons c l => simp [Breaks, hl c (.head _)]

theorem Unbroken.skipSpace (h : Unbroken l) : Unbroken (skipSpace l) := by
  obtain ⟨space, -, hl⟩ := exists_space l
  rw [hl] at h
  exact h.of_append_right

theorem IsName.skipSpace_append {n : List Char} (h : IsName n) (l : List Char) :
    skipSpace (n ++ l) = n ++ l := by
  cases n with
  | nil => exact h.elim
  | cons c n =>
    refine skipSpace_of_head ?_
    rintro _ ⟨⟩
    constructor <;> rintro rfl <;> exact absurd h.1 (by decide)

theorem IsSpace.head_not_isNameChar (h : IsSpace l) : ∀ c ∈ l.head?, isNameChar c = false := by
  intro c hc
  obtain rfl | rfl := h c (List.mem_of_mem_head? hc) <;> decide

theorem reads_titleLine_iff (hl : Unbroken l) (ht : AtEnd t) {v : String} :
    Reads (titleLine (l ++ t)) v r ↔ TitleLine v l ∧ t = '\n' :: r := by
  rw [reads_titleLine, skipSpace_atEnd ht]
  constructor
  · rintro ⟨r₁, hname, hbreaks⟩
    obtain ⟨n, l', hskip, hn, rfl, -, rfl⟩ := (reads_name_iff ht).mp hname
    have hl' : Unbroken l' := (hskip ▸ hl.skipSpace).of_append_right
    rw [skipSpace_atEnd ht, breaks_iff hl'.skipSpace ht, skipSpace_eq_nil_iff] at hbreaks
    obtain ⟨space, hspace, heq⟩ := exists_space l
    rw [heq, hskip, ← List.append_assoc]
    exact ⟨.intro hspace hn hbreaks.1, hbreaks.2⟩
  · rintro ⟨⟨hbefore, hn, hafter⟩, rfl⟩
    rename_i before n after
    refine ⟨after ++ '\n' :: r, (reads_name_iff ht).mpr
      ⟨n, after, ?_, hn, rfl, hafter.head_not_isNameChar, rfl⟩, ?_⟩
    · rw [List.append_assoc, skipSpace_append hbefore, hn.skipSpace_append]
    · rw [skipSpace_append hafter]
      exact .inl rfl

end SlopeField.Document
