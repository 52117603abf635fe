import SlopeField.Proofs.Document.Template
import SlopeField.Task

/-!
# The text fields of a task

A document types its values, so the text of a field goes through the type that
it looks like and is written again from there. A task document with an equation
and a file is accepted, and hands the name of the file on unchanged exactly if
it is not another spelling of a number (`csv_unchanged_iff`).
-/

namespace SlopeField

-- ---------------------------------------------------------------------------
-- Values
-- ---------------------------------------------------------------------------

namespace Value

inductive Respelled (s : String) : Prop
  | integer {n : Int} : readInteger? s = some n → toString n ≠ s → Respelled s
  | float {v : Float} : readInteger? s = none → Binary64.read? s = some v →
      Binary64.text v ≠ s → Respelled s

variable {s : String}

theorem respelled_iff_of_integer {n : Int} (hn : readInteger? s = some n) :
    Respelled s ↔ toString n ≠ s := by
  constructor
  · rintro (⟨hn', hne⟩ | ⟨hn', -, -⟩)
    · cases hn.symm.trans hn'
      exact hne
    · cases hn.symm.trans hn'
  · exact .integer hn

theorem respelled_iff_of_float {v : Float} (hn : readInteger? s = none)
    (hv : Binary64.read? s = some v) : Respelled s ↔ Binary64.text v ≠ s := by
  constructor
  · rintro (⟨hn', -⟩ | ⟨-, hv', hne⟩)
    · cases hn.symm.trans hn'
    · cases hv.symm.trans hv'
      exact hne
  · exact .float hn hv

theorem not_respelled (hn : readInteger? s = none) (hv : Binary64.read? s = none) :
    ¬Respelled s := by
  rintro (⟨hn', -⟩ | ⟨-, hv', -⟩)
  · cases hn.symm.trans hn'
  · cases hv.symm.trans hv'

theorem display_ofText_eq_iff (s : String) : (ofText s).display = s ↔ ¬Respelled s := by
  unfold ofText
  split
  · rename_i n hn
    rw [respelled_iff_of_integer hn, not_not]
    rfl
  · rename_i hn
    split
    · rename_i v hv
      rw [respelled_iff_of_float hn hv, not_not]
      rfl
    · rename_i hv
      refine iff_of_true ?_ (not_respelled hn hv)
      split
      · simp [display, *]
      · split <;> simp [display, *]

end Value

-- ---------------------------------------------------------------------------
-- Key lines with one value
-- ---------------------------------------------------------------------------

namespace Document

structure IsField (s : String) : Prop where
  ne_empty : s ≠ ""
  first : ∀ c ∈ s.toList.head?, Text.isBlank c = false
  last : ∀ c ∈ s.toList.getLast?, Text.isBlank c = false
  unsplit : ∀ c ∈ s.toList, c ∉ [',', ';', '\r', '\n']

theorem isField_iff (s : String) : IsField s ↔
    s ≠ "" ∧ s.toList.head?.any Text.isBlank = false ∧ s.toList.getLast?.any Text.isBlank = false ∧
      s.toList.all (fun c => c ∉ [',', ';', '\r', '\n']) = true := by
  have hany (o : Option Char) :
      (∀ c ∈ o, Text.isBlank c = false) ↔ o.any Text.isBlank = false := by
    cases o <;> simp
  rw [← hany, ← hany, List.all_eq_true]
  exact ⟨fun h => ⟨h.ne_empty, h.first, h.last, fun c hc => decide_eq_true (h.unsplit c hc)⟩,
    fun ⟨hne, hfirst, hlast, hsplit⟩ =>
      ⟨hne, hfirst, hlast, fun c hc => of_decide_eq_true (hsplit c hc)⟩⟩

instance (s : String) : Decidable (IsField s) := decidable_of_iff' _ (isField_iff s)

theorem IsSpace.not_isSeparator {l : List Char} (h : IsSpace l) :
    ∀ c ∈ l, isSeparator c = false := by
  intro c hc
  obtain rfl | rfl := h c hc <;> decide

theorem IsField.not_isSeparator {s : String} (h : IsField s) :
    ∀ c ∈ s.toList, isSeparator c = false := by
  intro c hc
  have hc := h.unsplit c hc
  simp_all [isSeparator]

theorem IsField.valueList {s : String} (h : IsField s) {gap after : List Char} (hgap : IsSpace gap)
    (hafter : IsSpace after) : ValueList [Value.ofText s] (gap ++ s.toList ++ after) := by
  have hne : s.toList ≠ [] := fun hnil => h.ne_empty (String.toList_eq_nil_iff.mp hnil)
  have htrim := Text.trimList_padded hgap.isBlank hafter.isBlank hne h.first h.last
  have hpieces : pieces (gap ++ s.toList ++ after) = [gap ++ s.toList ++ after] := by
    refine List.splitOnP_eq_singleton (List.forall_mem_append.mpr ⟨?_, hafter.not_isSeparator⟩)
    exact List.forall_mem_append.mpr ⟨hgap.not_isSeparator, h.not_isSeparator⟩
  have hvalues : (pieces (gap ++ s.toList ++ after)).map valueOf = [Value.ofText s] := by
    rw [hpieces, List.map_singleton, valueOf, htrim, String.ofList_toList]
  rw [← hvalues]
  refine .some fun p hp => ?_
  rw [hpieces, List.mem_singleton] at hp
  rw [hp, htrim]
  exact hne

inductive NamesFile (file : String) : List (List Char) → Prop
  | intro {title line title' before between gap after : List Char} {v : Value} :
    TitleLine "equation" title → KeyLine ⟨"text", [v]⟩ line → TitleLine "output" title' →
    IsSpace before → IsSpace between → IsSpace gap → IsSpace after →
    NamesFile file [title, line, title',
      before ++ "csv".toList ++ between ++ ':' :: (gap ++ file.toList ++ after)]

theorem NamesFile.written {file : String} {ls : List (List Char)} (h : NamesFile file ls)
    (hfile : IsField file) : ∃ v, Written [⟨"equation", [⟨"text", [v]⟩]⟩,
      ⟨"output", [⟨"csv", [Value.ofText file]⟩]⟩] ls := by
  obtain ⟨htitle, hline, htitle', hbefore, hbetween, hgap, hafter⟩ := h
  have hname : IsName "csv".toList := by simp [IsName]; decide
  have hcsv := KeyLine.intro hbefore hname hbetween (hfile.valueList hgap hafter)
  rw [String.ofList_toList] at hcsv
  have hequation := SectionLines.intro htitle (by simp) (.cons hline .nil)
  have houtput := SectionLines.intro htitle' (by simp) (.cons hcsv .nil)
  exact ⟨_, .cons hequation (.cons houtput .nil)⟩

/-- The plain layout: no space but two blanks before a key and one behind the
colon. -/
def plainLines (equation file : String) : List (List Char) :=
  ["equation".toList, "  text: ".toList ++ equation.toList, "output".toList,
    "  csv: ".toList ++ file.toList]

theorem titleLine_of_isName (name : List Char) (h : IsName name) :
    TitleLine (String.ofList name) name := by
  have hnil : IsSpace [] := by simp [IsSpace]
  simpa using TitleLine.intro hnil h hnil

theorem namesFile_plainLines {equation : String} (hequation : IsField equation) (file : String) :
    NamesFile file (plainLines equation file) := by
  have hnil : IsSpace [] := by simp [IsSpace]
  have hspace : IsSpace [' '] := by simp [IsSpace]
  have hindent : IsSpace [' ', ' '] := by simp [IsSpace]
  have htext : IsName "text".toList := by simp [IsName]; decide
  have hline := KeyLine.intro hindent htext hnil (hequation.valueList hspace hnil)
  have htitle := titleLine_of_isName "equation".toList (by simp [IsName]; decide)
  have htitle' := titleLine_of_isName "output".toList (by simp [IsName]; decide)
  have h : NamesFile file _ := .intro htitle hline htitle' hindent hnil hspace hnil
  simpa [plainLines] using h

theorem unbroken_plainLines {equation file : String} (hequation : IsField equation)
    (hfile : IsField file) : ∀ l ∈ plainLines equation file, Unbroken l := by
  have hfield {s : String} (h : IsField s) : Unbroken s.toList := by
    intro c hc
    have hc := h.unsplit c hc
    simp_all
  have hplain (s : String) (h : '\n' ∉ s.toList ∧ '\r' ∉ s.toList) : Unbroken s.toList := by
    intro c hc
    constructor <;> rintro rfl
    · exact h.1 hc
    · exact h.2 hc
  have happend {l l' : List Char} (h : Unbroken l) (h' : Unbroken l') : Unbroken (l ++ l') :=
    List.forall_mem_append.mpr ⟨h, h'⟩
  simp only [plainLines, List.forall_mem_cons]
  refine ⟨hplain _ (by decide), happend (hplain _ (by decide)) (hfield hequation),
    hplain _ (by decide), happend (hplain _ (by decide)) (hfield hfile), by simp⟩

end Document

-- ---------------------------------------------------------------------------
-- Tasks
-- ---------------------------------------------------------------------------

open Document (IsField NamesFile Unbroken join namesFile_plainLines unbroken_plainLines)

namespace Task

theorem ofDocument_of_get? {d : Document} {equation csv : Value}
    (hget : ∀ s : Setting, d.get? s.title s.key =
      if s = .equation then some [equation] else if s = .csv then some [csv] else none) :
    ofDocument d = .ok { equation := equation.display, csv := some csv.display } := by
  have hnone {s : Setting} (he : s ≠ .equation) (hc : s ≠ .csv) : single d s = .ok none := by
    simp [single, hget, he, hc]
  have hequation : text? d .equation = .ok (some equation.display) := by
    simp [text?, single, hget]
  have hcsv : text? d .csv = .ok (some csv.display) := by
    simp [text?, single, hget, show Setting.csv ≠ .equation by decide]
  have hlevel : text? d .loglevel = .ok none := by
    rw [text?, hnone (by decide) (by decide)]
    rfl
  have hsteps : readSteps d = .ok defaultSteps := by
    rw [readSteps, hnone (by decide) (by decide)]
    rfl
  have hfloat {s : Setting} (he : s ≠ .equation) (hc : s ≠ .csv) (default : Float) :
      floatOr d s default = .ok default := by
    rw [floatOr, hnone he hc]
    rfl
  simp only [ofDocument, hequation, hsteps, hlevel, hcsv, ok_bind,
    hfloat (s := .x0) (by decide) (by decide), hfloat (s := .y0) (by decide) (by decide),
    hfloat (s := .span) (by decide) (by decide)]
  rfl

theorem parse_of_namesFile {file : String} {lines : List (List Char)} (hfile : IsField file)
    (hlines : NamesFile file lines) (hunbroken : ∀ l ∈ lines, Unbroken l) :
    ∃ v : Value, parse (String.ofList (join lines)) =
      .ok { equation := v.display, csv := some (Value.ofText file).display } := by
  obtain ⟨v, hwritten⟩ := hlines.written hfile
  obtain ⟨d, hparse, hget⟩ := Document.parse_join (by simp) hwritten hunbroken template
  refine ⟨v, ?_⟩
  rw [parse, hparse]
  refine ofDocument_of_get? fun ⟨title, key⟩ => ?_
  rw [hget, Setting.equation, Setting.csv]
  by_cases hequation : title = "equation"
  · by_cases hkey : key = "text" <;>
      simp [Document.entriesUnder, Document.lastEntry, hequation, hkey, @eq_comm _ "text"]
  · by_cases houtput : title = "output"
    · by_cases hkey : key = "csv" <;>
        simp [Document.entriesUnder, Document.lastEntry, houtput, hkey, @eq_comm _ "csv"]
    · simp [Document.entriesUnder, Document.lastEntry, hequation, houtput, @eq_comm _ _ title]

end Task

/-- A task document with an equation and a file is accepted. Its task has the name
of the file as it is written, unless that is another spelling of a number. -/
theorem csv_unchanged_iff {file : String} {lines : List (List Char)} (hfile : IsField file)
    (hlines : NamesFile file lines) (hunbroken : ∀ l ∈ lines, Unbroken l) :
    ∃ task, Task.parse (String.ofList (join lines)) = .ok task ∧
      (task.csv = some file ↔ ¬Value.Respelled file) := by
  obtain ⟨v, hparse⟩ := Task.parse_of_namesFile hfile hlines hunbroken
  refine ⟨_, hparse, ?_⟩
  rw [← Value.display_ofText_eq_iff]
  exact Option.some_inj

/-- A name that starts with a number. -/
theorem csv_unchanged_measure :
    ∃ task, Task.parse "equation\n  text: dy/dx = y\noutput\n  csv: 1.50 m.csv" = .ok task ∧
      task.csv = some "1.50 m.csv" := by
  have hequation : IsField "dy/dx = y" := by decide +kernel
  have hfile : IsField "1.50 m.csv" := by decide +kernel
  obtain ⟨task, hparse, hcsv⟩ := csv_unchanged_iff hfile (namesFile_plainLines hequation _)
    (unbroken_plainLines hequation hfile)
  refine ⟨task, hparse, hcsv.mpr (Value.not_respelled ?_ ?_)⟩
  · decide +kernel
  · decide +kernel

/-- The file `1.50` gets the name `1.5`. -/
theorem csv_respelled :
    IsField "1.50" ∧
    ∃ task, Task.parse "equation\n  text: dy/dx = y\noutput\n  csv: 1.50" = .ok task ∧
      task.csv = some "1.5" ∧ task.csv ≠ some "1.50" := by
  have hcsv : (Task.parse "equation\n  text: dy/dx = y\noutput\n  csv: 1.50").toOption.any
      (fun task => task.csv = some "1.5") = true := by decide +kernel
  obtain ⟨task, hparse, hcsv⟩ := (Option.any_eq_true _ _).mp hcsv
  have hcsv := of_decide_eq_true hcsv
  refine ⟨by decide +kernel, task, toOption_eq_some.mp hparse, hcsv, ?_⟩
  rw [hcsv]
  decide

end SlopeField
