import Mathlib.Data.List.Forall2
import SlopeField.Document.Basic

/-!
# The grammar of documents

A document line by line, without a reader: which lines count, what a title line
and a key line look like, and which values stand behind a colon. Sections follow
one another (`Written`), and the last line with a key is the one that counts
(`Holds`).
-/

namespace SlopeField.Document

-- ---------------------------------------------------------------------------
-- Lines
-- ---------------------------------------------------------------------------

def Significant (line : List Char) : Prop :=
  Text.trimList line ≠ [] ∧
    ∀ mark ∈ [['/', '/'], ['#'], ['%']], ¬mark <+: Text.trimList line

instance : DecidablePred Significant := fun _ => inferInstanceAs (Decidable (_ ∧ _))

def significantLines (text : String) : List (List Char) :=
  (text.toList.splitOn '\n').filter (Significant ·)

def IsSpace (cs : List Char) : Prop := ∀ c ∈ cs, c = ' ' ∨ c = '\t'

def IsName : List Char → Prop
  | [] => False
  | c :: cs => isNameStart c = true ∧ ∀ d ∈ cs, isNameChar d = true

inductive TitleLine : String → List Char → Prop
  | intro {before name after : List Char} : IsSpace before → IsName name → IsSpace after →
    TitleLine (String.ofList name) (before ++ name ++ after)

def isSeparator (c : Char) : Bool := c == ',' || c == ';'

def pieces (cs : List Char) : List (List Char) := cs.splitOnP isSeparator

def valueOf (piece : List Char) : Value := Value.ofText (String.ofList (Text.trimList piece))

/-- Nothing but space, or pieces none of which is blank. -/
inductive ValueList : List Value → List Char → Prop
  | none {cs : List Char} : IsSpace cs → ValueList [] cs
  | some {cs : List Char} : (∀ p ∈ pieces cs, Text.trimList p ≠ []) →
    ValueList ((pieces cs).map valueOf) cs

inductive KeyLine : Entry → List Char → Prop
  | intro {before key between rest : List Char} {values : List Value} : IsSpace before →
    IsName key → IsSpace between → ValueList values rest →
    KeyLine ⟨String.ofList key, values⟩ (before ++ key ++ between ++ ':' :: rest)

-- ---------------------------------------------------------------------------
-- Sections
-- ---------------------------------------------------------------------------

/-- A title line and one or more key lines. -/
inductive SectionLines : Section → List (List Char) → Prop
  | intro {title : String} {entries : List Entry} {line : List Char} {lines : List (List Char)} :
    TitleLine title line → entries ≠ [] → List.Forall₂ KeyLine entries lines →
    SectionLines ⟨title, entries⟩ (line :: lines)

inductive Written : List Section → List (List Char) → Prop
  | nil : Written [] []
  | cons {s : Section} {ss : List Section} {lines lines' : List (List Char)} :
    SectionLines s lines → Written ss lines' → Written (s :: ss) (lines ++ lines')

-- ---------------------------------------------------------------------------
-- Contents
-- ---------------------------------------------------------------------------

/-- What stands under a title and key; `none` if there is no such key. -/
def field? (d : Document) (title key : String) : Option (Option (List Value)) := do
  let fields ← d.sections.lookup title
  fields.lookup key

def lastEntry (entries : List Entry) (key : String) : Option Entry :=
  (entries.filter (·.key = key)).getLast?

def entriesUnder (ss : List Section) (title : String) : List Entry :=
  (ss.filter (·.title = title)).flatMap Section.entries

/-- The document has the titles and keys of these sections, each once, and under each key the
values of the last line with it. -/
structure Holds (d : Document) (ss : List Section) : Prop where
  titles_nodup : (d.sections.map Prod.fst).Nodup
  keys_nodup : ∀ part ∈ d.sections, (part.2.map Prod.fst).Nodup
  titles (title : String) : title ∈ d.sections.map Prod.fst ↔ title ∈ ss.map Section.title
  fields (title key : String) : d.field? title key =
    (lastEntry (entriesUnder ss title) key).map fun e => some e.values

end SlopeField.Document
