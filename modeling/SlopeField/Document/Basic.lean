import SlopeField.Document.Reader

/-!
# Documents

A document holds lists of values under titles and keys. Sections with the same
title are one section, and the last line with a key is the one that counts. A
template adds the titles and keys that a document should have; those that are
not written have no values.
-/

namespace SlopeField

/-- Changes what stands under a key; a new key goes to the end. -/
def alter {β : Type} (key : String) (f : Option β → β) : List (String × β) → List (String × β)
  | [] => [(key, f none)]
  | (k, v) :: rest => if k = key then (k, f (some v)) :: rest else (k, v) :: alter key f rest

abbrev Fields := List (String × Option (List Value))

structure Document where
  sections : List (String × Fields) := []

/-- Titles, each with the keys that belong there. -/
abbrev Template := List (String × List String)

namespace Document

def get? (d : Document) (title key : String) : Option (List Value) := do
  let fields ← d.sections.lookup title
  (← fields.lookup key)

def addEntry (fields : Fields) (e : Entry) : Fields :=
  alter e.key (fun _ => some e.values) fields

def addSection (d : Document) (s : Section) : Document :=
  ⟨alter s.title (fun fields => s.entries.foldl addEntry (fields.getD [])) d.sections⟩

def ofSections (sections : List Section) : Document := sections.foldl addSection {}

def addTemplate (d : Document) (part : String × List String) : Document :=
  ⟨alter part.1
    (fun fields => part.2.foldl (fun fs key => alter key (·.getD none) fs) (fields.getD []))
    d.sections⟩

/-- The lines of a text. A line end is a line feed with or without a carriage
return before it; what follows the last one is a line if there is anything. -/
def linesFrom (reversed : List Char) : List Char → List (List Char)
  | [] => if reversed.isEmpty then [] else [reversed.reverse]
  | '\n' :: cs =>
    let line := match reversed with
      | '\r' :: r => r
      | r => r
    line.reverse :: linesFrom [] cs
  | c :: cs => linesFrom (c :: reversed) cs

def lines (cs : List Char) : List (List Char) := linesFrom [] cs

def isSignificant (line : List Char) : Bool :=
  match Text.trimList line with
  | [] => false
  | '/' :: '/' :: _ => false
  | c :: _ => c != '#' && c != '%'

def significantText (text : String) : List Char :=
  ['\n'].intercalate ((lines text.toList).filter isSignificant)

end Document

inductive DocumentError where
  | malformed (failure : Document.Failure)
  | unread (rest : List Char)
  deriving BEq, DecidableEq, Repr

def DocumentError.message : DocumentError → String
  | malformed failure => "Parsing error: " ++ failure.message
  | unread rest =>
    "Failed to parse entire document. Remaining: '" ++ String.ofList rest ++ "'"

namespace Document

def read (text : String) : Except Failure (Document × List Char) := do
  let (parts, rest) ← readSections text.toList
  return (ofSections parts, rest)

/-- Reads a document with comments, which must have nothing left unread but
blanks, and adds the template. -/
def parse (text : String) (template : Template) : Except DocumentError Document :=
  match readSections (significantText text) with
  | .error failure => .error (.malformed failure)
  | .ok (parts, rest) =>
    if Text.trimList rest = [] then .ok (template.foldl addTemplate (ofSections parts))
    else .error (.unread rest)

end Document

end SlopeField
