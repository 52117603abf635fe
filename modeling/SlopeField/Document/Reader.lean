import SlopeField.Document.Value
import SlopeField.Text.Basic

/-!
# Reading the sections of a document

A section is a title alone on its line and one or more key lines, each a key,
a colon and a list of values. Values are separated by commas or semicolons and
run to the next separator or the end of the line. Blank space after a key line
is skipped, whatever lines it covers.

A key line that cannot be read ends its section, and a section that cannot be
read ends the document; what is left then stays unread. Only a document
without a first section has an error of its own.
-/

namespace SlopeField.Document

/-- A value read off the front of a text, with a rest that is shorter than
`bound`. -/
structure Taken (β : Type) (bound : Nat) where
  value : β
  rest : List Char
  fits : rest.length < bound

inductive Expected where
  | identifier
  | lineEnd
  | colon
  | valueEnd
  deriving BEq, DecidableEq, Repr

structure Failure where
  expected : Expected
  rest : List Char
  deriving BEq, DecidableEq, Repr

def Failure.message (f : Failure) : String :=
  let code := match f.expected with
    | .identifier | .colon => "Tag"
    | .lineEnd => "CrLf"
    | .valueEnd => "Eof"
  "Error(Error \x7b input: " ++ Text.quote (String.ofList f.rest) ++ ", code: " ++ code ++ " \x7d)"

structure Entry where
  key : String
  values : List Value

structure Section where
  title : String
  entries : List Entry

theorem length_dropWhile_le (p : Char → Bool) (cs : List Char) :
    (cs.dropWhile p).length ≤ cs.length :=
  (List.dropWhile_suffix p).length_le

theorem length_dropWhile_lt {p : Char → Bool} {cs : List Char} (h : cs.takeWhile p ≠ []) :
    (cs.dropWhile p).length < cs.length := by
  have hl : (cs.takeWhile p).length + (cs.dropWhile p).length = cs.length := by
    rw [← List.length_append, List.takeWhile_append_dropWhile]
  have hp : 0 < (cs.takeWhile p).length := List.length_pos_iff.mpr h
  omega

def skipSpace (cs : List Char) : List Char := cs.dropWhile fun c => c == ' ' || c == '\t'

def skipLines (cs : List Char) : List Char :=
  cs.dropWhile fun c => c == ' ' || c == '\t' || c == '\r' || c == '\n'

theorem length_skipSpace_le (cs : List Char) : (skipSpace cs).length ≤ cs.length :=
  length_dropWhile_le _ cs

theorem length_skipLines_le (cs : List Char) : (skipLines cs).length ≤ cs.length :=
  length_dropWhile_le _ cs

def isNameStart (c : Char) : Bool := c.isAlpha || c == '_'

def isNameChar (c : Char) : Bool := c.isAlphanum || c == '_'

def name (cs : List Char) : Except Failure (Taken String cs.length) :=
  match cs with
  | [] => .error ⟨.identifier, []⟩
  | c :: rest =>
    if isNameStart c then
      .ok ⟨String.ofList (c :: rest.takeWhile isNameChar), rest.dropWhile isNameChar,
        Nat.lt_succ_of_le (length_dropWhile_le _ rest)⟩
    else .error ⟨.identifier, c :: rest⟩

def lineEnd? (cs : List Char) : Option (Taken Unit cs.length) :=
  match cs with
  | '\n' :: rest => some ⟨(), rest, by simp only [List.length_cons]; omega⟩
  | '\r' :: '\n' :: rest => some ⟨(), rest, by simp only [List.length_cons]; omega⟩
  | _ => none

def titleLine (cs : List Char) : Except Failure (Taken String cs.length) := do
  let title ← name (skipSpace cs)
  match lineEnd? (skipSpace title.rest) with
  | none => .error ⟨.lineEnd, skipSpace title.rest⟩
  | some line => .ok ⟨title.value, line.rest, by
      have := title.fits
      have := line.fits
      have := length_skipSpace_le cs
      have := length_skipSpace_le title.rest
      omega⟩

def isValueChar (c : Char) : Bool := !(c == ',' || c == ';' || c == '\n' || c == '\r')

def value? (cs : List Char) : Option (Taken Value cs.length) :=
  if h : Text.trimList (cs.takeWhile isValueChar) = [] then none
  else some ⟨Value.ofText (String.ofList (Text.trimList (cs.takeWhile isValueChar))),
    cs.dropWhile isValueChar, length_dropWhile_lt fun hw => h (by rw [hw]; rfl)⟩

def separator? (cs : List Char) : Option (Taken Unit cs.length) :=
  match h : skipSpace cs with
  | [] => none
  | c :: rest =>
    if c == ',' || c == ';' then
      some ⟨(), skipSpace rest, by
        have := length_skipSpace_le rest
        have := length_skipSpace_le cs
        rw [h] at this
        simp only [List.length_cons] at this
        omega⟩
    else none

/-- The further values of a list. A separator without a value behind it is
left unread. -/
def moreValues (cs : List Char) : Taken (List Value) (cs.length + 1) :=
  match separator? cs with
  | none => ⟨[], cs, by omega⟩
  | some sep => match value? sep.rest with
    -- The rest starts with the separator again.
    | none => ⟨[], cs, by omega⟩
    | some v =>
      have shorter : v.rest.length < cs.length := Nat.lt_trans v.fits sep.fits
      let more := moreValues v.rest
      ⟨v.value :: more.value, more.rest, by have := more.fits; omega⟩
termination_by cs.length

def values (cs : List Char) : Taken (List Value) (cs.length + 1) :=
  match value? cs with
  | none => ⟨[], cs, by omega⟩
  | some v =>
    let more := moreValues v.rest
    ⟨v.value :: more.value, more.rest, by have := more.fits; have := v.fits; omega⟩

def colon (cs : List Char) : Except Failure (Taken Unit cs.length) :=
  match h : skipSpace cs with
  | ':' :: rest => .ok ⟨(), skipSpace rest, by
      have := length_skipSpace_le rest
      have := length_skipSpace_le cs
      rw [h] at this
      simp only [List.length_cons] at this
      omega⟩
  | rest => .error ⟨.colon, rest⟩

/-- The rest behind the end of a key line, which the end of the text is too. -/
def keyLineEnd (cs : List Char) : Except Failure (Taken Unit (cs.length + 1)) :=
  match lineEnd? (skipSpace cs) with
  | some line => .ok ⟨(), line.rest, by
      have := line.fits
      have := length_skipSpace_le cs
      omega⟩
  | none =>
    if (skipSpace cs).isEmpty then .ok ⟨(), [], by simp⟩
    else .error ⟨.valueEnd, skipSpace cs⟩

def keyLine (cs : List Char) : Except Failure (Taken Entry cs.length) := do
  let key ← name (skipSpace cs)
  let sep ← colon key.rest
  let list := values sep.rest
  let line ← keyLineEnd list.rest
  return ⟨⟨key.value, list.value⟩, line.rest, by
    have := key.fits
    have := sep.fits
    have := list.fits
    have := line.fits
    have := length_skipSpace_le cs
    omega⟩

def keyLines (cs : List Char) : Taken (List Entry) (cs.length + 1) :=
  match keyLine cs with
  | .error _ => ⟨[], cs, by omega⟩
  | .ok line =>
    have shorter : (skipLines line.rest).length < cs.length :=
      Nat.lt_of_le_of_lt (length_skipLines_le _) line.fits
    let more := keyLines (skipLines line.rest)
    ⟨line.value :: more.value, more.rest, by have := more.fits; omega⟩
termination_by cs.length

def readSection (cs : List Char) : Except Failure (Taken Section cs.length) := do
  let title ← titleLine cs
  let first ← keyLine title.rest
  let more := keyLines (skipLines first.rest)
  return ⟨⟨title.value, first.value :: more.value⟩, more.rest, by
    have := title.fits
    have := first.fits
    have := more.fits
    have := length_skipLines_le first.rest
    omega⟩

def moreSections (cs : List Char) : Taken (List Section) (cs.length + 1) :=
  match readSection cs with
  | .error _ => ⟨[], cs, by omega⟩
  | .ok part =>
    have shorter : part.rest.length < cs.length := part.fits
    let more := moreSections part.rest
    ⟨part.value :: more.value, more.rest, by have := more.fits; omega⟩
termination_by cs.length

def readSections (cs : List Char) : Except Failure (List Section × List Char) := do
  let first ← readSection (skipLines cs)
  let more := moreSections first.rest
  return (first.value :: more.value, more.rest)

end SlopeField.Document
