import SlopeField.ParseError
import SlopeField.Text.Basic
import SlopeField.Token.Basic

/-!
# From text to tokens

The scanner reads one character at a time and keeps the characters of an
unfinished number or word. A number is a run of digits and points, a word a
letter or underscore with the letters, digits and underscores after it; every
other token is one character. What has been read never depends on what
follows, and a bad character is reported with its place in the text.
-/

namespace SlopeField

/-- The characters of an unfinished token, last first. -/
inductive Pending where
  | none
  | number (reversed : List Char)
  | word (reversed : List Char)
  deriving BEq, DecidableEq, Repr

/-- A scan in progress: the tokens so far, last first, and the number of
characters read. -/
structure Lexer (α : Type) where
  tokens : List (Token α) := []
  pending : Pending := .none
  position : Nat := 0

namespace Lexer

variable {α : Type}

def isNumberChar (c : Char) : Bool := c.isDigit || c == '.'

def isWordStart (c : Char) : Bool := c.isAlpha || c == '_'

def isWordChar (c : Char) : Bool := c.isAlphanum || c == '_'

def readNumber [Arithmetic α] [Numeral α] (literal : String) : Except ParseError (Token α) :=
  match Numeral.read? literal with
  | some v => if Arithmetic.isFinite v then .ok (.number v) else .error (.malformedNumber literal)
  | none => .error (.malformedNumber literal)

def readWord [Numeral α] (name : String) : Except ParseError (Token α) :=
  let lower := name.map Char.toLower
  if lower = "pi" then .ok (.number Numeral.pi)
  else if lower = "e" then .ok (.number Numeral.e)
  else if lower = independent ∨ lower = dependent then .ok (.var lower)
  else match Fn.ofName? lower with
    | some f => .ok (.func f)
    | none => .error (.unknownIdentifier name)

def readGlyph? [Numeral α] (previous : Option (Token α)) (c : Char) : Option (Token α) :=
  match c with
  | '-' | '−' => some (.minus previous)
  | '+' => some (.op .add)
  | '*' | '×' | '·' => some (.op .mul)
  | '/' | '÷' => some (.op .div)
  | '^' => some (.op .pow)
  | '(' => some .lparen
  | ')' => some .rparen
  | ',' => some .comma
  | 'π' => some (.number Numeral.pi)
  | _ => none

variable [Arithmetic α] [Numeral α]

def flush (s : Lexer α) : Except ParseError (Lexer α) :=
  match s.pending with
  | .none => .ok s
  | .number cs => do
    let t ← readNumber (String.ofList cs.reverse)
    return { s with tokens := t :: s.tokens, pending := .none }
  | .word cs => do
    let t ← readWord (String.ofList cs.reverse)
    return { s with tokens := t :: s.tokens, pending := .none }

def start (s : Lexer α) (c : Char) : Except ParseError (Lexer α) :=
  let next := s.position + 1
  if Text.isBlank c then .ok { s with position := next }
  else if isNumberChar c then .ok { s with pending := .number [c], position := next }
  else if isWordStart c then .ok { s with pending := .word [c], position := next }
  else match readGlyph? s.tokens.head? c with
    | some t => .ok { s with tokens := t :: s.tokens, position := next }
    | none => .error (.invalidCharacter c s.position)

def step (s : Lexer α) (c : Char) : Except ParseError (Lexer α) :=
  match s.pending with
  | .none => s.start c
  | .number cs =>
    if isNumberChar c then .ok { s with pending := .number (c :: cs), position := s.position + 1 }
    else do (← s.flush).start c
  | .word cs =>
    if isWordChar c then .ok { s with pending := .word (c :: cs), position := s.position + 1 }
    else do (← s.flush).start c

end Lexer

def tokenize {α : Type} [Arithmetic α] [Numeral α] (text : String) :
    Except ParseError (List (Token α)) := do
  let s ← text.toList.foldlM Lexer.step ({} : Lexer α)
  return (← s.flush).tokens.reverse

end SlopeField
