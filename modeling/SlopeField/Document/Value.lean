import SlopeField.Binary64

/-!
# Values of a document

A value is typed by its text: a whole number of 64 bits if it reads as one,
else a number, else a truth value, else the text itself.
-/

namespace SlopeField

inductive Value where
  | text (s : String)
  | float (v : Float)
  | integer (n : Int)
  | boolean (b : Bool)

namespace Value

/-- A whole number with an optional sign, within 64 bits. -/
def readInteger? (s : String) : Option Int :=
  let (negative, ds) := Decimal.splitSign s.toList
  (Decimal.readDigits? ds).bind fun n =>
    let v : Int := if negative then -n else n
    if -0x8000000000000000 ≤ v ∧ v < 0x8000000000000000 then some v else none

def ofText (s : String) : Value :=
  match readInteger? s with
  | some n => .integer n
  | none => match Binary64.read? s with
    | some v => .float v
    | none =>
      if s = "true" then .boolean true
      else if s = "false" then .boolean false
      else .text s

/-- The value as text. A number is written anew, so it may differ from the
text it was read from. -/
def display : Value → String
  | text s => s
  | float v => Binary64.text v
  | integer n => toString n
  | boolean b => if b then "true" else "false"

def asText? : Value → Option String
  | text s => some s
  | _ => none

def asFloat? : Value → Option Float
  | float v => some v
  | integer n => some (Float.ofInt n)
  | _ => none

def asInteger? : Value → Option Int
  | integer n => some n
  | _ => none

def asBoolean? : Value → Option Bool
  | boolean b => some b
  | _ => none

end Value

end SlopeField
