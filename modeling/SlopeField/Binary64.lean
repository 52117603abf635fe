import SlopeField.Scalar
import SlopeField.Decimal.Binary

/-!
# Floating-point scalars

Floats as scalars: the tolerance of every comparison is `1e-9`, and a number
is written with the fewest digits that read back to it.
-/

namespace SlopeField

namespace Binary64

/-- Powers. The zeroth power is one and every power of one is one, also where
the other operand is undefined. -/
def pow (base exponent : Float) : Float :=
  if exponent == 0.0 || base == 1.0 then 1.0 else Float.pow base exponent

def sign (v : Float) : String :=
  if v.toBits >>> 63 = 1 then "-" else ""

/-- Positional text, with the names `inf`, `-inf` and `NaN` for what is not
finite. Zero keeps its sign. -/
def text (v : Float) : String :=
  if v.isNaN then "NaN"
  else
    let magnitude :=
      if v.isInf then "inf"
      else if v == 0.0 then "0"
      else (Binary.ofFloat v).shortest.positional
    sign v ++ magnitude

/-- Scientific text with a given number of digits, at least one, of the exact
value. What is not finite is written as in `text`. -/
def significant (digits : Nat) (v : Float) : String :=
  if v.isFinite then
    let magnitude :=
      if v == 0.0 then
        let zeros := List.replicate (digits - 1) '0'
        String.ofList (if zeros.isEmpty then ['0'] else '0' :: '.' :: zeros) ++ "e0"
      else ((Binary.ofFloat v).nearest (digits - 1)).scientific
    sign v ++ magnitude
  else text v

def readSpecial? (cs : List Char) : Option Float :=
  let name := String.ofList (cs.map Char.toLower)
  if name = "inf" ∨ name = "infinity" then some (1.0 / 0.0)
  else if name = "nan" then some (0.0 / 0.0)
  else none

/-- Reads a number: an optional sign, then a decimal or the name of a value
that is not finite. Nothing may stand around it. -/
def read? (s : String) : Option Float :=
  let (negative, cs) := Decimal.splitSign s.toList
  let magnitude := (readSpecial? cs).orElse fun _ => (Decimal.read? cs).map Decimal.toFloat
  magnitude.map fun v => if negative then -v else v

end Binary64

instance : Arithmetic Float where
  ofNat := Float.ofNat
  isFinite := Float.isFinite

instance : Scalar Float where
  undefined := 0.0 / 0.0
  isZero v := v == 0.0
  isNegative v := v < 0.0
  negligible v := v.abs < 1e-9
  substantial v := v.abs ≥ 1e-9
  abs := Float.abs
  sin := Float.sin
  cos := Float.cos
  tan := Float.tan
  exp := Float.exp
  ln := Float.log
  sqrt := Float.sqrt
  pow := Binary64.pow

instance : Numeral Float where
  read? := Binary64.read?
  text := Binary64.text
  pi := 3.141592653589793
  e := 2.718281828459045

end SlopeField
