/-!
# Decimal numbers and their text

A `Decimal` is a whole number of units `10 ^ exponent`. It has two written
forms: positional, which never uses an exponent, and scientific, with one
digit before the point. Reading accepts an optional sign, digits with at most
one point and at least one digit, and an optional exponent.
-/

namespace SlopeField

/-- The number `digits * 10 ^ exponent`. -/
structure Decimal where
  digits : Nat
  exponent : Int
  deriving BEq, DecidableEq, Repr

namespace Decimal

def width (n : Nat) : Nat := (Nat.toDigits 10 n).length

/-- Positional notation. A number below one starts with a single zero, and a
whole number has no point. -/
def positional (d : Decimal) : String :=
  let ds := Nat.toDigits 10 d.digits
  if 0 ≤ d.exponent then
    String.ofList (ds ++ List.replicate d.exponent.toNat '0')
  else
    let places := (-d.exponent).toNat
    let padded := List.replicate (places + 1 - ds.length) '0' ++ ds
    let whole := padded.length - places
    String.ofList (padded.take whole ++ '.' :: padded.drop whole)

/-- Scientific notation: one digit, a point and the further digits if there
are any, `e`, and the exponent without padding. -/
def scientific (d : Decimal) : String :=
  let ds := Nat.toDigits 10 d.digits
  let fraction := match ds.drop 1 with
    | [] => []
    | rest => '.' :: rest
  let exponent : Int := d.exponent + (ds.length - 1 : Nat)
  String.ofList (ds.take 1 ++ fraction) ++ "e" ++ toString exponent

def ofDigits (cs : List Char) : Nat :=
  cs.foldl (fun n c => 10 * n + (c.toNat - '0'.toNat)) 0

def splitSign : List Char → Bool × List Char
  | '-' :: cs => (true, cs)
  | '+' :: cs => (false, cs)
  | cs => (false, cs)

def readDigits? (cs : List Char) : Option Nat :=
  if !cs.isEmpty && cs.all Char.isDigit then some (ofDigits cs) else none

def readExponent? : List Char → Option Int
  | [] => some 0
  | c :: cs =>
    if c = 'e' ∨ c = 'E' then
      let (negative, ds) := splitSign cs
      (readDigits? ds).map fun n => if negative then -(n : Int) else n
    else none

/-- An unsigned decimal: digits with at most one point and at least one digit,
then possibly an exponent. -/
def read? (cs : List Char) : Option Decimal :=
  let whole := cs.takeWhile Char.isDigit
  let tail := cs.dropWhile Char.isDigit
  let (fraction, tail) := match tail with
    | '.' :: rest => (rest.takeWhile Char.isDigit, rest.dropWhile Char.isDigit)
    | rest => ([], rest)
  if whole.isEmpty && fraction.isEmpty then none
  else (readExponent? tail).map fun e =>
    ⟨ofDigits (whole ++ fraction), e - (fraction.length : Int)⟩

end Decimal

end SlopeField
