import SlopeField.Decimal.Basic

/-!
# Decimal text of floating-point numbers

A finite float is a whole number of units `2 ^ exponent`. Two decimals are
taken from it, both by exact arithmetic on whole numbers: the shortest one
that lies in the interval of reals rounding to the float, and the nearest one
with a given number of digits.
-/

namespace SlopeField

/-- The magnitude `mantissa * 2 ^ exponent`. `narrow` holds where the next
smaller float is only half as far away as the next greater one. -/
structure Binary where
  mantissa : Nat
  exponent : Int
  narrow : Bool
  deriving BEq, DecidableEq, Repr

namespace Binary

/-- The magnitude of a finite float, read off its bit pattern: 52 bits of
fraction below 11 bits of exponent. -/
def ofFloat (v : Float) : Binary :=
  let bits := v.toBits
  let biased := (bits >>> 52 &&& 0x7FF).toNat
  let fraction := (bits &&& 0xFFFFFFFFFFFFF).toNat
  if biased = 0 then ⟨fraction, -1074, false⟩
  else ⟨0x10000000000000 + fraction, (biased : Int) - 1075, fraction == 0 && 1 < biased⟩

def quarter (b : Binary) : Nat × Nat :=
  (Nat.pow 2 (b.exponent - 2).toNat, Nat.pow 2 (2 - b.exponent).toNat)

/-- The exponent of the leading decimal digit of `num / den`, which is not
zero. -/
def leading (num den : Nat) : Int :=
  if den ≤ num then (Decimal.width (num / den) : Int) - 1
  -- Below one, the least power of ten that brings the quotient up to one.
  else -(Decimal.width ((den - 1) / num) : Int)

/-- The value and the two ends of the interval of reals that round to it, as
numerators over one denominator and in units of `10 ^ e`. The value is
`4 * mantissa` quarters of a unit; the interval reaches two quarters up and two
down, one where the float is `narrow`. -/
structure Scaled where
  low : Nat
  value : Nat
  high : Nat
  den : Nat
  /-- The ends belong to the interval. -/
  closed : Bool

def scaled (b : Binary) (e : Int) : Scaled :=
  let (num, den) := b.quarter
  let num := num * Nat.pow 10 (-e).toNat
  { low := (4 * b.mantissa - if b.narrow then 1 else 2) * num
    value := 4 * b.mantissa * num
    high := (4 * b.mantissa + 2) * num
    den := den * Nat.pow 10 e.toNat
    closed := b.mantissa % 2 == 0 }

namespace Scaled

def range (s : Scaled) : Nat × Nat :=
  if s.closed then ((s.low + s.den - 1) / s.den, s.high / s.den)
  else (s.low / s.den + 1, (s.high - 1) / s.den)

def nearest (s : Scaled) : Nat :=
  let (least, greatest) := s.range
  let below := s.value / s.den
  if below < greatest && (below < least || s.den ≤ 2 * (s.value - below * s.den)) then below + 1
  else below

end Scaled

/-- How often both ends of a range of whole numbers can be divided by ten, one
rounded up and the other down, before nothing is left between them; at most
`n` times. -/
def droppable (least greatest : Nat) : Nat → Nat
  | 0 => 0
  | n + 1 =>
    let least := (least + 9) / 10
    let greatest := greatest / 10
    if least ≤ greatest then droppable least greatest n + 1 else 0

/-- The decimal with the fewest digits that rounds to a magnitude other than
zero. Seventeen digits are always enough; as many of them are dropped as leave
a number in the interval. -/
def shortest (b : Binary) : Decimal :=
  let (num, den) := b.quarter
  let fine := leading (4 * b.mantissa * num) den - 16
  let (least, greatest) := (b.scaled fine).range
  let e := fine + droppable least greatest 17
  ⟨(b.scaled e).nearest, e⟩

/-- The nearest decimal with `n + 1` digits, an exact half going to the even
neighbour. -/
def nearest (b : Binary) (n : Nat) : Decimal :=
  if b.mantissa = 0 then ⟨0, 0⟩
  else
    let (num, den) := b.quarter
    let e := leading (4 * b.mantissa * num) den - n
    let s := b.scaled e
    let below := s.value / s.den
    let rest := 2 * (s.value - below * s.den)
    let digits := if s.den < rest || (rest == s.den && below % 2 == 1) then below + 1 else below
    if digits = Nat.pow 10 (n + 1) then ⟨Nat.pow 10 n, e + 1⟩ else ⟨digits, e⟩

end Binary

/-- The float nearest to a decimal. Far outside the range of floats the answer
is zero or infinity, whatever the digits. -/
def Decimal.toFloat (d : Decimal) : Float :=
  let magnitude : Int := d.exponent + Decimal.width d.digits
  if d.digits = 0 ∨ magnitude < -330 then 0.0
  else if 330 < magnitude then 1.0 / 0.0
  else if 0 ≤ d.exponent then Float.ofScientific d.digits false d.exponent.toNat
  else Float.ofScientific d.digits true (-d.exponent).toNat

end SlopeField
