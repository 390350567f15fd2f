/-!
# Shortest decimal digits

The fewest decimal digits that read back as a given binary number.  A double is
`mantissa * 2 ^ exponent`; every real number closer to it than to its neighbours
reads back as it, and so do the two halfway points when the mantissa is even.
For one digit, two digits and so on, the two decimals next to the value are
tested, so the first hit has the fewest digits; of two hits the nearer is taken,
and of two equally near ones the one with the even last digit.

* `Dyadic.shortest` — the digits and the place of the first one.
-/

namespace Stencil.Decimal

/-! ## Binary numbers and the reals that read back as them -/

/-- The positive number `mantissa * 2 ^ exponent`. -/
structure Dyadic where
  mantissa : Nat
  exponent : Int
  /-- Whether the next smaller number is only half as far away as the next larger. -/
  atPowerOfTwo : Bool
  deriving Repr

/-- The number that the bits of a positive double stand for. -/
def Dyadic.ofBits (bits : UInt64) : Dyadic :=
  let field := (bits >>> 52).toNat % 2048
  let fraction := bits.toNat % Nat.pow 2 52
  if field = 0 then ⟨fraction, -1074, false⟩
  else ⟨fraction + Nat.pow 2 52, (field : Int) - 1075, fraction = 0 && 1 < field⟩

/-- A positive fraction with the bounds of its interval over one denominator. -/
structure Interval where
  low : Nat
  value : Nat
  high : Nat
  denominator : Nat
  /-- Whether the bounds themselves belong to the interval. -/
  closed : Bool
  deriving Repr

/-- The reals that read back as the number, in quarters of its last bit. -/
def Dyadic.interval (number : Dyadic) : Interval :=
  let shift := number.exponent - 2
  let up := Nat.pow 2 shift.toNat
  { low := (4 * number.mantissa - if number.atPowerOfTwo then 1 else 2) * up
    value := 4 * number.mantissa * up
    high := (4 * number.mantissa + 2) * up
    denominator := Nat.pow 2 (-shift).toNat
    closed := number.mantissa % 2 = 0 }

/-! ## Decimals next to a value -/

/-- The number of decimal digits of a natural number; zero has one. -/
def digitCount (n : Nat) : Nat := (Nat.toDigits 10 n).length

/-- The place of the first digit of `numerator / denominator`: zero for units,
negative below one. -/
def leadingPlace (numerator denominator : Nat) : Int :=
  if denominator ≤ numerator then
    (digitCount (numerator / denominator) : Int) - 1
  else
    let k := digitCount denominator - digitCount numerator
    if denominator ≤ numerator * Nat.pow 10 k then -(k : Int) else -(k : Int) - 1

/-- A decimal: its digits, the first of which stands at `place`. -/
structure Digits where
  digits : List Char
  place : Int
  deriving DecidableEq, Repr

/-- The digits of `coefficient * 10 ^ last`, zeros at the end left out. -/
def Digits.ofCoefficient (coefficient : Nat) (last : Int) : Digits :=
  let written := Nat.toDigits 10 coefficient
  let kept := (written.reverse.dropWhile (· = '0')).reverse
  { digits := if kept.isEmpty then ['0'] else kept
    place := last + (written.length : Int) - 1 }

/-- Whether `coefficient * unit / scale`, over the interval's denominator, lies in
the interval. -/
def Interval.holds (interval : Interval) (coefficient unit scale : Nat) : Bool :=
  let point := coefficient * unit * interval.denominator
  if interval.closed then
    decide (interval.low * scale ≤ point ∧ point ≤ interval.high * scale)
  else
    decide (interval.low * scale < point ∧ point < interval.high * scale)

/-- The nearer of the value's two neighbours with `count` digits, if one of them
lies in the interval. -/
def Interval.nearest? (interval : Interval) (place : Int) (count : Nat) : Option Digits :=
  let last := place - count + 1
  let unit := Nat.pow 10 last.toNat
  let scale := Nat.pow 10 (-last).toNat
  let step := unit * interval.denominator
  let below := interval.value * scale / step
  let remainder := interval.value * scale % step
  let belowHolds := interval.holds below unit scale
  let aboveHolds := interval.holds (below + 1) unit scale
  let takeAbove :=
    aboveHolds && (!belowHolds || step < 2 * remainder ||
      (step = 2 * remainder && below % 2 = 1))
  if takeAbove then some (.ofCoefficient (below + 1) last)
  else if belowHolds then some (.ofCoefficient below last)
  else none

/-- The fewest digits that read back as the number.  Seventeen digits always do, so
the search ends there. -/
def Dyadic.shortest (number : Dyadic) : Digits :=
  let interval := number.interval
  let place := leadingPlace interval.value interval.denominator
  ((List.range' 1 17).findSome? (interval.nearest? place)).getD ⟨['0'], 0⟩

end Stencil.Decimal
