import Stencil.Json.Basic

/-!
# The value of a written number

A numeral is the spelling of a number: a sign, digits, and maybe digits behind a
point and an exponent.  Without a point or an exponent it stands for an integer,
if that lies between -2^63 and 2^64-1 and is not a negative zero.

Any other numeral stands for a double.  Its digits are gathered into a whole
number below 2^64; a digit that would overflow it ends the gathering, and each
digit dropped in front of the point raises the exponent by one.  That number is
rounded to a double, then multiplied or divided once by a power of ten.  So the
last bit may differ from the nearest double.  A result beyond the doubles is
refused.

* `Numeral.value?` — the number a numeral stands for.
-/

namespace Stencil

/-- The spelling of a number. -/
structure Numeral where
  negative : Bool
  /-- The digits in front of the point; at least one. -/
  whole : List Char
  /-- The digits behind the point, where there is one. -/
  fraction : Option (List Char)
  /-- The exponent, where there is one: whether it is negative, and its digits. -/
  exponent : Option (Bool × List Char)
  deriving Repr

namespace Numeral

/-- The value of a decimal digit. -/
def digitValue (c : Char) : Nat := c.toNat - '0'.toNat

/-- The number that digits spell. -/
def natOf (digits : List Char) : Nat :=
  digits.foldl (fun value c => 10 * value + digitValue c) 0

/-- Gather digits behind `start` while the number stays below 2^64; the number, and how
many digits were gathered. -/
def gather (start : Nat) (count : Nat) : List Char → Nat × Nat
  | [] => (start, count)
  | c :: rest =>
      let next := 10 * start + digitValue c
      if next < Nat.pow 2 64 then gather next (count + 1) rest else (start, count)

/-- The integer a numeral spells, if it is one that is kept as an integer. -/
def integer? (numeral : Numeral) : Option Int :=
  if numeral.fraction.isSome || numeral.exponent.isSome then none
  else
    let value := natOf numeral.whole
    if numeral.negative then
      if 0 < value && value ≤ Nat.pow 2 63 then some (-(value : Int)) else none
    else if value < Nat.pow 2 64 then some value else none

/-- The digits of a numeral as a whole number below 2^64 and a power of ten. -/
def significand (numeral : Numeral) : Nat × Int :=
  let (front, used) := gather 0 0 numeral.whole
  let (all, behind) := gather front 0 (numeral.fraction.getD [])
  (all, (numeral.whole.length : Int) - used - behind)

/-- The greatest exponent that is taken as written. -/
def exponentLimit : Nat := Nat.pow 2 31 - 1

/-- Divide by powers of ten of at most 308 at a time. -/
def divideByTens : Nat → Float → Nat → Float
  | 0, value, _ => value
  | rounds + 1, value, exponent =>
      if exponent ≤ 308 then value / Float.ofScientific 1 false exponent
      else divideByTens rounds (value / Float.ofScientific 1 false 308) (exponent - 308)

/-- The number `significand * 10 ^ exponent` as a double, with one rounding for each step. -/
def scale (significand : Nat) (exponent : Int) : Option Float :=
  let value := significand.toUInt64.toFloat
  if significand = 0 then some value
  else if 0 ≤ exponent then
    if 308 < exponent then none
    else
      let scaled := value * Float.ofScientific 1 false exponent.toNat
      if scaled.isInf then none else some scaled
  else if exponent < -1000 then some 0.0
  else some (divideByTens 4 value exponent.natAbs)

/-- The double a numeral spells; nothing if it is beyond the doubles. -/
def double? (numeral : Numeral) : Option Float :=
  let (digits, shift) := numeral.significand
  let magnitude :=
    match numeral.exponent with
    | none => scale digits shift
    | some (down, written) =>
        let power := natOf written
        if exponentLimit < power then
          if digits ≠ 0 && !down then none else some 0.0
        else scale digits (if down then shift - power else shift + power)
  magnitude.map fun value => if numeral.negative then -value else value

/-- The number a numeral stands for. -/
def value? (numeral : Numeral) : Option Number :=
  match numeral.integer? with
  | some value => some (.integer value)
  | none => numeral.double?.map fun value => .double value.toBits

end Numeral

end Stencil
