import Stencil.Json.Basic
import Stencil.Decimal.Shortest

/-!
# The text of a number

Integers are written with all their digits.  Doubles are written with the fewest
digits that read back: in plain notation, always with a point, while the first
digit stands between the fifth place after the point and the sixteenth before it,
and with a signed exponent otherwise.

* `Number.text` — the text of a number.
-/

namespace Stencil

open Decimal

/-- The text of a positive decimal.  The plain form is kept for places from -5 to 15. -/
def Decimal.Digits.text (decimal : Digits) : String :=
  let digits := decimal.digits
  let place := decimal.place
  if -5 ≤ place ∧ place < 0 then
    "0." ++ String.ofList (List.replicate ((-place).toNat - 1) '0' ++ digits)
  else if 0 ≤ place ∧ place ≤ 15 then
    let whole := place.toNat + 1
    if digits.length ≤ whole then
      String.ofList (digits ++ List.replicate (whole - digits.length) '0') ++ ".0"
    else
      String.ofList (digits.take whole) ++ "." ++ String.ofList (digits.drop whole)
  else
    let sign := if place < 0 then "-" else "+"
    let point := if digits.length ≤ 1 then "" else "."
    String.ofList (digits.take 1) ++ point ++ String.ofList (digits.drop 1) ++
      "e" ++ sign ++ toString place.natAbs

/-- The text of a double. -/
def Number.doubleText (bits : UInt64) : String :=
  let sign := if bits.toNat < Nat.pow 2 63 then "" else "-"
  let magnitude := magnitudeBits bits
  if magnitude = 0 then sign ++ "0.0"
  else sign ++ (Dyadic.ofBits magnitude).shortest.text

/-- The text of a number. -/
def Number.text : Number → String
  | .integer value => toString value
  | .double bits => doubleText bits

end Stencil
