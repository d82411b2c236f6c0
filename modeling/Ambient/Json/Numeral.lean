import Ambient.Number.Shortest

/-!
# Numerals

A numeral is kept as it is spelled, digit by digit, because its spelling
decides what it denotes: an integer has neither fraction nor exponent and
fits in 64 bits, every other numeral denotes a double precision number,
and one beyond the largest of these denotes nothing.
-/

namespace Ambient.Json

open Number

/-- The parts of a numeral as spelled, each digit from 0 to 9. -/
structure Numeral where
  negative : Bool
  whole : List Nat
  /-- The digits after the point; a point is always followed by a digit. -/
  fraction : List Nat
  /-- The sign and the digits of the exponent. -/
  exponent : Option (Bool × List Nat)
  deriving DecidableEq, Repr

/-- What a numeral denotes. -/
inductive Number where
  | integer (value : Int)
  | real (negative : Bool) (magnitude : Magnitude)
  deriving DecidableEq, Repr

/-- The natural with these digits. -/
def ofDigits (digits : List Nat) : Nat :=
  digits.foldl (fun n d => 10 * n + d) 0

/-- The digits added to a significand as long as it fits in 64 bits, and how
many digits did not. -/
def gather (significand : Nat) : List Nat → Nat × Nat
  | [] => (significand, 0)
  | d :: digits =>
    if 10 * significand + d < Nat.pow 2 64 then gather (10 * significand + d) digits
    else (significand, digits.length + 1)

namespace Numeral

/-- The numeral is spelled as an integer. -/
def isIntegral (n : Numeral) : Bool :=
  n.fraction.isEmpty && n.exponent.isNone

/-- The double precision number of a numeral: the digits that fit in 64 bits,
scaled by the power of ten that the others and the exponent leave. -/
def magnitude (n : Numeral) : Option Magnitude :=
  let (significand, wholeLeft) := gather 0 n.whole
  let (significand, fractionLeft) := gather significand n.fraction
  let written : Int := match n.exponent with
    | none => 0
    | some (true, digits) => -(ofDigits digits : Int)
    | some (false, digits) => ofDigits digits
  let power := written + wholeLeft - ((n.fraction.length : Int) - fractionLeft)
  (Magnitude.ofQuotient significand 1).bind (·.scaleDecimal power)

/-- What the numeral denotes, if it is in range. A negative zero and an
integer of more than 64 bits are double precision numbers. -/
def value (n : Numeral) : Option Number :=
  let m := ofDigits n.whole
  if n.isIntegral && !n.negative && decide (m < Nat.pow 2 64) then some (.integer m)
  else if n.isIntegral && n.negative && decide (0 < m ∧ m ≤ Nat.pow 2 63) then some (.integer (-m))
  else n.magnitude.map (.real n.negative)

end Numeral

/-- The number as messages show it. -/
def Number.text : Number → String
  | .integer value => toString value
  | .real negative magnitude => (if negative then "-" else "") ++ magnitude.text

end Ambient.Json
