import Ambient.Number.Binary64

/-!
# The shortest decimal of a double precision number

Of the decimals that read back as a number, its text has the fewest
digits, and of those the nearest one. A grid of one to seventeen digits
is searched from the coarsest on; on each only the two neighbours of the
number can be nearest.
-/

namespace Ambient.Number

/-- The decimal `digits * 10 ^ power`. -/
structure Decimal where
  digits : Nat
  power : Int
  deriving DecidableEq, Repr

namespace Decimal

/-- Numerator and denominator of the decimal. -/
def terms (d : Decimal) : Nat × Nat :=
  if d.power < 0 then (d.digits, Nat.pow 10 (-d.power).toNat)
  else (d.digits * Nat.pow 10 d.power.toNat, 1)

/-- The same decimal with `fuel` zeros less at its end, as far as it has them. -/
def withoutZeros : Nat → Decimal → Decimal
  | 0, d => d
  | fuel + 1, d =>
    if d.digits % 10 = 0 ∧ d.digits ≠ 0 then withoutZeros fuel ⟨d.digits / 10, d.power + 1⟩ else d

end Decimal

namespace Magnitude

/-- The two bounds between which decimals read back as the number, counted
in quarters of its step, and the exponent of such a quarter. Below a power
of two the steps are half as wide. -/
def roundingBounds (x : Magnitude) : Nat × Nat × Int :=
  let narrow := x.mantissa = Nat.pow 2 52 ∧ leastExponent < x.exponent
  (4 * x.mantissa - (if narrow then 1 else 2), 4 * x.mantissa + 2, x.exponent - 2)

/-- The decimal reads back as the number: it lies between the bounds, or on
one of them when the mantissa is even. -/
def readsBack (x : Magnitude) (d : Decimal) : Bool :=
  let (low, high, step) := x.roundingBounds
  let (a, b) := d.terms
  let (lowNum, lowDen) := scaleBinary low 1 step
  let (highNum, highDen) := scaleBinary high 1 step
  if x.mantissa % 2 = 0 then
    lowNum * b ≤ a * lowDen && a * highDen ≤ highNum * b
  else
    lowNum * b < a * lowDen && a * highDen < highNum * b

/-- The largest `k` with `10 ^ k ≤ num / den`, searched upward from `k`. -/
def decimalOrder (num den : Nat) : Nat → Int → Int
  | 0, k => k
  | fuel + 1, k =>
    let (a, b) := Decimal.terms ⟨1, k + 1⟩
    if a * den ≤ num * b then decimalOrder num den fuel (k + 1) else k

/-- The better neighbour of the number on the grid of `10 ^ power`. -/
def neighbour? (x : Magnitude) (power : Int) : Option Decimal :=
  let (num, den) := x.terms
  let (a, b) := Decimal.terms ⟨1, power⟩
  let below := num * b / (den * a)
  let twice := 2 * (num * b)
  let middle := (2 * below + 1) * (den * a)
  let lowFirst := twice < middle || (twice == middle && below % 2 == 0)
  let low : Decimal := ⟨below, power⟩
  let high : Decimal := ⟨below + 1, power⟩
  (if lowFirst then [low, high] else [high, low]).find? fun d => d.digits ≠ 0 && x.readsBack d

/-- The shortest decimal that reads back as the number. -/
def shortest (x : Magnitude) : Decimal :=
  if x.mantissa = 0 then ⟨0, 0⟩
  else
    let (num, den) := x.terms
    let order := decimalOrder num den 700 (-330)
    let found := (List.range 17).findSome? fun (n : Nat) => x.neighbour? (order - n)
    (found.getD ⟨0, 0⟩).withoutZeros 20

/-- The text of a nonnegative number: positional from `0.00001` up to sixteen
digits before the point and never without a fraction, else with one digit
before the point and a signed exponent. -/
def text (x : Magnitude) : String :=
  let d := x.shortest
  let digits := Nat.toDigits 10 d.digits
  let order := d.power + digits.length - 1
  if d.digits = 0 then "0.0"
  else if order < -5 ∨ 15 < order then
    let fraction := match digits with
      | lead :: [] => [lead]
      | lead :: rest => lead :: '.' :: rest
      | [] => []
    String.ofList fraction ++ (if order < 0 then "e-" else "e+") ++ toString order.natAbs
  else if order < 0 then
    "0." ++ String.ofList (List.replicate (order.natAbs - 1) '0' ++ digits)
  else if 0 ≤ d.power then
    String.ofList (digits ++ List.replicate d.power.toNat '0') ++ ".0"
  else
    let whole := order.toNat + 1
    String.ofList (digits.take whole) ++ "." ++ String.ofList (digits.drop whole)

end Magnitude

end Ambient.Number
