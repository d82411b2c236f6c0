/-!
# Double precision magnitudes

A finite nonnegative number of the format binary64 is `mantissa * 2 ^ exponent`
with a mantissa below `2 ^ 53` and an exponent of at least `-1074`. Every
operation computes the exact quotient of two naturals and rounds once, to
the nearest such number and on a tie to the even mantissa, so all of it is
arithmetic on naturals. Above the largest number there is none.
-/

namespace Ambient.Number

/-- The number `mantissa * 2 ^ exponent`. -/
structure Magnitude where
  mantissa : Nat
  exponent : Int
  deriving DecidableEq, Repr

namespace Magnitude

/-- The exponent of the smallest steps of the format. -/
def leastExponent : Int := -1074

/-- The exponent of the widest steps of the format. -/
def greatestExponent : Int := 971

/-- The natural nearest to `num / den`, on a tie the even one. -/
def nearest (num den : Nat) : Nat :=
  let q := num / den
  let r := num % den
  if 2 * r < den ∨ (2 * r = den ∧ q % 2 = 0) then q else q + 1

/-- Both terms of `num / den` after multiplying the quotient by `2 ^ k`. -/
def scaleBinary (num den : Nat) (k : Int) : Nat × Nat :=
  if k < 0 then (num, den * Nat.pow 2 (-k).toNat) else (num * Nat.pow 2 k.toNat, den)

/-- The largest `k` with `2 ^ k ≤ num / den`, for `num` above zero. -/
def binaryOrder (num den : Nat) : Int :=
  let guess : Int := (num.log2 : Int) - den.log2
  let (n, d) := scaleBinary num den (-guess)
  if d ≤ n then guess else guess - 1

/-- The number nearest to `num / den`, or none when it is out of range. -/
def ofQuotient (num den : Nat) : Option Magnitude :=
  if num = 0 then some ⟨0, leastExponent⟩
  else
    let exponent := max (binaryOrder num den - 52) leastExponent
    let (n, d) := scaleBinary num den (-exponent)
    let mantissa := nearest n d
    let (mantissa, exponent) :=
      if mantissa = Nat.pow 2 53 then (Nat.pow 2 52, exponent + 1) else (mantissa, exponent)
    if greatestExponent < exponent then none else some ⟨mantissa, exponent⟩

/-- Numerator and denominator of the number. -/
def terms (x : Magnitude) : Nat × Nat :=
  scaleBinary x.mantissa 1 x.exponent

/-- The number nearest to the product. -/
def mul (x y : Magnitude) : Option Magnitude :=
  let (a, b) := x.terms
  let (c, d) := y.terms
  ofQuotient (a * c) (b * d)

/-- The number nearest to the quotient. -/
def div (x y : Magnitude) : Option Magnitude :=
  let (a, b) := x.terms
  let (c, d) := y.terms
  ofQuotient (a * d) (b * c)

/-- The largest power of ten in the format. -/
def greatestPower : Nat := 308

/-- The number nearest to a power of ten. -/
def powerOfTen (power : Nat) : Option Magnitude :=
  ofQuotient (Nat.pow 10 power) 1

/-- The number `x * 10 ^ power`: one multiplication or division where the
power of ten is itself in the format, and below that strides of the
greatest one. A stride takes every number to zero within a few steps. -/
def scaleDecimal (x : Magnitude) (power : Int) : Option Magnitude :=
  if power.natAbs ≤ greatestPower then
    (powerOfTen power.natAbs).bind fun p => if power < 0 then x.div p else x.mul p
  else if x.mantissa = 0 then some x
  else if 0 < power then none
  else
    (powerOfTen greatestPower).bind fun p =>
      (x.div p).bind fun y => scaleDecimal y (power + greatestPower)
  termination_by power.natAbs
  decreasing_by simp only [greatestPower] at *; omega

example : ofQuotient 1 1 = some ⟨2 ^ 52, -52⟩ := by decide
example : ofQuotient 1 10 = some ⟨7205759403792794, -56⟩ := by decide +kernel
example : ofQuotient (2 ^ 1024) 1 = none := by decide +kernel

end Magnitude

end Ambient.Number
