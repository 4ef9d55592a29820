/-!
# Double precision magnitudes

The finite numbers of the binary format with 53 significant bits, without their sign, and the
two operations that reading a decimal number needs. All arithmetic is exact: a result is a
quotient of natural numbers, rounded once to the nearest number of the format.
-/

namespace Ambient.Decimal

/-- The number `mantissa * 2 ^ exponent`, where the mantissa has at most 53 bits and the exponent
is at least `-1074`; the mantissa has fewer than 53 bits only at the least exponent. -/
structure Double where
  mantissa : Nat
  exponent : Int
deriving DecidableEq, Repr, Inhabited

namespace Double

/-- The least exponent of the format. -/
def leastExponent : Int := -1074

/-- The greatest exponent of the format. -/
def greatestExponent : Int := 971

/-- Zero. -/
def zero : Double := ⟨0, leastExponent⟩

/-- Whether the number is zero. -/
def isZero (x : Double) : Bool := x.mantissa == 0

/-- The quotient rounded to the nearest integer, a half to the even one. -/
def roundQuotient (num den : Nat) : Nat :=
  let quotient := num / den
  let rest := num % den
  if 2 * rest < den || (2 * rest == den && quotient % 2 == 0) then quotient else quotient + 1

/-- Numerator and denominator of `num / den` divided by a power of two. -/
def scaled (num den : Nat) (exponent : Int) : Nat × Nat :=
  if 0 ≤ exponent then (num, den * Nat.pow 2 exponent.toNat)
  else (num * Nat.pow 2 (-exponent).toNat, den)

/-- The exponent at which the quotient has 53 bits, or the least one of the format. -/
def exponentOf (num den : Nat) : Int :=
  let low : Int := (Nat.log2 num : Int) - (Nat.log2 den : Int) - 53
  let (n, d) := scaled num den low
  let exact := if n / d < Nat.pow 2 53 then low else low + 1
  max exact leastExponent

/-- The number of the format nearest to `num / den`, a half to the one with the even mantissa;
`none` beyond the greatest number. -/
def ofQuotient (num den : Nat) : Option Double :=
  if num = 0 then some zero
  else
    let exponent := exponentOf num den
    let (n, d) := scaled num den exponent
    let mantissa := roundQuotient n d
    let rounded : Double :=
      if mantissa = Nat.pow 2 53 then ⟨Nat.pow 2 52, exponent + 1⟩ else ⟨mantissa, exponent⟩
    if rounded.exponent ≤ greatestExponent then some rounded else none

/-- The number nearest to a natural number. -/
def ofNat (n : Nat) : Option Double := ofQuotient n 1

/-- The number as a quotient. -/
def toQuotient (x : Double) : Nat × Nat :=
  if 0 ≤ x.exponent then (x.mantissa * Nat.pow 2 x.exponent.toNat, 1)
  else (x.mantissa, Nat.pow 2 (-x.exponent).toNat)

/-- The rounded product. -/
def mul (x y : Double) : Option Double :=
  let (a, b) := x.toQuotient
  let (c, d) := y.toQuotient
  ofQuotient (a * c) (b * d)

/-- The rounded quotient by a number that is not zero. -/
def div (x y : Double) : Option Double :=
  let (a, b) := x.toQuotient
  let (c, d) := y.toQuotient
  ofQuotient (a * d) (b * c)

/-- The number nearest to a power of ten. -/
def powerOfTen (n : Nat) : Option Double := ofNat (Nat.pow 10 n)

/-- Divides by ten `n` times over: by `10 ^ 308` as long as more than that is left, then by what
is left, rounding each time. -/
def dividePower (x : Double) (n : Nat) : Option Double :=
  if n ≤ 308 then do x.div (← powerOfTen n)
  else if x.isZero then some x
  else do
    let smaller ← x.div (← powerOfTen 308)
    smaller.dividePower (n - 308)
termination_by n

/-- The number written as a whole significand and a power of ten: the significand is rounded,
then one multiplication or division by the power is. -/
def ofDecimal (significand : Nat) (exponent : Int) : Option Double := do
  let x ← ofNat significand
  if exponent < 0 then x.dividePower (-exponent).toNat
  else if exponent ≤ 308 then x.mul (← powerOfTen exponent.toNat)
  else if x.isZero then some x
  else none

end Double

end Ambient.Decimal
