import Ambient.Decimal.Double

/-!
# Shortest decimals

The decimal with the fewest digits that reads back as a given double; of several with that many
digits the nearest one, and of two equally near ones the one with the even last digit.
-/

namespace Ambient.Decimal

/-- The number `digits * 10 ^ exponent`. -/
structure Shortest where
  digits : Nat
  exponent : Int
deriving DecidableEq, Repr, Inhabited

namespace Shortest

/-- A range of quotients over one denominator around `value`: what lies in it rounds to the value;
its ends belong to it when `closed`. -/
structure Interval where
  low : Nat
  value : Nat
  high : Nat
  den : Nat
  closed : Bool

/-- The numbers that round to a double: half way to its neighbours, of which the lower one is
twice as near when the mantissa is the least one of its exponent. -/
def interval (x : Double) : Interval :=
  let isNarrow := x.mantissa == Nat.pow 2 52 && x.exponent != Double.leastExponent
  let quarter (n : Nat) : Nat :=
    if 0 ≤ x.exponent then n * Nat.pow 2 x.exponent.toNat else n
  let den := if 0 ≤ x.exponent then 4 else 4 * Nat.pow 2 (-x.exponent).toNat
  { low := quarter (4 * x.mantissa - if isNarrow then 1 else 2)
    value := quarter (4 * x.mantissa)
    high := quarter (4 * x.mantissa + 2)
    den := den
    closed := x.mantissa % 2 == 0 }

/-- Whether `digits * 10 ^ exponent` lies in the interval. -/
def Interval.holds (i : Interval) (digits : Nat) (exponent : Int) : Bool :=
  let num := if 0 ≤ exponent then digits * Nat.pow 10 exponent.toNat * i.den else digits * i.den
  let unit := if 0 ≤ exponent then 1 else Nat.pow 10 (-exponent).toNat
  if i.closed then i.low * unit ≤ num && num ≤ i.high * unit
  else i.low * unit < num && num < i.high * unit

/-- The point of the grid of multiples of `10 ^ exponent` that lies in the interval nearest to the
value, if one of the value's two neighbours on the grid does. -/
def Interval.gridPoint? (i : Interval) (exponent : Int) : Option Nat :=
  let num := if 0 ≤ exponent then i.value else i.value * Nat.pow 10 (-exponent).toNat
  let den := if 0 ≤ exponent then i.den * Nat.pow 10 exponent.toNat else i.den
  let below := num / den
  let rest := num % den
  let isBelow := i.holds below exponent
  let isAbove := i.holds (below + 1) exponent
  if isBelow && isAbove then
    let isNearer := 2 * rest < den || (2 * rest == den && below % 2 == 0)
    some (if isNearer then below else below + 1)
  else if isBelow then some below
  else if isAbove then some (below + 1)
  else none

/-- The number of decimal digits before the point of `num / den`, less one: the greatest `e` with
`10 ^ e ≤ num / den`. The search starts at an estimate and goes up. -/
def magnitudeFrom (num den : Nat) : Nat → Int → Int
  | 0, estimate => estimate
  | steps + 1, estimate =>
    let next := estimate + 1
    let isReached :=
      if 0 ≤ next then den * Nat.pow 10 next.toNat ≤ num else den ≤ num * Nat.pow 10 (-next).toNat
    if isReached then magnitudeFrom num den steps next else estimate

/-- The decimal exponent of the first digit of a double that is not zero. -/
def magnitude (x : Double) : Int :=
  let (num, den) := x.toQuotient
  let bits : Int := (Nat.log2 num : Int) - (Nat.log2 den : Int) - 1
  magnitudeFrom num den 4 (bits * 30103 / 100000 - 1)

/-- The first grid of the list on which a point lies in the interval, with that point. -/
def firstHit (i : Interval) : List Int → Shortest
  | [] => ⟨0, 0⟩
  | exponent :: rest =>
    match i.gridPoint? exponent with
    | some digits => ⟨digits, exponent⟩
    | none => firstHit i rest

/-- The shortest decimal of a double that is not zero: the grids from the next power of ten, which
the double may be rounded from, down to the one of seventeen digits, where a point is certain. -/
def ofDouble (x : Double) : Shortest :=
  let first := magnitude x + 1
  firstHit (interval x) ((List.range 18).map fun (n : Nat) => first - (n : Int))

/-- Zeros, or nothing for a count below zero. -/
def zeros (count : Int) : String :=
  String.ofList (List.replicate count.toNat '0')

/-- The decimal with a point: positional when its first digit stands for at least `10 ^ -5` and
less than `10 ^ 16`, with at least one digit on both sides of the point; otherwise with an
exponent that carries its sign. -/
def render (s : Shortest) : String :=
  let digits := (Nat.repr s.digits).toList
  let count : Int := digits.length
  let point := count + s.exponent
  if 0 ≤ s.exponent && point ≤ 16 then
    String.ofList digits ++ zeros s.exponent ++ ".0"
  else if 0 < point && point ≤ 16 then
    String.ofList (digits.take point.toNat) ++ "." ++ String.ofList (digits.drop point.toNat)
  else if -5 < point && point ≤ 0 then
    "0." ++ zeros (-point) ++ String.ofList digits
  else
    let exponent := point - 1
    let sign := if exponent < 0 then "-" else "+"
    let power := "e" ++ sign ++ Nat.repr exponent.natAbs
    match digits with
    | [] => ""
    | [digit] => String.singleton digit ++ power
    | digit :: rest => String.singleton digit ++ "." ++ String.ofList rest ++ power

end Shortest

/-- The text of a double: zero is `0.0`, another number its shortest decimal. -/
def Double.render (x : Double) : String :=
  if x.isZero then "0.0" else (Shortest.ofDouble x).render

end Ambient.Decimal
