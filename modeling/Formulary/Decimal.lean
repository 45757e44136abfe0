/-! # Doubles as exact multiples of powers of two, and as decimals

A finite double is `m * 2 ^ q`. From that form this module picks the decimal with the fewest digits
that reads back as the same double, works out remainders without rounding, and reads decimals. How
the digits are laid out as text is decided in `Formulary.Decimal.Layout`.
-/

namespace Formulary

/-- The number `± mantissa * 2 ^ exponent`. -/
structure Binary where
  negative : Bool
  mantissa : Nat
  exponent : Int
deriving DecidableEq, Repr

namespace Binary

/-- A double that is neither infinite nor a NaN, taken apart; zeros have mantissa zero. -/
def ofFloat? (x : Float) : Option Binary :=
  let bits := x.toBits.toNat
  let negative := decide (Nat.pow 2 63 ≤ bits)
  let exponent : Nat := bits / Nat.pow 2 52 % Nat.pow 2 11
  let fraction : Nat := bits % Nat.pow 2 52
  if exponent = Nat.pow 2 11 - 1 then none
  else if exponent = 0 then some ⟨negative, fraction, -1074⟩
  else some ⟨negative, fraction + Nat.pow 2 52, (exponent : Int) - 1075⟩

/-- The double with this value, for a mantissa below `2 ^ 53` and a value that is a double. -/
def toFloat (b : Binary) : Float :=
  let sign := if b.negative then Nat.pow 2 63 else 0
  if b.mantissa = 0 then Float.ofBits (UInt64.ofNat sign)
  else
    let shift := 52 - b.mantissa.log2
    let exponent := b.exponent - shift
    let magnitude :=
      if -1074 ≤ exponent then
        (exponent + 1075).toNat * Nat.pow 2 52 + (b.mantissa * Nat.pow 2 shift - Nat.pow 2 52)
      else if -1074 ≤ b.exponent then b.mantissa * Nat.pow 2 (b.exponent + 1074).toNat
      else b.mantissa / Nat.pow 2 (-1074 - b.exponent).toNat
    Float.ofBits (UInt64.ofNat (sign + magnitude))

/-- Numerator and denominator of the absolute value. -/
def ratio (b : Binary) : Nat × Nat :=
  if 0 ≤ b.exponent then (b.mantissa * Nat.pow 2 b.exponent.toNat, 1)
  else (b.mantissa, Nat.pow 2 (-b.exponent).toNat)

/-- What is left of `x` after taking `y` away as often as it goes, with the sign of `x`. -/
def remainder (x y : Binary) : Binary :=
  let exponent := min x.exponent y.exponent
  let scaled (b : Binary) := b.mantissa * Nat.pow 2 (b.exponent - exponent).toNat
  ⟨x.negative, scaled x % scaled y, exponent⟩

end Binary

/-- The remainder of truncated division. It is exact; an infinite dividend or a zero divisor has
none, and an infinite divisor leaves the dividend as it is. -/
def floatRemainder (x y : Float) : Float :=
  match Binary.ofFloat? x, Binary.ofFloat? y with
  | some a, some b => if b.mantissa = 0 then 0 / 0 else (a.remainder b).toFloat
  | some _, none => if y.isNaN then y else x
  | none, _ => 0 / 0

/-- The value of a list of decimal digits, most significant first. -/
def digitsValue (digits : List Char) : Nat :=
  digits.foldl (fun value digit => 10 * value + (digit.toNat - '0'.toNat)) 0

/-- Which of two equally near candidates is taken. -/
inductive Tie where
  /-- The one further from zero. -/
  | up
  /-- The one with an even last digit. -/
  | even
deriving DecidableEq, Repr

/-- The positive decimal `significand * 10 ^ exponent`. -/
structure Decimal where
  significand : Nat
  exponent : Int
deriving DecidableEq, Repr

namespace Decimal

/-- The digits of the significand, most significant first. -/
def digits (d : Decimal) : List Char := Nat.toDigits 10 d.significand

/-- The exponent of the leading digit: the `e` of `d.ddd * 10 ^ e`. -/
def scientificExponent (d : Decimal) : Int := d.exponent + (d.digits.length - 1 : Nat)

/-- The decimals that read back as a given double, as bounds on a common denominator. -/
structure Interval where
  value : Nat
  low : Nat
  high : Nat
  denominator : Nat
  closed : Bool

namespace Interval

/-- The reals that are rounded to `b`: half way to the neighbours on either side. Below a power of
two the neighbour is only half as far. The ends belong to the even mantissa. -/
def ofBinary (b : Binary) : Interval :=
  let quarter : Binary := { b with mantissa := 4 * b.mantissa, exponent := b.exponent - 2 }
  let (value, denominator) := quarter.ratio
  let unit := if 0 ≤ quarter.exponent then Nat.pow 2 quarter.exponent.toNat else 1
  let below := if b.mantissa = Nat.pow 2 52 then 1 else 2
  ⟨value, value - below * unit, value + 2 * unit, denominator, b.mantissa % 2 = 0⟩

/-- `significand * 10 ^ exponent`, times the common denominator, compared without division: the pair
of the scaled decimal and the factor by which the bounds have to be scaled. -/
def scale (i : Interval) (d : Decimal) : Nat × Nat :=
  if 0 ≤ d.exponent then (d.significand * Nat.pow 10 d.exponent.toNat * i.denominator, 1)
  else (d.significand * i.denominator, Nat.pow 10 (-d.exponent).toNat)

/-- Whether the decimal is rounded to the double that the interval belongs to. -/
def contains (i : Interval) (d : Decimal) : Bool :=
  let (scaled, factor) := i.scale d
  if i.closed then decide (i.low * factor ≤ scaled ∧ scaled ≤ i.high * factor)
  else decide (i.low * factor < scaled ∧ scaled < i.high * factor)

/-- How far the decimal is from the value, in units that depend on its exponent alone. -/
def distance (i : Interval) (d : Decimal) : Nat :=
  let (scaled, factor) := i.scale d
  (scaled - i.value * factor) + (i.value * factor - scaled)

/-- The greatest decimal with this exponent that does not exceed the value. -/
def floorAt (i : Interval) (exponent : Int) : Decimal :=
  if 0 ≤ exponent then ⟨i.value / (i.denominator * Nat.pow 10 exponent.toNat), exponent⟩
  else ⟨i.value * Nat.pow 10 (-exponent).toNat / i.denominator, exponent⟩

/-- The exponent of the leading decimal digit of the value. -/
def leading (i : Interval) : Int :=
  if i.denominator ≤ i.value then ((Nat.toDigits 10 (i.value / i.denominator)).length - 1 : Nat)
  else
    -- A ratio of numbers with `a` and `b` digits lies between `10 ^ (a - b - 1)` and
    -- `10 ^ (a - b + 1)`.
    let guess : Int := (Nat.toDigits 10 i.value).length - (Nat.toDigits 10 i.denominator).length
    if i.denominator ≤ i.value * Nat.pow 10 (-guess).toNat then guess else guess - 1

/-- The nearest decimal with this exponent that is rounded to the same double, if there is one. -/
def nearestAt? (i : Interval) (tie : Tie) (exponent : Int) : Option Decimal :=
  let lower := i.floorAt exponent
  let upper : Decimal := { lower with significand := lower.significand + 1 }
  match i.contains lower, i.contains upper with
  | false, false => none
  | true, false => some lower
  | false, true => some upper
  | true, true =>
    match compare (i.distance lower) (i.distance upper) with
    | .lt => some lower
    | .gt => some upper
    | .eq =>
      match tie with
      | .up => some upper
      | .even => some (if lower.significand % 2 = 0 then lower else upper)

end Interval

/-- Drops zeros from the end of the significand; `fuel` bounds how many. -/
def trimZeros : Nat → Decimal → Decimal
  | 0, d => d
  | fuel + 1, d =>
    if d.significand ≠ 0 ∧ d.significand % 10 = 0 then
      trimZeros fuel ⟨d.significand / 10, d.exponent + 1⟩
    else d

/-- The decimal with the fewest digits among those that are rounded to the positive value `b`, and
the nearest of these. Seventeen digits are always enough. -/
def shortest (tie : Tie) (b : Binary) : Decimal :=
  let interval := Interval.ofBinary b
  let leading := interval.leading
  let candidate := (List.range 17).findSome? fun (n : Nat) => interval.nearestAt? tie (leading - n)
  trimZeros 17 (candidate.getD (interval.floorAt (leading - 16)))

end Decimal

/-- The double nearest to a decimal: the digits of the whole part and of the fraction. -/
def readDecimal (negative : Bool) (whole fraction : List Char) : Float :=
  let magnitude := Float.ofScientific (digitsValue (whole ++ fraction)) true fraction.length
  if negative then -magnitude else magnitude

end Formulary
