import QueryGate.Number.Binary64
import QueryGate.Text.Basic

/-!
# Shortest decimal text

A finite number is written with the fewest decimal digits that read back as the same number, and
of those with the digits nearest to it. Between `10 ^ -4` and `10 ^ 16` the digits are written
positionally, with at least one digit after the point; beyond, one digit stands before the point
and a signed exponent of at least two digits follows.
-/

namespace QueryGate

namespace Shortest

/-- A positive number as a ratio, with the ratio of half the gap to either neighbour. All three
numerators stand over one denominator. -/
structure Interval where
  value : Nat
  below : Nat
  above : Nat
  den : Nat
  /-- Whether the ends of the interval read back as the number. -/
  closed : Bool

/-- The reals that round to `mantissa * 2 ^ exponent`. The gap below a power of two is half the
gap above it. -/
def Interval.of (mantissa : Nat) (exponent : Int) : Interval :=
  let narrow : Bool :=
    mantissa = Nat.pow 2 (Binary64.precision - 1) && Binary64.minExponent < exponent
  let (num, den) :=
    if 0 ≤ exponent then (mantissa * Nat.pow 2 exponent.toNat, 1)
    else (mantissa, Nat.pow 2 (-exponent).toNat)
  let unit := if 0 ≤ exponent then Nat.pow 2 exponent.toNat else 1
  { value := 4 * num
    below := 4 * num - (if narrow then unit else 2 * unit)
    above := 4 * num + 2 * unit
    den := 4 * den
    closed := mantissa % 2 == 0 }

/-- Whether `digits * 10 ^ power` lies in the interval. -/
def Interval.has (i : Interval) (digits : Nat) (power : Int) : Bool :=
  let (n, scale) :=
    if 0 ≤ power then (digits * Nat.pow 10 power.toNat * i.den, 1)
    else (digits * i.den, Nat.pow 10 (-power).toNat)
  if i.closed then i.below * scale ≤ n && n ≤ i.above * scale
  else i.below * scale < n && n < i.above * scale

/-- The number of decimal digits of a natural number. -/
def width (n : Nat) : Nat := (Text.ofNat n).length

/-- The power of ten of the leading digit of `num / den`. -/
def leadingPower (num den : Nat) : Int :=
  if den ≤ num then (width (num / den) : Int) - 1
  else
    let k := width (den / num)
    -- `10 ^ (k - 1) ≤ den / num < 10 ^ k`
    if den ≤ num * Nat.pow 10 (k - 1) then -((k : Int) - 1) else -(k : Int)

/-- Twice the distance from `digits * 10 ^ power` to the value, scaled. -/
def Interval.distance (i : Interval) (digits : Nat) (power : Int) : Nat :=
  let (n, v) :=
    if 0 ≤ power then (digits * Nat.pow 10 power.toNat * i.den, i.value)
    else (digits * i.den, i.value * Nat.pow 10 (-power).toNat)
  if n ≤ v then v - n else n - v

/-- The nearest multiple of `10 ^ power` that reads back, if one of the two neighbours does. -/
def Interval.onGrid? (i : Interval) (power : Int) : Option Nat :=
  let lower :=
    if 0 ≤ power then i.value / (i.den * Nat.pow 10 power.toNat)
    else i.value * Nat.pow 10 (-power).toNat / i.den
  match i.has lower power, i.has (lower + 1) power with
  | true, false => some lower
  | false, true => some (lower + 1)
  | false, false => none
  | true, true =>
    let down := i.distance lower power
    let up := i.distance (lower + 1) power
    if down < up then some lower
    else if up < down then some (lower + 1)
    else some (lower + lower % 2)

/-- The first grid, from `power` downwards, on which a multiple reads back. -/
def Interval.search (i : Interval) : (steps : Nat) → (power : Int) → Nat × Int
  | 0, power => (i.value / i.den, power)
  | steps + 1, power =>
    match i.onGrid? power with
    | some digits => (digits, power)
    | none => i.search steps (power - 1)

/-- The digits without trailing zeros, with the power of ten of the last. -/
def strip : (steps : Nat) → (digits : Nat) → (power : Int) → Nat × Int
  | 0, digits, power => (digits, power)
  | steps + 1, digits, power =>
    if digits != 0 && digits % 10 == 0 then strip steps (digits / 10) (power + 1)
    else (digits, power)

/-- The shortest digits of a positive number, with the power of ten of the last. -/
def digits (mantissa : Nat) (exponent : Int) : Nat × Int :=
  let i := Interval.of mantissa exponent
  let (n, power) := i.search 18 (leadingPower i.value i.den)
  strip 20 n power

/-- Where positional writing begins and ends, by the power of the leading digit. -/
def positional (power : Int) : Bool := -4 ≤ power && power < 16

/-- Digits with the point in its place. -/
def point (ds : Text) (lead : Int) : Text :=
  if lead < 0 then
    '0' :: '.' :: List.replicate (-lead - 1).toNat '0' ++ ds
  else
    let whole := lead.toNat + 1
    if ds.length ≤ whole then ds ++ List.replicate (whole - ds.length) '0' ++ ".0"
    else ds.take whole ++ '.' :: ds.drop whole

/-- One digit, a point if more follow, and the exponent. -/
def scientific (ds : Text) (lead : Int) : Text :=
  let tail := ds.drop 1
  ds.take 1 ++ (if tail.isEmpty then [] else '.' :: tail) ++ 'e' ::
    (if lead < 0 then '-' else '+') :: Text.padded 2 lead.natAbs

/-- The text of a number that is not negative. -/
def unsigned (mantissa : Nat) (exponent : Int) : Text :=
  if mantissa = 0 then "0.0"
  else
    let (n, power) := digits mantissa exponent
    let ds := Text.ofNat n
    let lead := power + ds.length - 1
    if positional lead then point ds lead else scientific ds lead

end Shortest

/-- The shortest text that reads back as the number. -/
def Binary64.text : Binary64 → Text
  | .finite negative mantissa exponent =>
    (if negative then ['-'] else []) ++ Shortest.unsigned mantissa exponent
  | .infinite negative => if negative then "-inf" else "inf"
  | .nan => "nan"

end QueryGate
