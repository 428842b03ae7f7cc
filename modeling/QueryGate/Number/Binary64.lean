/-!
# Binary numbers of 53 significant bits

A finite number is `mantissa * 2 ^ exponent` with a sign. `ofRatio` rounds an exact ratio to the
nearest such number, of two equally near ones to that with the even mantissa; the exponent never
falls below that of the least positive number, and what lies beyond the greatest becomes infinite.
Arithmetic is done on exact rationals and rounded once (`Binary64.round`), so each operation
is as exact as the number format allows.
-/

namespace QueryGate

/-- The whole number nearest to `num / den`; of two equally near ones the even one. -/
def roundDiv (num den : Nat) : Nat :=
  let q := num / den
  let twice := 2 * (num % den)
  if twice < den then q
  else if den < twice then q + 1
  else q + q % 2

/-- A number with 53 significant bits, an infinity, or no number. -/
inductive Binary64
  | finite (negative : Bool) (mantissa : Nat) (exponent : Int)
  | infinite (negative : Bool)
  | nan
deriving DecidableEq, Repr

namespace Binary64

/-- The number of significant bits. -/
def precision : Nat := 53

/-- The exponent of the least positive number. -/
def minExponent : Int := -1074

/-- The exponent of the greatest numbers. -/
def maxExponent : Int := 971

/-- `num / den` in units of `2 ^ exponent`, rounded. -/
def scaled (num den : Nat) (exponent : Int) : Nat :=
  if 0 ≤ exponent then roundDiv num (den * Nat.pow 2 exponent.toNat)
  else roundDiv (num * Nat.pow 2 (-exponent).toNat) den

/-- The exponent at which `num / den` has 53 bits before the point. -/
def exponentOf (num den : Nat) : Int :=
  let guess : Int := (num.log2 : Int) - (den.log2 : Int) - 52
  -- The guess is exact or one too great.
  let full : Bool :=
    if 0 ≤ guess then den * Nat.pow 2 (guess.toNat + 52) ≤ num
    else if guess + 52 ≥ 0 then den * Nat.pow 2 (guess + 52).toNat ≤ num
    else den ≤ num * Nat.pow 2 (-(guess + 52)).toNat
  max minExponent (if full then guess else guess - 1)

/-- The number nearest to `num / den`, a positive ratio or zero, with a sign. -/
def ofRatio (negative : Bool) (num den : Nat) : Binary64 :=
  if num = 0 then .finite negative 0 minExponent
  else
    let exponent := exponentOf num den
    let mantissa := scaled num den exponent
    -- Rounding up may reach the next power of two.
    let (mantissa, exponent) :=
      if mantissa = Nat.pow 2 precision then (Nat.pow 2 (precision - 1), exponent + 1)
      else (mantissa, exponent)
    if maxExponent < exponent then .infinite negative else .finite negative mantissa exponent

/-- The number nearest to an exact rational. -/
def ofRat (x : Rat) : Binary64 := ofRatio (x.num < 0) x.num.natAbs x.den

/-- The exact value of a finite number; zero for the others. -/
def toRat : Binary64 → Rat
  | .finite negative mantissa exponent =>
    let size : Rat :=
      if 0 ≤ exponent then ((mantissa * Nat.pow 2 exponent.toNat : Nat) : Rat)
      else mkRat mantissa (Nat.pow 2 (-exponent).toNat)
    if negative then -size else size
  | _ => 0

/-- An exact rational, rounded to 53 significant bits. -/
def round (x : Rat) : Rat := (ofRat x).toRat

end Binary64

end QueryGate
