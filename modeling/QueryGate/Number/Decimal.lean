import QueryGate.Number.Shortest
import QueryGate.Text.Blank
import QueryGate.Text.Digit

/-!
# Decimal numbers

A decimal number is a coefficient and a power of ten, so that trailing zeros count: `1.10` and
`1.1` have one value and two texts. Reading is exact; the only operations are the ones a result
cell needs: the text, the nearest binary number, and the whole number that a decimal stands for.
-/

namespace QueryGate

/-- A decimal number, an infinity, or no number, which may carry digits that identify it. -/
inductive Decimal
  | finite (negative : Bool) (coefficient : Nat) (exponent : Int)
  | infinite (negative : Bool)
  | nan (negative signaling : Bool) (payload : Nat)
deriving DecidableEq, Repr

namespace Decimal

/-- The most digits an operation keeps. -/
def precision : Nat := 28

/-! ## Reading -/

/-- The digits at the head of a text and what follows them. -/
def takeDigits : Text → List Nat × Text
  | [] => ([], [])
  | c :: t =>
    match digitValue? c with
    | some d => let (ds, rest) := takeDigits t; (d :: ds, rest)
    | none => ([], c :: t)

def ofDigits (ds : List Nat) : Nat := ds.foldl (fun n d => n * 10 + d) 0

/-- A sign in front of a text, and whether it is a minus. -/
def takeSign : Text → Bool × Text
  | '-' :: t => (true, t)
  | '+' :: t => (false, t)
  | t => (false, t)

/-- The exponent part of a numeral, if there is one: nothing may follow it. -/
def exponent? : Text → Option Int
  | [] => some 0
  | c :: t =>
    if c.toLower != 'e' then none
    else
      let (negative, r) := takeSign t
      match takeDigits r with
      | ([], _) => none
      | (ds, []) => some (if negative then -(ofDigits ds : Int) else ofDigits ds)
      | (_, _ :: _) => none

/-- A numeral with point and exponent. -/
def numeral? (negative : Bool) (t : Text) : Option Decimal :=
  let (whole, r) := takeDigits t
  let (fraction, r) := match r with
    | '.' :: r => takeDigits r
    | r => ([], r)
  if whole.isEmpty && fraction.isEmpty then none
  else (exponent? r).map fun e =>
    .finite negative (ofDigits (whole ++ fraction)) (e - fraction.length)

/-- The number that a text stands for: blanks around it and underscores inside are ignored. -/
def ofText? (t : Text) : Option Decimal :=
  let (negative, r) := takeSign ((trim t).filter (· != '_'))
  let small := r.map Char.toLower
  if small = "inf" || small = "infinity" then some (.infinite negative)
  else
    let (signaling, r') := match small with
      | 's' :: r' => (true, r')
      | r' => (false, r')
    match r' with
    | 'n' :: 'a' :: 'n' :: payload =>
      match takeDigits payload with
      | (ds, []) => some (.nan negative signaling (ofDigits ds))
      | _ => none
    | _ => numeral? negative r

/-! ## Text -/

/-- The digits with the point in its place; `0.000001` is the least number written without an
exponent, and a number whose last digit lies left of the units always has one. -/
def unsignedText (coefficient : Nat) (exponent : Int) : Text :=
  let ds := Text.ofNat coefficient
  let left := exponent + ds.length
  let point : Int := if exponent ≤ 0 && -6 < left then left else 1
  let body :=
    if point ≤ 0 then '0' :: '.' :: List.replicate (-point).toNat '0' ++ ds
    else if (ds.length : Int) ≤ point then ds ++ List.replicate (point.toNat - ds.length) '0'
    else ds.take point.toNat ++ '.' :: ds.drop point.toNat
  if left = point then body
  else body ++ 'E' :: (if left < point then '-' else '+') :: Text.ofNat (left - point).natAbs

def text : Decimal → Text
  | .finite negative coefficient exponent =>
    (if negative then ['-'] else []) ++ unsignedText coefficient exponent
  | .infinite negative => (if negative then ['-'] else []) ++ "Infinity"
  | .nan negative signaling payload =>
    (if negative then ['-'] else []) ++ (if signaling then "sNaN" else "NaN")
      ++ if payload = 0 then [] else Text.ofNat payload

/-! ## Values -/

def toBinary64 : Decimal → Binary64
  | .infinite negative => .infinite negative
  | .nan .. => .nan
  | .finite negative coefficient exponent =>
    let lead := exponent + Shortest.width coefficient
    -- Beyond these powers the answer is known without the digits.
    if coefficient = 0 || lead < -400 then .finite negative 0 Binary64.minExponent
    else if 400 < lead then .infinite negative
    else if 0 ≤ exponent then Binary64.ofRatio negative (coefficient * Nat.pow 10 exponent.toNat) 1
    else Binary64.ofRatio negative coefficient (Nat.pow 10 (-exponent).toNat)

/-- Whether `coefficient * 10 ^ exponent` is a whole number. -/
def isWhole (coefficient : Nat) (exponent : Int) : Bool :=
  0 ≤ exponent || coefficient == 0 ||
    ((-exponent).toNat ≤ Shortest.width coefficient &&
      coefficient % Nat.pow 10 (-exponent).toNat == 0)

/-- The whole number that `coefficient * 10 ^ exponent` stands for. -/
def wholePart (coefficient : Nat) (exponent : Int) : Nat :=
  if 0 ≤ exponent then coefficient * Nat.pow 10 exponent.toNat
  else coefficient / Nat.pow 10 (-exponent).toNat

end Decimal

/-- The number that a decimal text stands for, rounded to 53 significant bits. -/
def Binary64.ofText? (t : Text) : Option Binary64 := (Decimal.ofText? t).map Decimal.toBinary64

end QueryGate
