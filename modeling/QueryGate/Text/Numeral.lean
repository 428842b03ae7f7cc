import QueryGate.Text.Blank
import QueryGate.Text.Digit
import QueryGate.Text.Quoted

/-!
# Numerals

Reading a whole number from text and writing one. Digits of any script count, single underscores may
stand between digits, and a numeral of more than 4300 digits is refused rather than converted, in
either direction.
-/

namespace QueryGate

/-- Why a text does not give a number, or a number no text. -/
inductive NumeralError
  /-- More digits than are converted. -/
  | tooLong (digits : Nat)
  /-- A number of more digits than are written. -/
  | tooLarge
  /-- No numeral at all. -/
  | malformed (text : Text)
deriving DecidableEq, Repr

namespace Numeral

/-- The most digits that are converted. -/
def maxDigits : Nat := 4300

/-- The number that a list of digit values stands for. -/
def ofDigits (ds : List Nat) : Nat := ds.foldl (fun n d => n * 10 + d) 0

/-- The digits at the head of a text, single underscores between them skipped, and what follows
the last of them; `none` when an underscore does not stand between two digits. -/
def digitRun : (afterDigit : Bool) → Text → Option (List Nat × Text)
  | afterDigit, [] => if afterDigit then some ([], []) else none
  | afterDigit, c :: t =>
    match digitValue? c with
    | some d => (digitRun true t).map fun (ds, rest) => (d :: ds, rest)
    | none =>
      if afterDigit then
        if c == '_' then digitRun false t else some ([], c :: t)
      else none

/-- The magnitude of a numeral without sign; `whole` is what an error shows. -/
def magnitude (whole t : Text) : Except NumeralError Nat :=
  match digitRun false t with
  | none => .error (.malformed whole)
  | some (ds, rest) =>
    if maxDigits < ds.length then .error (.tooLong ds.length)
    else if rest.isEmpty then .ok (ofDigits ds)
    else .error (.malformed whole)

/-- The integer that a text stands for: blanks around it and one sign in front are allowed. -/
def toInt (t : Text) : Except NumeralError Int :=
  match trim t with
  | '-' :: r => (magnitude t r).map fun n => -(n : Int)
  | '+' :: r => (magnitude t r).map fun n => (n : Int)
  | r => (magnitude t r).map fun n => (n : Int)

/-- The natural number that a text of digits stands for. -/
def toNat (t : Text) : Except NumeralError Nat := magnitude t t

/-- The decimal digits of a natural number. -/
def ofNat (n : Nat) : Except NumeralError Text :=
  if maxDigits < (Text.ofNat n).length then .error .tooLarge else .ok (Text.ofNat n)

end Numeral

/-- The most characters of a refused text that are shown. -/
def NumeralError.shownLength : Nat := 200

/-- What is said of a numeral that was refused. -/
def NumeralError.message : NumeralError → Text
  | .tooLong digits =>
    "Exceeds the limit (4300 digits) for integer string conversion: value has "
      ++ Text.ofNat digits
      ++ " digits; use sys.set_int_max_str_digits() to increase the limit"
  | .tooLarge =>
    "Exceeds the limit (4300 digits) for integer string conversion; "
      ++ "use sys.set_int_max_str_digits() to increase the limit"
  | .malformed text =>
    "invalid literal for int() with base 10: " ++ (quoted text).take shownLength

end QueryGate
