import QueryGate.Result.Notation
import QueryGate.Schema.ColumnType

/-!
# Cells of a result

Every value of a driver becomes one of five portable kinds. A whole number keeps its digits: beyond
53 bits it is given as text. A number that is not finite, a date and anything else without a
portable kind are given as text.
-/

namespace QueryGate

/-- A portable value. -/
inductive Cell
  | null
  | bool (b : Bool)
  | int (n : Int)
  | float (x : Binary64)
  | text (t : Text)
deriving DecidableEq, Repr

namespace Cell

/-- The greatest whole number that is not given as text. -/
def maxSafeInteger : Nat := Nat.pow 2 53 - 1

/-- A whole number, as text if it is great. -/
def ofInt (n : Int) : Except Fault Cell :=
  if n.natAbs ≤ maxSafeInteger then .ok (.int n) else (writeInt n).map .text

def ofFloat : Binary64 → Cell
  | .finite negative mantissa exponent => .float (.finite negative mantissa exponent)
  | x => .text x.text

/-- A decimal number: a great whole one keeps its digits, as many as decimal arithmetic keeps, and
any other becomes the nearest binary number. -/
def ofDecimal : Decimal → Except Fault Cell
  | .finite negative coefficient exponent =>
    let width := (Shortest.width coefficient : Int) + exponent
    if !Decimal.isWhole coefficient exponent || coefficient = 0 then
      .ok (.float (Decimal.finite negative coefficient exponent).toBinary64)
    else if (Decimal.precision : Int) < width then .error .decimalTooLong
    else
      let n := Decimal.wholePart coefficient exponent
      if n ≤ maxSafeInteger then
        .ok (.float (Decimal.finite negative coefficient exponent).toBinary64)
      else .ok (.text ((if negative then ['-'] else []) ++ Text.ofNat n))
  | d => .ok (.text d.text)

/-- The portable form of a driver's value. -/
def ofValue : Value → Except Fault Cell
  | .null => .ok .null
  | .bool b => .ok (.bool b)
  | .text t => .ok (.text t)
  | .int n => ofInt n
  | .float x => .ok (ofFloat x)
  | .decimal d => ofDecimal d
  | .date d => .ok (.text d.text)
  | .moment d t => .ok (.text (d.text ++ 'T' :: t.text))
  | .time t => .ok (.text t.text)
  | .duration d => .ok (.float (Binary64.ofRatio (d.micros < 0) d.micros.natAbs 1000000))
  | .uuid n => .ok (.text (uuidText n))
  | .bytes _ data => .ok (.text (hexText data))
  | .list items => (Notation.write (.list items)).map .text
  | .tuple items => (Notation.write (.tuple items)).map .text
  | .mapping entries => (Notation.write (.mapping entries)).map .text
  | .other t => .ok (.text t)

/-- The text by which the size of a cell is counted. -/
def sizeText : Cell → Text
  | .null => "None"
  | .bool b => if b then "True" else "False"
  | .int n => Text.ofInt n
  | .float x => x.text
  | .text t => t

end Cell

/-- The portable type of a value; none of a null. -/
def ColumnType.ofValue? : Value → Option ColumnType
  | .null => none
  | .bool _ => some .boolean
  | .int _ => some .integer
  | .float _ | .decimal _ => some .decimal
  | .moment .. => some .timestamp
  | .date _ => some .date
  | _ => some .text

/-- The portable type of a column's values: that of the first which is no null. -/
def ColumnType.ofValues (values : List Value) : ColumnType :=
  (values.findSome? ColumnType.ofValue?).getD .text

end QueryGate
