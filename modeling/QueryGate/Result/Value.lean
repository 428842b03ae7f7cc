import QueryGate.Fault
import QueryGate.Number.Decimal
import QueryGate.Time.Calendar

/-!
# Values of a driver

What a database driver returns in the cells of a row, with the text of each value.
-/

namespace QueryGate

inductive ByteForm
  | fixed
  | growable
  | view
deriving DecidableEq, Repr

/-- A value that a driver returns. -/
inductive Value
  | null
  | bool (b : Bool)
  | text (t : Text)
  | int (n : Int)
  | float (x : Binary64)
  | decimal (d : Decimal)
  | date (d : Date)
  | moment (d : Date) (t : ClockTime)
  | time (t : ClockTime)
  | duration (d : Duration)
  | uuid (n : Nat)
  | bytes (form : ByteForm) (data : List UInt8)
  | list (items : List Value)
  | tuple (items : List Value)
  | mapping (entries : List (Value × Value))
  | other (t : Text)
deriving Inhabited

/-- A value with its groups of hexadecimal digits, hyphens between them. -/
def uuidText (n : Nat) : Text :=
  let ds := hexDigits 32 n
  Text.join ['-']
    [ds.take 8, Text.slice ds 8 12, Text.slice ds 12 16, Text.slice ds 16 20, ds.drop 20]

/-- Two hexadecimal digits for each byte. -/
def hexText (data : List UInt8) : Text := data.flatMap fun b => hexDigits 2 b.toNat

namespace Value

/-- The text of a value that has no form of its own in a container. -/
def plainText : Value → Text
  | .null => "None"
  | .bool b => if b then "True" else "False"
  | .text t => t
  | .int n => Text.ofInt n
  | .float x => x.text
  | .decimal d => d.text
  | .date d => d.text
  | .moment d t => d.text ++ ' ' :: t.text
  | .time t => t.text
  | .duration d => d.text
  | .uuid n => uuidText n
  | .bytes .fixed data => quotedBytes data
  | .bytes .growable data => "bytearray(" ++ quotedBytes data ++ [')']
  | .bytes .view _ => "<memory>"
  | .list _ | .tuple _ | .mapping _ => []
  | .other t => t

/-- What kind of value it is, as a message about keys says it. -/
def kind : Value → Text
  | .null => "NoneType"
  | .bool _ => "bool"
  | .text _ => "str"
  | .int _ => "int"
  | .float _ => "float"
  | .decimal _ => "decimal.Decimal"
  | .date _ => "datetime.date"
  | .moment .. => "datetime.datetime"
  | .time _ => "datetime.time"
  | .duration _ => "datetime.timedelta"
  | .uuid _ => "UUID"
  | .bytes .fixed _ => "bytes"
  | .bytes .growable _ => "bytearray"
  | .bytes .view _ => "memoryview"
  | .list _ => "list"
  | .tuple _ => "tuple"
  | .mapping _ => "dict"
  | .other _ => "object"

/-- The number that a value equals, if it is one. -/
def number? : Value → Option Rat
  | .bool b => some (if b then 1 else 0)
  | .int n => some n
  | .float (.finite negative mantissa exponent) =>
    some (Binary64.finite negative mantissa exponent).toRat
  | _ => none

/-- Whether two values are one key of a mapping: numbers by value, texts by their characters. -/
def sameKey (a b : Value) : Bool :=
  match a, b with
  | .null, .null => true
  | .text s, .text t => s == t
  | a, b =>
    match a.number?, b.number? with
    | some x, some y => x == y
    | _, _ => false

/-- The entries with one written: a key that is there already keeps its place and its form. -/
def putEntry (key value : Value) : List (Value × Value) → List (Value × Value)
  | [] => [(key, value)]
  | (k, v) :: entries =>
    if k.sameKey key then (k, value) :: entries else (k, v) :: putEntry key value entries

/-- The mapping that results from writing entries in turn. -/
def ofEntries (entries : List (Value × Value)) : Value :=
  .mapping (entries.foldl (fun d e => putEntry e.1 e.2 d) [])

end Value

end QueryGate
