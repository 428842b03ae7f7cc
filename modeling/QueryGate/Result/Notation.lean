import QueryGate.Result.Value

/-!
# Containers as text

A list or a mapping in a cell is written in the notation of JSON, with a blank after each comma and
colon, and in ASCII alone: any other character is given by its number, one beyond the sixteenth bit
by two. A value that JSON lacks is written as its text. A key is a text, a number, a truth value or
null.
-/

namespace QueryGate

namespace Notation

/-- Four hexadecimal digits after the mark of a number. -/
def unit (n : Nat) : Text := '\\' :: 'u' :: hexDigits 4 n

def escape (c : Char) : Text :=
  let n := c.toNat
  if c == '"' || c == '\\' then ['\\', c]
  else if c == '\n' then ['\\', 'n']
  else if c == '\r' then ['\\', 'r']
  else if c == '\t' then ['\\', 't']
  else if n = 8 then ['\\', 'b']
  else if n = 12 then ['\\', 'f']
  else if 0x20 ≤ n && n < 0x7F then [c]
  else if n < 0x10000 then unit n
  else unit (0xD800 + (n - 0x10000) / 0x400) ++ unit (0xDC00 + (n - 0x10000) % 0x400)

def text (t : Text) : Text := '"' :: t.flatMap escape ++ ['"']

/-- A binary number; those without digits have names. -/
def float : Binary64 → Text
  | .nan => "NaN"
  | .infinite negative => if negative then "-Infinity" else "Infinity"
  | x => x.text

def bool (b : Bool) : Text := if b then "true" else "false"

def key : Value → Except Fault Text
  | .text t => .ok (text t)
  | .float x => .ok (text (float x))
  | .bool b => .ok (text (bool b))
  | .null => .ok (text "null")
  | .int n => (writeInt n).map text
  | v => .error (.badKey v.kind)

mutual

def write : Value → Except Fault Text
  | .null => .ok "null"
  | .bool b => .ok (bool b)
  | .text t => .ok (text t)
  | .int n => writeInt n
  | .float x => .ok (float x)
  | .list items => do return '[' :: (← writeItems items) ++ [']']
  | .tuple items => do return '[' :: (← writeItems items) ++ [']']
  | .mapping entries => do return '\x7b' :: (← writeEntries entries) ++ ['\x7d']
  | v => .ok (text v.plainText)

def writeItems : List Value → Except Fault Text
  | [] => .ok []
  | [v] => write v
  | v :: w :: rest => do
    let head ← write v
    return head ++ ", " ++ (← writeItems (w :: rest))

def writeEntries : List (Value × Value) → Except Fault Text
  | [] => .ok []
  | [(k, v)] => do
    let head ← key k
    return head ++ ": " ++ (← write v)
  | (k, v) :: e :: rest => do
    let head ← key k
    let body ← write v
    return head ++ ": " ++ body ++ ", " ++ (← writeEntries (e :: rest))

end

end Notation

end QueryGate
