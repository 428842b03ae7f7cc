import QueryGate.Text.Printable

/-!
# Quoted texts

A quoted text stands between apostrophes, or between double quotes when it holds an apostrophe and
no double quote. The quote in use and the backslash are escaped; tab, line feed and carriage
return have escapes of their own, and any other character that cannot be printed is given by its
number.
-/

namespace QueryGate

/-- The last `width` hexadecimal digits of a number, in small letters. -/
def hexDigits : (width n : Nat) → Text
  | 0, _ => []
  | width + 1, n => hexDigits width (n / 16) ++ [Nat.digitChar (n % 16)]

namespace Quoted

/-- The quote that a text is written between. -/
def quoteFor (t : Text) : Char :=
  if t.contains '\'' && !t.contains '"' then '"' else '\''

/-- The number of a character, after the shortest of the three escapes that can hold it. -/
def escapeNumber (n : Nat) : Text :=
  if n < 0x100 then '\\' :: 'x' :: hexDigits 2 n
  else if n < 0x10000 then '\\' :: 'u' :: hexDigits 4 n
  else '\\' :: 'U' :: hexDigits 8 n

/-- One character inside quotes. -/
def escape (quote c : Char) : Text :=
  if c == quote || c == '\\' then ['\\', c]
  else if c == '\t' then ['\\', 't']
  else if c == '\n' then ['\\', 'n']
  else if c == '\r' then ['\\', 'r']
  else if isPrintable c then [c]
  else escapeNumber c.toNat

end Quoted

def quoted (t : Text) : Text :=
  let quote := Quoted.quoteFor t
  quote :: t.flatMap (Quoted.escape quote) ++ [quote]

/-- One byte inside a quoted byte string: printable ASCII shows as itself. -/
def Quoted.escapeByte (quote : Char) (b : UInt8) : Text :=
  let c := Char.ofNat b.toNat
  if b < 0x80 then Quoted.escape quote c else Quoted.escapeNumber b.toNat

/-- A byte string between quotes, after the letter that marks it. -/
def quotedBytes (bytes : List UInt8) : Text :=
  let quote := Quoted.quoteFor (bytes.map fun b => Char.ofNat b.toNat)
  'b' :: quote :: bytes.flatMap (Quoted.escapeByte quote) ++ [quote]

end QueryGate
