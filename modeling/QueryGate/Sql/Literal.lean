import QueryGate.Text.Basic

/-!
# Literals and masks

What stands inside a string literal or a quoted identifier is no SQL. A mask blots it out with NUL
characters, one for one, so that every offset in the mask is an offset in the text.

A literal runs from one apostrophe to the next that closes it; two adjacent apostrophes inside are
an escaped one. If the text ends before the literal is closed, the last apostrophe that could have
closed it does (`literalTail?`), and if there is none the opening apostrophe stands for itself.
-/

namespace QueryGate

/-- The character that blots out a masked one. -/
def maskChar : Char := '\x00'

/-- How many characters after an opening apostrophe belong to the literal, its closing apostrophe
included. -/
def literalTail? : Text → Option Nat
  | [] => none
  | '\'' :: '\'' :: t =>
    match literalTail? t with
    | some n => some (n + 2)
    | none => some 1
  | c :: t => if c == '\'' then some 1 else (literalTail? t).map (· + 1)

/-- How many characters after an opening double quote belong to the quoted identifier, its closing
quote included. -/
def quotedTail? : Text → Option Nat
  | [] => none
  | c :: t => if c == '"' then some 1 else (quotedTail? t).map (· + 1)

/-- Masks what stands between delimiters, given that the next `inside` characters of the text
belong to what has been opened; the last of these is the closing delimiter. -/
def maskFrom (delimiter : Char) (tail? : Text → Option Nat) : (inside : Nat) → Text → Text
  | _, [] => []
  | n + 1, c :: t => (if n = 0 then c else maskChar) :: maskFrom delimiter tail? n t
  | 0, c :: t =>
    c :: maskFrom delimiter tail? (if c == delimiter then (tail? t).getD 0 else 0) t

/-- The text with the contents of its string literals masked. -/
def maskLiterals (t : Text) : Text := maskFrom '\'' literalTail? 0 t

/-- The text with the contents of its quoted identifiers masked. -/
def maskQuoted (t : Text) : Text := maskFrom '"' quotedTail? 0 t

theorem length_maskFrom (d : Char) (tail? : Text → Option Nat) (n : Nat) (t : Text) :
    (maskFrom d tail? n t).length = t.length := by
  induction t generalizing n with
  | nil => cases n <;> rfl
  | cons c t ih => cases n <;> simp [maskFrom, ih]

/-- A mask is as long as the text. -/
@[simp] theorem length_maskLiterals (t : Text) : (maskLiterals t).length = t.length :=
  length_maskFrom ..

/-- A mask is as long as the text. -/
@[simp] theorem length_maskQuoted (t : Text) : (maskQuoted t).length = t.length :=
  length_maskFrom ..

end QueryGate
