import QueryGate.Text.Ranges

/-!
# Blanks

White space of any script: the ASCII blanks, the four information separators, the next-line
control, and the spaces and line breaks beyond ASCII. Zero-width characters are no blanks.
-/

namespace QueryGate

/-- The ranges of white space. -/
def blankRanges : CharRanges :=
  [(0x9, 0xD), (0x1C, 0x20), (0x85, 0x85), (0xA0, 0xA0), (0x1680, 0x1680), (0x2000, 0x200A),
    (0x2028, 0x2029), (0x202F, 0x202F), (0x205F, 0x205F), (0x3000, 0x3000)]

def isBlank (c : Char) : Bool := blankRanges.has c

/-- The text after its leading blanks. -/
def skipBlanks (t : Text) : Text := t.dropWhile isBlank

/-- The text after one or more leading blanks. -/
def spaced? : Text → Option Text
  | c :: t => if isBlank c then some (skipBlanks t) else none
  | [] => none

def trimEnd (t : Text) : Text := (skipBlanks t.reverse).reverse

/-- The text without its leading and trailing blanks. -/
def trim (t : Text) : Text := trimEnd (skipBlanks t)

/-- The text without its trailing characters of one kind. -/
def trimEndOf (d : Char) (t : Text) : Text := (t.reverse.dropWhile (· == d)).reverse

def allBlank (t : Text) : Bool := t.all isBlank

theorem length_skipBlanks_le (t : Text) : (skipBlanks t).length ≤ t.length :=
  (List.dropWhile_suffix _).length_le

end QueryGate
