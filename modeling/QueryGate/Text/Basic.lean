/-!
# Texts

A text is the list of its characters, so that every offset and every length counts characters.
This module holds what all others share: slices between two offsets, occurrence of one text in
another, and the decimal text of a number.
-/

namespace QueryGate

/-- A text, character by character. -/
abbrev Text := List Char

instance : Coe String Text := ⟨String.toList⟩

/-- The offsets of a part of a text: from `start` up to, but not including, `stop`. -/
structure Span where
  start : Nat
  stop : Nat
deriving DecidableEq, Repr

/-- The values of a list, each where it first occurs. -/
def distinct {α : Type} [DecidableEq α] (xs : List α) : List α :=
  xs.foldl (fun seen x => if x ∈ seen then seen else seen ++ [x]) []

namespace Text

/-- A list of words as texts. -/
def ofStrings (words : List String) : List Text := words.map String.toList

/-- The characters from offset `start` up to, but not including, offset `stop`. -/
def slice (t : Text) (start stop : Nat) : Text := (t.take stop).drop start

/-- Whether `part` occurs in a text, unbroken. -/
def hasPart (part : Text) : Text → Bool
  | [] => part.isEmpty
  | c :: t => part.isPrefixOf (c :: t) || hasPart part t

/-- The decimal digits of a natural number. -/
def ofNat (n : Nat) : Text := Nat.toDigits 10 n

/-- The decimal digits of an integer, after a minus sign if it is negative. -/
def ofInt : Int → Text
  | .ofNat n => ofNat n
  | .negSucc n => '-' :: ofNat (n + 1)

/-- Texts with a separator between each two. -/
def join (separator : Text) (parts : List Text) : Text := separator.intercalate parts

/-- The digits of a number with zeros in front, up to a least width. -/
def padded (width n : Nat) : Text :=
  let digits := ofNat n
  List.replicate (width - digits.length) '0' ++ digits

@[simp] theorem slice_nil (a b : Nat) : slice [] a b = [] := by simp [slice]

end Text

end QueryGate
