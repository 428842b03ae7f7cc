import QueryGate.Text.Reading
import QueryGate.Text.Blank
import QueryGate.Text.Word

/-!
# Keywords

A keyword is read regardless of case. Beside the capitals, four letters count as an ASCII letter
when case is disregarded: the long s, the Kelvin sign, and the i with and without its dot.
-/

namespace QueryGate

/-- The ASCII small letter that a character stands for when case is disregarded. -/
def foldLetter (c : Char) : Char :=
  if c == 'ſ' then 's'
  else if c == '\u212A' then 'k'
  else if c == 'İ' || c == 'ı' then 'i'
  else c.toLower

/-- The capital of a letter read as part of a keyword. -/
def capitalLetter (c : Char) : Char :=
  if c == 'ſ' then 'S' else if c == 'ı' then 'I' else c.toUpper

/-- A keyword as it was written, in capitals. -/
def capitals (t : Text) : Text := t.map capitalLetter

/-- The text after `word`, if the text begins with it regardless of case. -/
def keyword? : (word t : Text) → Option Text
  | [], t => some t
  | _ :: _, [] => none
  | w :: word, c :: t => if foldLetter w == foldLetter c then keyword? word t else none

/-- Reads `word` where it begins a word, whatever follows. -/
def wordBeginning (word : Text) : Reading Unit := fun before after =>
  if atWordStart before then (keyword? word after).map ((), ·) else none

/-- Reads a whole word that is one of `words`; the value is the word as written. -/
def oneWord (words : List Text) : Reading Text := fun before after =>
  if atWordStart before then
    words.findSome? fun word =>
      match keyword? word after with
      | some rest => if atWordEnd rest then some (after.take word.length, rest) else none
      | none => none
  else none

def wholeWord (word : Text) : Reading Text := oneWord [word]

/-- Whether the text before a place, nearest character first, ends with one of `words`, where the
word begins at the start of a word. -/
def endsWithWord (words : List Text) (before : Text) : Bool :=
  words.any fun word =>
    match keyword? word.reverse before with
    | some rest => atWordStart rest
    | none => false

/-- Whether one of `words` and then at least one blank lead up to a place. -/
def followsWord (words : List Text) (before : Text) : Bool :=
  (spaced? before).any (endsWithWord words)

/-- The text after `first`, blanks, and `second`. -/
def keywords? (first second t : Text) : Option Text :=
  (keyword? first t).bind spaced? |>.bind (keyword? second)

end QueryGate
