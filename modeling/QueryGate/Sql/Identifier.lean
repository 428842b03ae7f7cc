import QueryGate.Text.Case
import QueryGate.Text.Keyword

/-!
# Identifiers

An identifier is written bare or between double quotes. A database folds a bare one to small
letters and takes a quoted one as it stands (`Identifier.effective`), so a name with anything but
small ASCII letters, digits and underscores has to be quoted to be itself (`needsQuotes`).
-/

namespace QueryGate

/-- A name as it is written in SQL. -/
structure Identifier where
  name : Text
  quoted : Bool
deriving DecidableEq, Repr

/-- The characters that a bare name may hold after its first. -/
def isNamePart (c : Char) : Bool := isWordChar c || c == '$'

/-- The characters that may begin a bare name. -/
def isNameStart (c : Char) : Bool := c.isAlpha || c == '_'

/-- The characters that may begin a bare name where case is disregarded: beside the ASCII letters
those that stand for one. -/
def isFoldedNameStart (c : Char) : Bool := isNameStart (foldLetter c)

/-- The characters of a name that a database leaves as they are. -/
def isPlainNameChar (c : Char) : Bool := c.isLower || c.isDigit || c == '_'

/-- Whether a name has to be quoted to denote itself. -/
def needsQuotes (name : Text) : Bool :=
  !name.all isPlainNameChar || name.head?.any Char.isDigit

/-- A name between double quotes. -/
def inQuotes (name : Text) : Text := '"' :: name ++ ['"']

/-- The written form of a name: quoted if it has to be, or if that is asked for. -/
def renderName (name : Text) (forceQuotes : Bool) : Text :=
  if forceQuotes || needsQuotes name then inQuotes name else name

namespace Identifier

/-- What a text says as an identifier: between quotes the inner text, otherwise all of it. -/
def ofText (t : Text) : Identifier :=
  match t with
  | '"' :: r => if r.getLast? == some '"' then ⟨r.dropLast, true⟩ else ⟨t, false⟩
  | _ => ⟨t, false⟩

/-- The name as the database sees it. -/
def effective (i : Identifier) : Text := if i.quoted then i.name else lower i.name

/-- Reads a quoted identifier that is not empty, or the longest bare name. -/
def read? (isStart : Char → Bool) : Text → Option (Identifier × Text)
  | [] => none
  | c :: t =>
    if c == '"' then
      let name := t.takeWhile (· != '"')
      match t.dropWhile (· != '"') with
      | [] => none
      | _ :: rest => if name.isEmpty then none else some (⟨name, true⟩, rest)
    else if isStart c then some (⟨c :: t.takeWhile isNamePart, false⟩, t.dropWhile isNamePart)
    else none

end Identifier

/-- The text after a dot with blanks allowed around it. -/
def dot? (t : Text) : Option Text :=
  match skipBlanks t with
  | '.' :: r => some (skipBlanks r)
  | _ => none

def opensCall (t : Text) : Bool := (skipBlanks t).head? == some '('

/-- A name that may have a qualifier in front of it. -/
structure QualifiedName where
  qualifier : Option Identifier
  name : Identifier
  onward : Text
  rest : Text

/-- Reads `qualifier.name` or a name alone. -/
def QualifiedName.read? (isStart : Char → Bool) (t : Text) : Option QualifiedName := do
  let (first, r) ← Identifier.read? isStart t
  let alone : QualifiedName := ⟨none, first, t, r⟩
  match dot? r with
  | none => return alone
  | some r =>
    match Identifier.read? isStart r with
    | none => return alone
    | some (second, rest) => return ⟨some first, second, r, rest⟩

end QueryGate
