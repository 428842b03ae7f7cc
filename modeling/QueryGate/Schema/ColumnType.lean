import QueryGate.Text.Case
import QueryGate.Text.Digit
import QueryGate.Text.Keyword

/-!
# Column types

Six portable types stand for every type that a database declares. A declared type is recognised
by the words in it, or by the number under which a database's wire protocol knows it.
-/

namespace QueryGate

inductive ColumnType
  | boolean
  | integer
  | decimal
  | date
  | timestamp
  | text
deriving DecidableEq, Repr, Inhabited

namespace ColumnType

/-- Every type, in the order in which their names are tried. -/
def all : List ColumnType := [.boolean, .integer, .decimal, .date, .timestamp, .text]

def label : ColumnType → Text
  | .boolean => "boolean"
  | .integer => "integer"
  | .decimal => "decimal"
  | .date => "date"
  | .timestamp => "timestamp"
  | .text => "text"

def isNumeric (t : ColumnType) : Bool := t == .integer || t == .decimal

def ofLabel? (name : Text) : Option ColumnType := all.find? (·.label == name)

/-! ## Declared types -/

/-- The text after a word, in exactly these letters. -/
def exactly? (word t : Text) : Option Text :=
  if word.isPrefixOf t then some (t.drop word.length) else none

/-- Reads a whole word in exactly these letters. -/
def exactWord (word : Text) : Reading Unit := fun before after =>
  if atWordStart before then
    (exactly? word after).bind fun rest => if atWordEnd rest then some ((), rest) else none
  else none

def hasWord (word t : Text) : Bool := occurs (exactWord word) t

/-- Sizes that may stand in front of `int`. -/
def integerSizes : List Text := ["big", "small", "tiny", "medium"]

/-- Reads a word for an integer type: a size, `int` or `integer`, and digits. -/
def integerWord : Reading Unit := fun before after =>
  let bare (t : Text) : Option (Unit × Text) := do
    let t ← exactly? "int" t
    let finished (t : Text) : Option (Unit × Text) :=
      let rest := t.dropWhile isDecimalDigit
      if atWordEnd rest then some ((), rest) else none
    (exactly? "eger" t).bind finished <|> finished t
  if atWordStart before then
    (integerSizes.findSome? fun size => (exactly? size after).bind bare) <|> bare after
  else none

/-- Whether the text begins or ends with the word `date`. -/
def datesAtEdge (t : Text) : Bool :=
  ("date".toList.isPrefixOf t && atWordEnd (t.drop 4))
    || (("date" : Text).isSuffixOf t && atWordStart ((t.reverse).drop 4))

/-- Whether one of the texts occurs. -/
def mentions (parts : List Text) (t : Text) : Bool := parts.any fun p => Text.hasPart p t

/-- The type that a declaration in small letters without blanks around it names. -/
def ofDeclaration (t : Text) : ColumnType :=
  if hasWord "bool" t || hasWord "boolean" t then .boolean
  else if mentions ["timestamp", "datetime"] t then .timestamp
  else if datesAtEdge t then .date
  else if occurs integerWord t || hasWord "serial" t || hasWord "bigserial" t then .integer
  else if mentions
      (Text.ofStrings ["numeric", "decimal", "real", "double", "float", "money", "number"]) t then
    .decimal
  else .text

/-- The portable type of a declared one. A declaration that names no known type is text. -/
def ofDeclared (declared : Text) : ColumnType :=
  let t := lower (trim declared)
  if t.isEmpty then .text else (ofLabel? t).getD (ofDeclaration t)

/-! ## Types by number -/

/-- The types that have a number. -/
def numbered : List (Int × ColumnType) :=
  [(16, .boolean), (20, .integer), (21, .integer), (23, .integer), (26, .integer),
    (700, .decimal), (701, .decimal), (790, .decimal), (1700, .decimal), (1082, .date),
    (1114, .timestamp), (1184, .timestamp), (25, .text), (1042, .text), (1043, .text)]

/-- The type with a number; text if the number is unknown. -/
def ofNumber (n : Int) : ColumnType := ((numbered.find? (·.1 == n)).map (·.2)).getD .text

end ColumnType

end QueryGate
