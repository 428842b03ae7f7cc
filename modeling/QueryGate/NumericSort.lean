import QueryGate.Refusal
import QueryGate.Schema.Table
import QueryGate.Sql.ColumnRef
import QueryGate.Text.Edit

/-!
# Sorting numbers as numbers

Numbers that are stored as text sort as text, so that the answer to a question for the highest or
the lowest is wrong. Where a question asks for an extreme, the sort keys of the query that are
numbers, by type or by name, are cast. A list of sort keys that has a cast already is left alone.
-/

namespace QueryGate

/-! ## Questions for an extreme -/

/-- Phrases that ask for an extreme, word by word. -/
def extremePhrases : List (List Text) :=
  [["top"], ["highest"], ["most", "expensive"], ["largest"], ["biggest"], ["lowest"],
    ["smallest"], ["cheapest"], ["least", "expensive"], ["bottom"]]

/-- The text after a phrase, with blanks between its words. -/
def phrase? : (words : List Text) → Text → Option Text
  | [], t => some t
  | [word], t => keyword? word t
  | word :: next :: words, t =>
    (keyword? word t).bind spaced? |>.bind (phrase? (next :: words))

/-- Reads a phrase that asks for an extreme. -/
def extremePhrase : Reading Unit := fun before after =>
  if atWordStart before then
    extremePhrases.findSome? fun p => ((phrase? p after).filter atWordEnd).map ((), ·)
  else none

/-- Whether a question asks for an extreme. -/
def asksForExtreme (question : Text) : Bool := occurs extremePhrase question

/-! ## Names of numbers -/

/-- Words in the name of a column that hold a number. -/
def numericWords : List Text :=
  Text.ofStrings ["price", "amount", "total", "revenue", "cost", "score", "rating", "quantity",
    "stock", "count", "sum", "avg", "max", "min"]

/-- The words that make up a name: a capital begins a word, a row of capitals is one, and so is a
row of digits. Words are given in small letters; `steps` bounds their number. -/
def nameWords : (steps : Nat) → Text → List Text
  | 0, _ => []
  | _ + 1, [] => []
  | steps + 1, c :: t =>
    let small := t.takeWhile Char.isLower
    if c.isLower then (c :: small) :: nameWords steps (t.drop small.length)
    else if c.isUpper then
      if !small.isEmpty then (c.toLower :: small) :: nameWords steps (t.drop small.length)
      else
        let run := t.takeWhile Char.isUpper
        -- The last capital of a row begins a word if a small letter follows it.
        let run := if (t.drop run.length).head?.any Char.isLower then run.dropLast else run
        (c :: run).map Char.toLower :: nameWords steps (t.drop run.length)
    else if isDecimalDigit c then
      let run := t.takeWhile isDecimalDigit
      (c :: run) :: nameWords steps (t.drop run.length)
    else nameWords steps t

/-- Whether a sort key holds numbers: its column is of a numeric type, or it has the name of a
number and is not of a type that sorts well as it is. -/
def isNumericKey (columns : List Column) (name : Text) : Bool :=
  let byName := (nameWords name.length name).any numericWords.contains
  match columns.reverse.find? fun c => sameName c.name name with
  | some c => c.type.isNumeric || (c.type == .text && byName)
  | none => byName

/-! ## Sort keys -/

def orderBy : Reading Unit := fun before after =>
  if atWordStart before then ((keywords? "ORDER" "BY" after).filter atWordEnd).map ((), ·) else none

/-- The lists of sort keys that are in no parentheses. -/
def sortLists (masked : Text) : List Span :=
  ((hits orderBy masked).filter fun h =>
    (masked.take h.start).count '(' == (masked.take h.start).count ')').map fun h =>
      ⟨h.stop, clauseEnd masked h.stop ["LIMIT", "OFFSET", "FETCH"]⟩

/-- Reads `CAST` or its sign. -/
def castMark : Reading Unit := fun before after =>
  match after with
  | ':' :: ':' :: rest => some ((), rest)
  | _ => (wholeWord "CAST" before after).map fun r => ((), r.2)

/-- The text after a direction, if there is one. -/
def skipDirection (t : Text) : Text :=
  match spaced? t with
  | some r => (keyword? "ASC" r <|> keyword? "DESC" r).getD t
  | none => t

/-- The text after a rule for nulls, if there is one. -/
def skipNulls (t : Text) : Text :=
  match (spaced? t).bind (keyword? "NULLS") |>.bind spaced? with
  | some r => (keyword? "FIRST" r <|> keyword? "LAST" r).getD t
  | none => t

/-- Reads a sort key that is a column and nothing else: the column, and its direction and rule for
nulls as written. -/
def sortKey? (item : Text) : Option (Text × Text) := do
  let n ← QualifiedName.read? isFoldedNameStart item
  if atEnd (skipNulls (skipDirection n.rest)) then
    return (item.take (item.length - n.rest.length), n.rest)
  else none

/-- The name of the column that a sort key denotes: what follows the last dot. -/
def keyName (target : Text) : Text :=
  let last := (target.reverse.takeWhile (· != '.')).reverse
  let last := if target.contains '.' then skipBlanks last else last
  (Identifier.ofText last).name

/-- The replacement of a sort key, with the column that it casts. -/
structure Cast where
  target : Text
  edit : Edit
deriving DecidableEq, Repr

/-- The sort keys to cast. -/
def casts (columns : List Column) (sql : Text) : List Cast :=
  let masked := maskLiterals sql
  let declared := (declaredAliases masked).map lower
  let uncast := (sortLists masked).filter fun s =>
    !occurs castMark (Text.slice masked s.start s.stop)
  (uncast.flatMap fun s => topLevelItems masked s.start s.stop).filterMap fun s =>
    match sortKey? (Text.slice sql s.start s.stop) with
    | none => none
    | some (target, suffix) =>
      let name := keyName target
      let isColumn := columns.any fun c => sameName c.name name
      if (declared.contains (lower name) && !isColumn) || !isNumericKey columns name then none
      else
        some ⟨target, ⟨s.start, s.stop,
          "CAST(" ++ target ++ " AS DOUBLE PRECISION)" ++ suffix⟩⟩

/-- The columns that a query sorts by and that have to be cast. -/
def uncastKeys (columns : List Column) (sql : Text) : List Text :=
  (casts columns sql).map (·.target)

/-- The query with its numeric sort keys cast, if the question asks for an extreme. -/
def castSortKeys (columns : List Column) (question sql : Text) : Text :=
  if isRefusal sql || !asksForExtreme question then sql
  else applyEdits sql ((casts columns sql).map (·.edit))

end QueryGate
