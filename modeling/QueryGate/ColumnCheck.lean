import QueryGate.Schema.Table
import QueryGate.Sql.ColumnRef
import QueryGate.Sql.TableRef
import QueryGate.Text.Dictionary

/-!
# Existence of columns

After the gate has passed a query, every column it names has to exist: in the table of its
qualifier, or for a column without one in any of the tables the query names. Names that the query
declares itself are exempt, and so are reserved words and names of one letter.
-/

namespace QueryGate

/-- What a check of columns found, with the names it compared with. -/
structure ColumnReport where
  unknownTables : List Text
  unknownColumns : List Text
  tables : List Text
  available : List Text
deriving DecidableEq, Repr

namespace ColumnReport

def clean : ColumnReport := ⟨[], [], [], []⟩

def isValid (r : ColumnReport) : Bool := r.unknownTables.isEmpty && r.unknownColumns.isEmpty

/-- Names with commas between them, or a word for none. -/
def listed (names : List Text) : Text :=
  let joined := Text.join ", " names
  if joined.isEmpty then "none" else joined

/-- What is said of unknown names. Unknown tables go before unknown columns. -/
def error? (r : ColumnReport) : Option Text :=
  if r.isValid then none
  else if !r.unknownTables.isEmpty then
    some ("Table(s) not found: " ++ Text.join ", " r.unknownTables ++ ". Available tables: "
      ++ listed r.tables ++ ['.'])
  else
    some ("Column(s) not found: " ++ Text.join ", " r.unknownColumns ++ ". Available columns: "
      ++ listed r.available ++ ['.'])

end ColumnReport

namespace ColumnCheck

/-- Names that are customary for the number of a row. -/
def windowAliases : List Text := ["rn", "row_num", "rank", "dense_rank"]

/-- Table names and aliases, in small letters, with the tables they stand for, the latest first. -/
abbrev Bindings := Dictionary (Option Table)

/-- What the references of a query bind. -/
def bindings (tables : List Table) (refs : List TableRef) : Bindings :=
  refs.foldl (fun bound r =>
    let table := findTable? tables r.name
    let bound := (lower r.name, table) :: bound
    match r.aliasName with
    | some a => (lower a, table) :: bound
    | none => bound) []

/-- The names, in small letters, that a query declares itself. -/
def declaredNames (masked maskedAll : Text) : List Text :=
  let items := (selectItems maskedAll).filterMap fun s => itemAlias? masked s.start s.stop
  windowAliases ++ (declaredAliases masked ++ closingAliases masked ++ items).map lower

/-! ## Columns without a qualifier -/

/-- Words that end a condition. -/
def conditionEnds : List Text := ["GROUP", "ORDER", "HAVING", "LIMIT", "OFFSET", "UNION"]

/-- The names on the left of comparisons in conditions. -/
def conditionNames (maskedAll : Text) : List Text :=
  (hits (oneWord ["WHERE", "HAVING"]) maskedAll).flatMap fun h =>
    comparedNames maskedAll h.stop (clauseEnd maskedAll h.stop conditionEnds)

/-- Words that end a list of groups or of sort keys. -/
def listEnds : List Text := ["HAVING", "ORDER", "LIMIT", "OFFSET", "UNION", "WINDOW"]

/-- Reads `GROUP BY` or `ORDER BY`. -/
def groupOrOrder : Reading Unit := fun before after =>
  if atWordStart before then
    (((keywords? "GROUP" "BY" after).filter atWordEnd)
      <|> ((keywords? "ORDER" "BY" after).filter atWordEnd)).map fun rest => ((), rest)
  else none

/-- The bare names in lists of groups and of sort keys. -/
def listNames (maskedAll : Text) : List Text :=
  (hits groupOrOrder maskedAll).flatMap fun h =>
    (bareNames maskedAll h.stop (clauseEnd maskedAll h.stop listEnds)).map (·.value)

/-- The names that have to be columns of some table of the query. -/
def candidates (masked maskedAll : Text) : List Text :=
  (quotedNames masked).map (·.value) ++ (selectedNames maskedAll).map (·.value)
    ++ conditionNames maskedAll ++ listNames maskedAll

/-! ## Columns with a qualifier -/

/-- The columns that the tables of their qualifiers do not have. A qualifier that stands for no
known table is passed over. -/
def qualifiedMisses (masked : Text) (bound : Bindings) : List Text :=
  (qualifiedRefs masked).filterMap fun q =>
    match Dictionary.find? (lower q.qualifier.name) bound with
    | some (some table) => if (table.column? q.column.name).isNone then some q.column.name else none
    | _ => none

end ColumnCheck

open ColumnCheck in
/-- Checks the columns of a query. -/
def checkColumns (tables : List Table) (sql : Text) : ColumnReport :=
  if allBlank sql then .clean
  else
    let masked := maskLiterals sql
    let maskedAll := maskQuoted masked
    let refs := tableRefs sql
    let bound := bindings tables refs
    let referenced := distinct (refs.filterMap fun r => findTable? tables r.name)
    let available := columnNamesOf (if referenced.isEmpty then tables else referenced)
    let exempt := declaredNames masked maskedAll ++ Dictionary.keys bound
    let known := available.map lower
    let missing := (candidates masked maskedAll).filter fun name =>
      !exempt.contains (lower name) && !isReserved name && !name.length < 2
        && !known.contains (lower name)
    { unknownTables :=
        distinct ((refs.filter fun r => (findTable? tables r.name).isNone).map (·.name))
      unknownColumns := distinct (missing ++ qualifiedMisses masked bound)
      tables := tables.map (·.name)
      available := available }

end QueryGate
