import QueryGate.Matching.Match
import QueryGate.Sql.ColumnRef
import QueryGate.Sql.TableRef
import QueryGate.Text.Dictionary
import QueryGate.Text.Edit

/-!
# Repair of names

A name in SQL that does not exist but matches one that does is replaced by it. Four passes look at
the names, each at the text that the one before it left: tables, columns with a qualifier, columns
in quotes, and bare names in select lists. Nothing else in the text changes. Names that the query
declares itself are never looked up.
-/

namespace QueryGate

/-- The names that exist: tables, and the columns of each by the table's name in small letters. -/
structure KnownNames where
  tables : List Text
  columns : Dictionary (List Text)

/-- A replacement of a name, with the line that tells of it. -/
structure Correction where
  edit : Edit
  note : Text
deriving DecidableEq, Repr

/-- A repaired text with the lines that tell what was replaced. -/
structure Repaired where
  sql : Text
  notes : List Text
deriving DecidableEq, Repr

namespace KnownNames

/-- The known names of tables and of their columns. -/
def of (tables : List Text) (columns : Dictionary (List Text)) : KnownNames :=
  ⟨tables, Dictionary.ofEntries (columns.map fun e => (lower e.1, e.2))⟩

/-- The columns of some tables, each once. -/
def columnsOf (k : KnownNames) (tables : List Text) : List Text :=
  distinct (tables.flatMap fun t => (Dictionary.find? (lower t) k.columns).getD [])

/-- The columns of every table, each once. -/
def allColumns (k : KnownNames) : List Text := k.columnsOf (Dictionary.keys k.columns)

/-- The columns of some tables, or of all if these have none. -/
def candidateColumns (k : KnownNames) (tables : List Text) : List Text :=
  let columns := k.columnsOf tables
  if columns.isEmpty then k.allColumns else columns

end KnownNames

namespace Repair

def note (what : Text) (candidate : Text) (m : NameMatch) : Text :=
  what ++ ": " ++ arrow candidate m.name ++ " (" ++ m.reason candidate ++ [')']

/-- The replacement of the name at a place by the known name it matches, unless it denotes that
already. -/
def correction? (what : Text) (i : Identifier) (s : Span) (known : List Text) (context : Text) :
    Option Correction :=
  match matchName i.name known context with
  | none => none
  | some m =>
    if i.effective = m.name then none
    else some ⟨⟨s.start, s.stop, renderName m.name i.quoted⟩, note what i.name m⟩

def apply (sql : Text) (corrections : List Correction) : Text :=
  applyEdits sql (corrections.map (·.edit))

/-! ## Tables -/

/-- The known table that a reference is taken for, or the name as written. -/
def resolvedTable (k : KnownNames) (context : Text) (r : TableRef) : Text :=
  ((matchName r.name k.tables context).map (·.name)).getD r.name

/-- Names and aliases, in small letters, with the tables they stand for, the latest first. -/
abbrev Bindings := Dictionary Text

/-- What the references of a text bind: each its name, the table it is taken for, and its alias. -/
def bindings (k : KnownNames) (context : Text) (refs : List TableRef) : Bindings :=
  refs.foldl (fun bound r =>
    let table := resolvedTable k context r
    let bound := (lower table, table) :: (lower r.name, table) :: bound
    match r.aliasName with
    | some a => (lower a, table) :: bound
    | none => bound) []

/-- The corrections of table names. -/
def tableCorrections (k : KnownNames) (context : Text) (refs : List TableRef) : List Correction :=
  refs.filterMap fun r => correction? "Table" r.identifier ⟨r.start, r.stop⟩ k.tables context

/-! ## Columns with a qualifier -/

/-- The correction of the column of a qualified name, given the table that the qualifier means. -/
def columnCorrection? (k : KnownNames) (context : Text) (q : QualifiedRef) (table : Text) :
    Option Correction :=
  if !q.column.quoted && isReserved q.column.name then none
  else correction? "Column" q.column q.columnSpan (k.columnsOf [table]) context

/-- The corrections of one qualified name. A qualifier that is bound to nothing is itself taken
for a misspelt table. -/
def qualifiedCorrections (k : KnownNames) (context : Text) (bound : Bindings) (q : QualifiedRef) :
    List Correction :=
  match Dictionary.find? (lower q.qualifier.name) bound with
  | some table => (columnCorrection? k context q table).toList
  | none =>
    if isReserved q.qualifier.name then []
    else match matchName q.qualifier.name k.tables context with
      | none => []
      | some m =>
        (correction? "Table" q.qualifier q.qualifierSpan k.tables context).toList
          ++ (columnCorrection? k context q m.name).toList

/-! ## Columns in quotes -/

/-- The corrections of quoted names that are neither tables nor aliases. -/
def quotedCorrections (k : KnownNames) (context masked : Text) (bound : Bindings)
    (columns : List Text) : List Correction :=
  let declared := declaredAliases masked
  (quotedNames masked).filterMap fun h =>
    let name := h.value
    if (Dictionary.find? (lower name) bound).isSome || declared.contains name
        || k.tables.any (fun t => lower t == lower name) then none
    else correction? "Column" ⟨name, true⟩ ⟨h.start, h.stop⟩ columns context

/-! ## Bare names in select lists -/

/-- The names, in small letters, that a query gives to its own outputs. -/
def outputNames (literalMasked masked : Text) : List Text :=
  let items := (selectItems masked).filterMap fun s => itemAlias? literalMasked s.start s.stop
  (declaredAliases literalMasked ++ closingAliases literalMasked ++ items).map lower

/-- The corrections of bare names in select lists. -/
def selectCorrections (context sql : Text) (bound : Bindings) (columns : List Text) :
    List Correction :=
  let literalMasked := maskLiterals sql
  let masked := maskQuoted literalMasked
  let columnNames := columns.map lower
  let outputs := (outputNames literalMasked masked).filter (!columnNames.contains ·)
  (distinct (selectedNames masked)).filterMap fun h =>
    let name := h.value
    if isReserved name || (Dictionary.find? (lower name) bound).isSome || name.length < 2
        || outputs.contains (lower name) then none
    else correction? "Column" ⟨name, false⟩ ⟨h.start, h.stop⟩ columns context

end Repair

open Repair in
/-- A text with the names in it repaired. -/
def repair (k : KnownNames) (sql : Text) : Repaired :=
  if allBlank sql then ⟨sql, []⟩
  else
    let context := sql
    let refs := tableRefs sql
    let bound := bindings k context refs
    let tables := tableCorrections k context refs
    let sql := apply sql tables
    let qualified :=
      (qualifiedRefs (maskLiterals sql)).flatMap (qualifiedCorrections k context bound)
    let sql := apply sql qualified
    let columns := k.candidateColumns (distinct (refs.map (resolvedTable k context)))
    let quoted := quotedCorrections k context (maskLiterals sql) bound columns
    let sql := apply sql quoted
    let bare := selectCorrections context sql bound columns
    ⟨apply sql bare, (tables ++ qualified ++ quoted ++ bare).map (·.note)⟩

end QueryGate
