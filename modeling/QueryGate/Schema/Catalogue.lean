import QueryGate.Fault
import QueryGate.Schema.Mapping

/-!
# Catalogue of a database

The tables of a live database are read afresh for every snapshot: first the names, then the
columns of each table that is not hidden. A snapshot is complete or empty: whatever call fails,
none is made after it and no table is returned.
-/

namespace QueryGate

/-- A column as a database's catalogue describes it: its type as it is declared, and whether it may
be empty if the catalogue says so. -/
structure DeclaredColumn where
  name : Text
  type : Datum
  nullable : Option Datum

/-- The column that is described: one of which the catalogue does not say otherwise may be empty. -/
def DeclaredColumn.column (c : DeclaredColumn) : Column where
  name := c.name
  type := ColumnType.ofDatum c.type
  nullable := (c.nullable.map Datum.holds).getD true

/-- How a catalogue answers, `none` for a call that fails. -/
structure Inspector where
  tableNames : (schema : Option Text) → Option (List Text)
  columns : (table : Text) → (schema : Option Text) → Option (List DeclaredColumn)

/-- A question put to a catalogue. -/
inductive CatalogueCall
  | tableNames (schema : Option Text)
  | columns (table : Text) (schema : Option Text)
deriving DecidableEq, Repr

/-- A database with the schema whose tables are shown. -/
structure Catalogue where
  dialect : Text
  schema : Option Text

namespace Catalogue

/-- Schemas that belong to a database system. -/
def systemSchemas : List Text :=
  ["information_schema", "pg_catalog", "pg_toast", "mysql", "sys", "performance_schema"]

/-- What the names of hidden tables begin with, in small letters. -/
def hiddenPrefixes : List Text := ["pg_", "_prisma"]

def isHidden (name : Text) : Bool := hiddenPrefixes.any (·.isPrefixOf (lower name))

/-- The catalogue of a schema, unless it is one of the system's. -/
def of (dialect : Text) (schema : Option Text) : Except Fault Catalogue :=
  match schema with
  | none => .ok ⟨dialect, none⟩
  | some name =>
    if systemSchemas.contains (lower name) then .error (.systemSchema name)
    else .ok ⟨dialect, some name⟩

/-- The schema that the database is asked for: an embedded database has none. -/
def askedSchema (c : Catalogue) : Option Text :=
  c.schema.filter fun name => !name.isEmpty && c.dialect ≠ "sqlite"

/-- The columns of tables in turn, with the calls made, up to the first that fails. -/
def readTables (i : Inspector) (schema : Option Text) :
    List Text → Option (List Table) × List CatalogueCall
  | [] => (some [], [])
  | name :: names =>
    let call := CatalogueCall.columns name schema
    match i.columns name schema with
    | none => (none, [call])
    | some columns =>
      let (tables, calls) := readTables i schema names
      (tables.map (⟨name, columns.map DeclaredColumn.column⟩ :: ·), call :: calls)

/-- The snapshot of a catalogue, with the calls made for it. -/
def snapshot (c : Catalogue) (i : Inspector) : List Table × List CatalogueCall :=
  let schema := c.askedSchema
  let call := CatalogueCall.tableNames schema
  match i.tableNames schema with
  | none => ([], [call])
  | some names =>
    let (tables, calls) := readTables i schema (names.filter (!isHidden ·))
    (tables.getD [], call :: calls)

end Catalogue

end QueryGate
