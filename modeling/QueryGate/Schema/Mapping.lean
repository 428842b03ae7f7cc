import QueryGate.Datum
import QueryGate.Fault
import QueryGate.Schema.Registry

/-!
# Schemas from plain data

A schema can be given as a mapping from table names to lists of columns, or as such a mapping
under the key `tables`. A column is a name, or a mapping with its name and perhaps its type and
whether it may be empty. Data that is no mapping at all describes no tables.
-/

namespace QueryGate

/-- The portable type of a declared one given as plain data. -/
def ColumnType.ofDatum : Datum → ColumnType
  | .null => .text
  | d => ColumnType.ofDeclared d.plainText

def Column.ofDatum : Datum → Except Fault Column
  | .mapping entries =>
    match Datum.entry? "name" entries with
    | none => .error (.missingField (quoted "name"))
    | some name =>
      .ok { name := name.plainText
            type := ColumnType.ofDatum ((Datum.entry? "type" entries).getD .null)
            nullable := ((Datum.entry? "nullable" entries).map Datum.holds).getD true }
  | d => .ok { name := d.plainText }

/-- The entries of a list of columns: of a text its characters, of a mapping its keys. -/
def columnEntries : Datum → Except Fault (List Datum)
  | .list items => .ok items
  | .text t => .ok (t.map fun c => .text [c])
  | .mapping entries => .ok (entries.map fun e => .text e.1)
  | d => .error (.notList d.kind)

def Table.ofDatum (name : Text) (d : Datum) : Except Fault Table := do
  let columns := match d with
    | .mapping entries => (Datum.entry? "columns" entries).getD (.list [])
    | d => d
  return ⟨name, ← (← columnEntries columns).mapM Column.ofDatum⟩

def tableEntries : Datum → Except Fault (List (Text × Datum))
  | .mapping entries =>
    match Datum.entry? "tables" entries with
    | none => .ok entries
    | some (.mapping tables) => .ok tables
    | some d => .error (.notMapping d.kind)
  | _ => .ok []

def Registry.ofDatum (d : Datum) : Except Fault Registry := do
  let tables ← (← tableEntries d).mapM fun e => Table.ofDatum e.1 e.2
  return Registry.ofTables tables

end QueryGate
