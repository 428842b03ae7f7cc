import QueryGate.Schema.Table
import QueryGate.Text.Dictionary

/-!
# Registry of tables

Tables that were registered by hand. A table registered under a name that differs from a known one
in case only replaces it, in its place.
-/

namespace QueryGate

/-- Registered tables by their names in small letters. -/
structure Registry where
  entries : Dictionary Table

namespace Registry

def empty : Registry := ⟨[]⟩

def register (r : Registry) (t : Table) : Registry := ⟨Dictionary.put (lower t.name) t r.entries⟩

/-- The registry without a table, and whether there was one. -/
def unregister (r : Registry) (name : Text) : Registry × Bool :=
  (⟨Dictionary.erase (lower name) r.entries⟩, (Dictionary.find? (lower name) r.entries).isSome)

def ofTables (tables : List Table) : Registry := tables.foldl register empty

/-- The snapshot: the tables in the order in which their names were first registered. -/
def tables (r : Registry) : List Table := Dictionary.values r.entries

end Registry

/-- The columns of each table by the table's name. -/
def columnsByTable (tables : List Table) : Dictionary (List Text) :=
  Dictionary.ofEntries (tables.map fun t => (t.name, t.columnNames))

end QueryGate
