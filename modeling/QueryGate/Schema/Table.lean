import QueryGate.Schema.ColumnType

/-!
# Tables

A schema snapshot is a list of tables with their columns. Names are compared regardless of case.
-/

namespace QueryGate

structure Column where
  name : Text
  type : ColumnType := .text
  nullable : Bool := true
deriving DecidableEq, Repr

structure Table where
  name : Text
  columns : List Column
deriving DecidableEq, Repr

/-- Whether two names agree in small letters. -/
def sameName (a b : Text) : Bool := lower a == lower b

namespace Table

def columnNames (t : Table) : List Text := t.columns.map (·.name)

def column? (t : Table) (name : Text) : Option Column :=
  t.columns.find? fun c => sameName c.name name

end Table

/-- The last table with a name: of two that differ in case only, the later counts. -/
def findTable? (tables : List Table) (name : Text) : Option Table :=
  tables.reverse.find? fun t => sameName t.name name

/-- The names of the columns of several tables, each once. -/
def columnNamesOf (tables : List Table) : List Text := distinct (tables.flatMap (·.columnNames))

end QueryGate
