import QueryGate.Schema.Table

/-!
# A schema in words

The description of a schema that is given to whoever writes the SQL: one line per table, names
that need it in quotes.
-/

namespace QueryGate

namespace Prompt

/-- Whether a name is shown in quotes: it holds something other than small ASCII letters, digits
and underscores. -/
def showsQuotes (name : Text) : Bool := name.any fun c => !(c.isLower || c.isDigit || c == '_')

def columnName (name : Text) : Text := if showsQuotes name then '"' :: name ++ ['"'] else name

def column (c : Column) : Text := columnName c.name ++ ':' :: c.type.label

def table (t : Table) : Text := t.name ++ '(' :: Text.join ", " (t.columns.map column) ++ [')']

/-- How many tables are shown of `total` when at most `most` are asked for; a negative number
leaves out that many at the end. -/
def shownCount (most : Int) (total : Nat) : Nat :=
  if most < 0 then ((total : Int) + most).toNat else min most.toNat total

def heading : Text := "SCHEMA (use EXACT column names as shown):"

def advice : Text :=
  "CRITICAL: Use EXACT column names from above. "
    ++ "PostgreSQL is case-sensitive for quoted identifiers."

end Prompt

def describeSchema (tables : List Table) (most : Int) : Text :=
  let shown := tables.take (Prompt.shownCount most tables.length)
  let remaining := tables.length - shown.length
  let more : List Text :=
    if remaining = 0 then [] else ["... and " ++ Text.ofNat remaining ++ " more tables"]
  Text.join ['\n'] ([Prompt.heading] ++ shown.map Prompt.table ++ more ++ [[], Prompt.advice])

end QueryGate
