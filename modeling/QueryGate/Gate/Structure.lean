import QueryGate.Gate.Grouping
import QueryGate.Gate.RowCap
import QueryGate.Gate.Wording
import QueryGate.Sql.Subquery
import QueryGate.Sql.TableRef

/-!
# Structure

The second tier looks at the parts of a query: no `LIMIT` above the cap, no forbidden word in a
subquery, agreement of `SELECT` and `GROUP BY`, and no table of the database system.
-/

namespace QueryGate

namespace Structure

/-- Reads `LIMIT` and a number; the value is the digits. -/
def limitNumber : Reading Text := fun before after =>
  if atWordStart before then
    match (keyword? "LIMIT" after).bind spaced? with
    | some t =>
      let digits := t.takeWhile isDecimalDigit
      if digits.isEmpty then none else some (digits, t.dropWhile isDecimalDigit)
    | none => none
  else none

/-- The first of the limits, given as digits, that is above the cap. -/
def limitAbove? (cap : RowCap) : List Text → Except Fault (Option Nat)
  | [] => .ok none
  | digits :: more => do
    let n ← readDigits digits
    if cap.rows < n then return some n else limitAbove? cap more

/-- Schemas that belong to a database system. -/
def systemSchemas : List Text :=
  ["information_schema", "pg_catalog", "pg_toast", "sys", "master"]

/-- Whether a reference names a table of the database system. -/
def namesSystemTable (r : TableRef) : Bool :=
  r.schema.any (fun s => systemSchemas.contains (lower s))
    || systemSchemas.contains (lower r.name)
    || ("pg_" : Text).isPrefixOf (lower r.name)

/-- The first forbidden word in a subquery. A walk that is broken off counts only if there is none in
what it found. -/
def forbiddenInSubquery? (walk : Walk) : Except Fault (Option Text) :=
  match walk.found.findSome? fun s => Wording.forbiddenWord? (maskLiterals s) with
  | some word => .ok (some word)
  | none =>
    match walk.fault? with
    | some fault => .error fault
    | none => .ok none

/-- The first rule that a text violates. -/
def violation? (parser : Parser) (cap : RowCap) (sql : Text) :
    Except Fault (Option Violation) := do
  let masked := maskLiterals sql
  match ← limitAbove? cap ((hits limitNumber masked).map (·.value)) with
  | some limit => return some (.limitTooHigh limit cap.shown)
  | none =>
  match ← forbiddenInSubquery? (parser.subqueries sql) with
  | some word => return some (.forbiddenInSubquery word)
  | none =>
  match ← ungroupedColumns sql masked with
  | c :: columns => return some (.missingFromGroup (c :: columns))
  | [] => return ((tableRefs sql).find? namesSystemTable).map fun r => .systemTable r.name

end Structure

/-- The second tier. -/
def checkStructure (parser : Parser) (cap : RowCap) (sql : Text) : Except Fault Outcome := do
  match ← Structure.violation? parser cap sql with
  | some v => return .rejected .structural v
  | none => return .accepted .structural none []

end QueryGate
