import QueryGate.ErrorKind

/-!
# Outcomes of the gate

Three tiers look at a query in turn: its wording, its structure, and the tables it names. The first
rule that is violated decides.
-/

namespace QueryGate

/-- A stage of the gate. -/
inductive Tier
  | wording
  | structural
  | schema
deriving DecidableEq, Repr

def Tier.number : Tier → Nat
  | .wording => 1
  | .structural => 2
  | .schema => 3

/-- The kind of error that a tier reports. -/
def Tier.errorKind : Tier → ErrorKind
  | .wording => .syntaxSafety
  | .structural => .structural
  | .schema => .schemaResolution

/-- A rule that a query violates. -/
inductive Violation
  | emptyQuery
  | doubleDot
  | incompleteWhere
  | forbiddenWord (word : Text)
  | suspicious
  | noStatement
  | severalStatements
  | transaction
  | limitTooHigh (limit : Nat) (cap : Text)
  | forbiddenInSubquery (word : Text)
  | missingFromGroup (columns : List Text)
  | systemTable (name : Text)
  | unknownTable (name : Text) (known : List Text)
deriving DecidableEq, Repr

/-- The words that a statement may begin with. -/
def statementWords : List Text :=
  ["SELECT", "INSERT", "UPDATE", "DELETE", "CREATE", "ALTER", "DROP", "TRUNCATE"]

def listedTables : Nat := 10

def Violation.message : Violation → Text
  | .emptyQuery => "SQL query is empty."
  | .doubleDot =>
    "SQL contains invalid syntax \"..\" (double dots). This is not valid SQL syntax."
  | .incompleteWhere =>
    "SQL contains incomplete WHERE clause. All comparisons must have both sides "
      ++ "(e.g., \"WHERE state = 'TX'\", not \"WHERE state =\")."
  | .forbiddenWord word =>
    "Query contains forbidden keyword: " ++ word ++ ". Only data queries are allowed."
  | .suspicious =>
    "Query contains suspicious patterns that are not allowed "
      ++ "(comments, system catalogs or stored procedures)."
  | .noStatement =>
    "Query must start with a valid SQL statement: " ++ Text.join ", " statementWords ++ ['.']
  | .severalStatements =>
    "Query must contain only a single SQL statement (no chained statements)."
  | .transaction =>
    "Transaction control statements (BEGIN, COMMIT, ROLLBACK) are not allowed."
  | .limitTooHigh limit cap =>
    "LIMIT value (" ++ Text.ofNat limit ++ ") exceeds maximum allowed (" ++ cap ++ ")."
  | .forbiddenInSubquery word => "Subquery contains forbidden operation: " ++ word ++ ['.']
  | .missingFromGroup columns =>
    "Columns in SELECT must appear in GROUP BY clause when using aggregate functions. Missing: "
      ++ Text.join ", " columns
      ++ ". Add them to GROUP BY or use them in an aggregate function."
  | .systemTable name =>
    "Query references system table \"" ++ name ++ "\" which is not allowed."
  | .unknownTable name known =>
    "Table \"" ++ name ++ "\" does not exist in the database schema. "
      ++ if known.isEmpty then ("No tables are available." : Text)
        else "Available tables: " ++ Text.join ", " (known.take listedTables)
          ++ (if listedTables < known.length then
              " and " ++ Text.ofNat (known.length - listedTables) ++ " more"
            else [])
          ++ ['.']

/-- What the gate says of a query. -/
inductive Outcome
  /-- Every rule of the tier is kept; the SQL may have been corrected. -/
  | accepted (tier : Tier) (corrected : Option Text) (notes : List Text)
  | rejected (tier : Tier) (violation : Violation)
deriving DecidableEq, Repr

namespace Outcome

def isValid : Outcome → Bool
  | .accepted .. => true
  | .rejected .. => false

def tier : Outcome → Tier
  | .accepted t .. => t
  | .rejected t _ => t

def error? : Outcome → Option Text
  | .accepted .. => none
  | .rejected _ v => some v.message

def errorKind? : Outcome → Option ErrorKind
  | .accepted .. => none
  | .rejected t _ => some t.errorKind

/-- The SQL with corrections, if there are any. -/
def corrected? : Outcome → Option Text
  | .accepted _ c _ => c
  | .rejected .. => none

def notes : Outcome → List Text
  | .accepted _ _ n => n
  | .rejected .. => []

/-- The SQL that goes on: the corrected one if there is any. -/
def finalSql (o : Outcome) (sql : Text) : Text :=
  match o.corrected? with
  | some c => if c.isEmpty then sql else c
  | none => sql

end Outcome

end QueryGate
