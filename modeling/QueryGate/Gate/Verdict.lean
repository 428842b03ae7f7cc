import QueryGate.Gate.Existence
import QueryGate.Gate.Structure

/-!
# Verdict

The three tiers in turn; the first that rejects the query decides.
-/

namespace QueryGate

/-- What the whole gate says of a query. -/
def checkQuery (parser : Parser) (cap : RowCap) (tables : List Table) (sql : Text) :
    Except Fault Outcome :=
  let wording := checkWording sql
  if !wording.isValid then .ok wording
  else do
    let structural ← checkStructure parser cap sql
    if !structural.isValid then return structural
    else return checkExistence tables sql

end QueryGate
