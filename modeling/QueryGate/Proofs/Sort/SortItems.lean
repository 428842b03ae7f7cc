import QueryGate.NumericSort
import QueryGate.Proofs.Sql.ListItems

/-!
# The items of sort lists

The sort items of a query are the items of the lists behind each `ORDER BY` outside literals and
names in quotes (`sortItems`).
-/

namespace QueryGate

/-- Words that end a list of sort keys. -/
def sortListEnds : List Text := ["LIMIT", "OFFSET", "FETCH"]

/-- The items of the lists behind `ORDER BY`. Neither words nor commas nor parentheses count where
they stand in a literal or in a name in quotes. -/
def sortItems (sql : Text) : List Span :=
  let masked := maskLiterals sql
  let blotted := maskQuoted masked
  (hits orderBy blotted).flatMap fun h =>
    let stop := clauseEnd blotted h.stop sortListEnds
    (spansBetween h.stop (topLevelCommas 0 h.stop (Text.slice blotted h.stop stop)) stop).filterMap
      (trimSpan? masked)

end QueryGate
