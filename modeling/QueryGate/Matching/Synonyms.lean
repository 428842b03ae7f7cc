import QueryGate.Matching.NormalForm

/-!
# Synonyms

Words that name the same kind of column. A name belongs with every group that holds it.
-/

namespace QueryGate

/-- Groups of words that mean the same, the leading word first. -/
def synonymGroups : List (List Text) :=
  [Text.ofStrings ["city", "town", "cities", "towns", "urban", "municipality"],
    Text.ofStrings ["name", "title", "label", "identifier"],
    Text.ofStrings ["amount", "total", "sum", "value", "price", "cost", "revenue"],
    Text.ofStrings ["date", "time", "timestamp", "created", "updated", "when"],
    Text.ofStrings ["count", "number", "quantity", "num"],
    Text.ofStrings ["id", "identifier", "key", "pk"]]

/-- The words that mean the same as a name. -/
def synonyms (name : Text) : List Text :=
  (synonymGroups.filter (·.contains (normalForm name))).flatten

end QueryGate
