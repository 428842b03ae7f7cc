import QueryGate.Text.Keyword

/-!
# Clauses

A clause ends where its parenthesis closes, at a semicolon, or at a word that begins the next
clause, all at the depth of parentheses where it began.
-/

namespace QueryGate

/-- Whether one of `words` stands at a place where a word begins. With no words given, any word
does. -/
def beginsClause (words : List Text) (before after : Text) : Bool :=
  atWordStart before &&
    if words.isEmpty then !atWordEnd after else (oneWord words before after).isSome

/-- The offset where a clause ends, from a place at `depth` parentheses inside it. -/
def clauseEndFrom (words : List Text) (before : Text) (depth : Nat) : Text → Nat
  | [] => before.length
  | c :: after =>
    if c == '(' then clauseEndFrom words (c :: before) (depth + 1) after
    else if c == ')' then
      if depth = 0 then before.length else clauseEndFrom words (c :: before) (depth - 1) after
    else if c == ';' && depth == 0 then before.length
    else if depth == 0 && beginsClause words before (c :: after) then before.length
    else clauseEndFrom words (c :: before) depth after

/-- The offset where the clause that begins at `start` ends, before any of `words`. -/
def clauseEnd (t : Text) (start : Nat) (words : List Text) : Nat :=
  clauseEndFrom words (t.take start).reverse 0 (t.drop start)

/-- Words that end the list of a `SELECT`. -/
def selectListEnds : List Text :=
  ["FROM", "WHERE", "GROUP", "ORDER", "LIMIT", "HAVING", "UNION", "INTERSECT", "EXCEPT"]

/-- The span of every select list, from the word `SELECT` to the clause after the list. -/
def selectLists (masked : Text) : List Span :=
  (hits (wholeWord "SELECT") masked).map fun h => ⟨h.stop, clauseEnd masked h.stop selectListEnds⟩

end QueryGate
