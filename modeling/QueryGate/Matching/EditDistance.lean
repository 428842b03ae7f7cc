import QueryGate.Text.Basic

/-!
# Edit distance

The least number of insertions, deletions and substitutions of one character that turn one text
into another, computed row by row. The row of a text holds its distances to the beginnings of the
other text, the shortest first. A row is filled from its first cell on, each cell from the one
before it and from two of the row before, so that no more than two rows are kept.
-/

namespace QueryGate

/-- The cell that follows in a row, the one with number `j`: the row is that of a text which ends
with `x`, and the cell is about a beginning which ends with `y`. -/
def nextCell (x : Char) (previous current : List Nat) (y : Char) (j : Nat) : Nat :=
  let cost := if x = y then 0 else 1
  min (min (previous.getD j 0 + 1) (current.getD (j - 1) 0 + 1)) (previous.getD (j - 1) 0 + cost)

/-- The row of a text of `i` characters that ends with `x`, from the row of the text before `x`. -/
def nextRow (b : Text) (previous : List Nat) (x : Char) (i : Nat) : List Nat :=
  (b.zipIdx 1).foldl (fun current (y, j) => current ++ [nextCell x previous current y j]) [i]

/-- The row of all of `a`. The row of the empty text is the first. -/
def lastRow (a b : Text) : List Nat :=
  (a.zipIdx 1).foldl (fun previous (x, i) => nextRow b previous x i) (List.range (b.length + 1))

def editDistance (a b : Text) : Nat :=
  if a = b then 0
  else if a.isEmpty then b.length
  else if b.isEmpty then a.length
  else (lastRow a b).getLastD 0

theorem editDistance_nil_left (b : Text) : editDistance [] b = b.length := by
  cases b <;> rfl

theorem editDistance_nil_right (a : Text) : editDistance a [] = a.length := by
  cases a <;> rfl

end QueryGate
