import QueryGate.Matching.EditDistance
import QueryGate.Number.Shortest
import QueryGate.Text.Case

/-!
# Scores

A score is a number with 53 significant bits, held as the exact rational that it is; every
operation on scores rounds once. The similarity of two names is one less the share of characters
that an edit of the small letters changes.
-/

namespace QueryGate

abbrev Score := Rat

namespace Score

/-- The score nearest to a decimal fraction. -/
def ofRatio (num den : Nat) : Score := Binary64.round (mkRat num den)

def exact : Score := 1

def plural : Score := ofRatio 95 100

/-- The score of a name that contains the other. -/
def part : Score := ofRatio 85 100

def synonym : Score := ofRatio 8 10

/-- A name that contains the other has to be more similar than this. -/
def partThreshold : Score := ofRatio 1 2

/-- A name has to be at least this similar to be taken for a misspelling. -/
def threshold : Score := ofRatio 6 10

/-- What a mention in the context adds to a similarity. -/
def mentionBonus : Score := ofRatio 1 10

/-- The greatest score of a match that is not exact. -/
def greatestInexact : Score := ofRatio 99 100

def plus (a b : Score) : Score := Binary64.round (a + b)

/-- The score as a whole percentage; a half goes to the even neighbour. -/
def percent (s : Score) : Nat :=
  let x := Binary64.round (s * 100)
  roundDiv x.num.toNat x.den

/-- The score with four decimal places. -/
def toPlaces (s : Score) : Score := ofRatio (roundDiv (s.num.toNat * 10000) s.den) 10000

def text (s : Score) : Text := (Binary64.ofRat s).text

end Score

/-- One less the edit distance of the small letters over the length of the longer name. -/
def similarity (a b : Text) : Score :=
  let longest := max a.length b.length
  if longest = 0 then 1
  else Binary64.round (1 - Binary64.round (mkRat (editDistance (lower a) (lower b)) longest))

end QueryGate
