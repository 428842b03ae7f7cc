import QueryGate.Text.Basic

/-!
# Character ranges

A property of characters is given by the ranges of code points that have it, both ends included.
-/

namespace QueryGate

/-- Ranges of code points, both ends included. -/
abbrev CharRanges := List (Nat × Nat)

/-- Whether a character lies in one of the ranges. -/
def CharRanges.has (ranges : CharRanges) (c : Char) : Bool :=
  ranges.any fun r => r.1 ≤ c.toNat && c.toNat ≤ r.2

end QueryGate
