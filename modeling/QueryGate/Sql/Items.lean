import QueryGate.Text.Blank

/-!
# Items of a list

A list in SQL is split at its commas outside parentheses. Blanks around an item do not belong to
it, and an item of blanks only is none.
-/

namespace QueryGate

/-- The offsets of the commas at depth zero, for a text that begins at `offset` and `depth`. -/
def topLevelCommas (depth : Int) (offset : Nat) : Text → List Nat
  | [] => []
  | c :: t =>
    if c == '(' then topLevelCommas (depth + 1) (offset + 1) t
    else if c == ')' then topLevelCommas (depth - 1) (offset + 1) t
    else if c == ',' && depth == 0 then offset :: topLevelCommas depth (offset + 1) t
    else topLevelCommas depth (offset + 1) t

/-- The span without the blanks at its ends, unless nothing is left. -/
def trimSpan? (t : Text) (s : Span) : Option Span :=
  let body := Text.slice t s.start s.stop
  let start := s.start + (body.length - (skipBlanks body).length)
  let size := (trim body).length
  if size = 0 then none else some ⟨start, start + size⟩

/-- The spans between consecutive cuts. -/
def spansBetween (start : Nat) : (cuts : List Nat) → (stop : Nat) → List Span
  | [], stop => [⟨start, stop⟩]
  | cut :: cuts, stop => ⟨start, cut⟩ :: spansBetween (cut + 1) cuts stop

/-- The items between two offsets, blanks trimmed. -/
def topLevelItems (t : Text) (start stop : Nat) : List Span :=
  (spansBetween start (topLevelCommas 0 start (Text.slice t start stop)) stop).filterMap
    (trimSpan? t)

end QueryGate
