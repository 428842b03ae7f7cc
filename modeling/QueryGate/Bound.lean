import QueryGate.Gate.RowCap
import QueryGate.Sql.Literal
import QueryGate.Text.Digit
import QueryGate.Text.Keyword

/-!
# Bounding a query

Every `SELECT` that runs has an outer bound no greater than the row cap. The bound is the last
clause: `LIMIT n`, `LIMIT ALL`, or the long form `FETCH FIRST n ROWS ONLY`. A bound above the cap
is lowered to it; where there is none, `LIMIT` and the cap go to the end, before an `OFFSET` if
that comes last. Anything but a `SELECT` is left alone.
-/

namespace QueryGate

/-! ## Reading the outer bound -/

/-- The digits at the head of a text, at least one, and what follows them. -/
def digits? (t : Text) : Option (Text × Text) :=
  let ds := t.takeWhile isDecimalDigit
  if ds.isEmpty then none else some (ds, t.dropWhile isDecimalDigit)

/-- The text after `ROW` or `ROWS`. -/
def rows? (t : Text) : Option Text := keyword? "ROWS" t <|> keyword? "ROW" t

/-- Whether a text is over but for blanks, perhaps after blanks and `ROW` or `ROWS`. -/
def endsWithRows (t : Text) : Bool :=
  allBlank t || ((spaced? t).bind rows?).any allBlank

/-- Whether an offset is all that follows blanks. -/
def isOffset (t : Text) : Bool :=
  ((spaced? t).bind (keyword? "OFFSET") |>.bind spaced? |>.bind digits?).any fun d =>
    endsWithRows d.2

/-- The number of rows that a bound asks for, as written, with its offsets. -/
structure WrittenBound where
  /-- The digits, or the word `ALL`, or nothing. -/
  written : Text
  span : Span
deriving DecidableEq, Repr

/-- Reads `LIMIT` and its number or `ALL`, where at most an offset follows. -/
def trailingLimit : Reading WrittenBound := fun before after =>
  if atWordStart before then do
    let t ← (keyword? "LIMIT" after).bind spaced?
    let start := offsetOf before after t
    let (written, rest) ←
      digits? t <|> (keyword? "ALL" t).map fun rest => (t.take (t.length - rest.length), rest)
    if allBlank rest || isOffset rest then
      return (⟨written, ⟨start, start + written.length⟩⟩, [])
    else none
  else none

/-- The text after `ONLY` or `WITH TIES`. -/
def fetchEnd? (t : Text) : Option Text := keyword? "ONLY" t <|> keywords? "WITH" "TIES" t

/-- Reads `FETCH FIRST` or `FETCH NEXT`, perhaps a number, and the rest of the clause, where nothing
follows. -/
def trailingFetch : Reading WrittenBound := fun before after =>
  if atWordStart before then do
    let t ← (keywords? "FETCH" "FIRST" after <|> keywords? "FETCH" "NEXT" after).bind spaced?
    let start := offsetOf before after t
    let finished (t : Text) : Bool := ((rows? t).bind spaced? |>.bind fetchEnd?).any allBlank
    match (digits? t).bind fun (ds, r) => (spaced? r).map (ds, ·) with
    | some (ds, r) => if finished r then return (⟨ds, ⟨start, start + ds.length⟩⟩, []) else none
    | none => if finished t then return (⟨[], ⟨start, start⟩⟩, []) else none
  else none

/-- Reads an offset that ends the text, with the blanks before it. -/
def trailingOffset : Reading Unit := fun _ after => if isOffset after then some ((), []) else none

/-! ## Bounding -/

/-- What was done to a query. -/
inductive BoundEffect
  /-- No `SELECT`: nothing. -/
  | notSelect
  /-- The bound was low enough. -/
  | within (limit : Nat)
  /-- The bound, none if it was `ALL`, was lowered to the cap. -/
  | lowered (asked : Option Nat)
  | added
deriving DecidableEq, Repr

structure Bounded where
  sql : Text
  effect : BoundEffect
  cap : Nat
deriving DecidableEq, Repr

namespace Bounded

/-- Whether the query was changed to bound it. -/
def isApplied (b : Bounded) : Bool :=
  match b.effect with
  | .lowered _ | .added => true
  | .notSelect | .within _ => false

def wasLowered (b : Bounded) : Bool :=
  match b.effect with
  | .lowered _ => true
  | _ => false

/-- The bound that the query came with. -/
def asked? (b : Bounded) : Option Nat :=
  match b.effect with
  | .within limit => some limit
  | .lowered asked => asked
  | .notSelect | .added => none

/-- The bound that the query has now; zero if it is no `SELECT`. -/
def enforced (b : Bounded) : Nat :=
  match b.effect with
  | .notSelect => 0
  | .within limit => limit
  | .lowered _ | .added => b.cap

end Bounded

/-- Whether a text begins with `SELECT`. -/
def isSelect (sql : Text) : Bool := (keyword? "SELECT" (skipBlanks sql)).any atWordEnd

/-- A query without the blanks around it and without its semicolon, and whether it had one. -/
def withoutSemicolon (sql : Text) : Text × Bool :=
  let t := trim sql
  match t.getLast? with
  | some ';' => (trimEnd t.dropLast, true)
  | _ => (t, false)

namespace Bound

/-- The body with the number of its bound replaced by the digits of the cap. -/
def lowerTo (digits body : Text) (s : Span) : Text :=
  body.take s.start ++ digits ++ body.drop s.stop

/-- The clause that bounds a query. -/
def clause (digits : Text) : Text := " LIMIT " ++ digits

/-- The body with a bound at its end, before an offset. -/
def addTo (digits body masked : Text) : Text :=
  match firstHit? trailingOffset masked with
  | some h => body.take h.start ++ clause digits ++ body.drop h.start
  | none => body ++ clause digits

/-- The number that a bound asks for: none for `ALL`, and one row if no number is written. -/
def number? (w : WrittenBound) : Except Fault (Option Nat) :=
  if w.written.isEmpty then .ok (some 1)
  else if w.written.all isDecimalDigit then (readDigits w.written).map some
  else .ok none

/-- The body, bounded, and what was done to it. -/
def body (cap : RowCap) (body : Text) : Except Fault (Text × BoundEffect) := do
  let masked := maskLiterals body
  match firstHit? trailingLimit masked <|> firstHit? trailingFetch masked with
  | none => return (addTo (← writeDigits cap.rows) body masked, .added)
  | some h =>
    match ← number? h.value with
    | some n =>
      if n ≤ cap.rows then return (body, .within n)
      else return (lowerTo (← writeDigits cap.rows) body h.value.span, .lowered (some n))
    | none => return (lowerTo (← writeDigits cap.rows) body h.value.span, .lowered none)

end Bound

def bound (cap : RowCap) (sql : Text) : Except Fault Bounded :=
  if isSelect sql then do
    let (body, semicolon) := withoutSemicolon sql
    let (bounded, effect) ← Bound.body cap body
    return ⟨if semicolon then bounded ++ [';'] else bounded, effect, cap.rows⟩
  else .ok ⟨sql, .notSelect, cap.rows⟩

/-- The number of rows that the outer bound of a query asks for. -/
def outerLimit? (sql : Text) : Except Fault (Option Nat) := do
  let masked := maskLiterals (trimEnd (trimEndOf ';' (trim sql)))
  match firstHit? trailingLimit masked with
  | some h =>
    match ← Bound.number? h.value with
    | some n => return some n
    | none => fetched masked
  | none => fetched masked
where
  fetched (masked : Text) : Except Fault (Option Nat) :=
    match firstHit? trailingFetch masked with
    | some h => Bound.number? h.value
    | none => .ok none

end QueryGate
