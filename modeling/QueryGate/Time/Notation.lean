import QueryGate.Time.Calendar

/-!
# Reading dates and times

The international notation: `2024-01-05` or `20240105` for a day; hours, minutes, seconds and a
fraction for a time, each part optional after the one before it; `Z` or a signed distance for the
offset.
-/

namespace QueryGate

/-- A number of exactly `count` digits, and what follows. -/
def fixedDigits? : (count : Nat) → Text → Option (Nat × Text)
  | 0, t => some (0, t)
  | count + 1, c :: t =>
    match digitValue? c with
    | some d => (fixedDigits? count t).map fun (n, rest) => (d * 10 ^ count + n, rest)
    | none => none
  | _ + 1, [] => none

/-- The text without one leading character of a kind, if it is there. -/
def skipChar (c : Char) : Text → Text
  | d :: t => if c == d then t else d :: t
  | [] => []

/-- A day at the head of a text. -/
def Date.read? (t : Text) : Option (Date × Text) := do
  let (year, t) ← fixedDigits? 4 t
  let (month, t) ← fixedDigits? 2 (skipChar '-' t)
  let (day, t) ← fixedDigits? 2 (skipChar '-' t)
  return (⟨year, month, day⟩, t)

def Date.ofText? (t : Text) : Option Date :=
  match Date.read? t with
  | some (d, []) => some d
  | _ => none

/-- The microseconds that the digits of a fraction stand for; digits beyond the sixth are
dropped. -/
def fractionMicros (digits : Text) : Nat :=
  ((digits.take 6 ++ List.replicate (6 - digits.length) '0').filterMap digitValue?).foldl
    (fun n d => n * 10 + d) 0

/-- Hours, minutes, seconds and microseconds at the head of a text. -/
def readClock? (t : Text) : Option ((Nat × Nat × Nat × Nat) × Text) := do
  let (hour, t) ← fixedDigits? 2 t
  match fixedDigits? 2 (skipChar ':' t) with
  | none => return ((hour, 0, 0, 0), t)
  | some (minute, t) =>
    match fixedDigits? 2 (skipChar ':' t) with
    | none => return ((hour, minute, 0, 0), t)
    | some (second, t) =>
      match t with
      | mark :: r =>
        if mark == '.' || mark == ',' then
          let digits := r.takeWhile isDecimalDigit
          return ((hour, minute, second, fractionMicros digits), r.drop digits.length)
        else return ((hour, minute, second, 0), t)
      | [] => return ((hour, minute, second, 0), [])

/-- The distance from universal time that ends a text. -/
def readOffset? : Text → Option (Option Duration)
  | [] => some none
  | c :: t =>
    if c == 'Z' then some (some ⟨0⟩)
    else
      match readClock? t with
      | some ((hour, minute, second, micro), []) =>
        let size := Duration.of 0 (hour * 3600 + minute * 60 + second) micro
        if c == '+' then some (some size)
        else if c == '-' then some (some ⟨-size.micros⟩)
        else none
      | _ => none

def ClockTime.ofText? (t : Text) : Option ClockTime := do
  let ((hour, minute, second, micro), rest) ← readClock? (skipChar 'T' t)
  let offset ← readOffset? rest
  return ⟨hour, minute, second, micro, offset⟩

/-- A day and a time of day, with any one character between them; a day alone begins at
midnight. -/
def dayAndTime? (t : Text) : Option (Date × ClockTime) := do
  let (day, rest) ← Date.read? t
  match rest with
  | [] => return (day, ⟨0, 0, 0, 0, none⟩)
  | _ :: rest => return (day, ← ClockTime.ofText? rest)

end QueryGate
