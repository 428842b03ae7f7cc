import QueryGate.Text.Digit

/-!
# Dates, times and durations

Values of the clock and the calendar with their texts: `2024-01-05`, `10:30:00.500000+01:00`,
`-1 day, 0:00:01`. A fraction of a second shows six digits or none.
-/

namespace QueryGate

structure Date where
  year : Nat
  month : Nat
  day : Nat
deriving DecidableEq, Repr

/-- A span of time in microseconds. -/
structure Duration where
  micros : Int
deriving DecidableEq, Repr

/-- A time of day, perhaps with its distance east of universal time. -/
structure ClockTime where
  hour : Nat
  minute : Nat
  second : Nat
  micro : Nat
  offset : Option Duration
deriving DecidableEq, Repr

/-- A fraction of a second, unless it is zero. -/
def fractionText (micro : Nat) : Text :=
  if micro = 0 then [] else '.' :: Text.padded 6 micro

/-- Year, month and day with hyphens between them. -/
def Date.text (d : Date) : Text :=
  Text.padded 4 d.year ++ '-' :: Text.padded 2 d.month ++ '-' :: Text.padded 2 d.day

namespace Duration

/-- A duration of whole days, seconds and microseconds. -/
def of (days seconds micros : Int) : Duration := ⟨(days * 86400 + seconds) * 1000000 + micros⟩

/-- A distance from universal time: sign, hours and minutes, and what is finer only if needed. -/
def offsetText (d : Duration) : Text :=
  let n := d.micros.natAbs
  let seconds := n / 1000000
  (if d.micros < 0 then '-' else '+') :: Text.padded 2 (seconds / 3600)
    ++ ':' :: Text.padded 2 (seconds / 60 % 60)
    ++ (if n % 60000000 = 0 then [] else ':' :: Text.padded 2 (seconds % 60))
    ++ fractionText (n % 1000000)

/-- Days, if any, and the hours, minutes and seconds beyond them; the days carry the sign. -/
def text (d : Duration) : Text :=
  let days := d.micros.fdiv 86400000000
  let rest := (d.micros.fmod 86400000000).toNat
  let seconds := rest / 1000000
  let dayPart : Text :=
    if days = 0 then []
    else Text.ofInt days ++ (if days.natAbs = 1 then (" day, " : Text) else " days, ")
  dayPart
    ++ Text.ofNat (seconds / 3600) ++ ':' :: Text.padded 2 (seconds / 60 % 60)
    ++ ':' :: Text.padded 2 (seconds % 60) ++ fractionText (rest % 1000000)

end Duration

/-- Hours, minutes and seconds, then the fraction and the offset if there are any. -/
def ClockTime.text (t : ClockTime) : Text :=
  Text.padded 2 t.hour ++ ':' :: Text.padded 2 t.minute ++ ':' :: Text.padded 2 t.second
    ++ fractionText t.micro ++ match t.offset with
      | some d => d.offsetText
      | none => []

end QueryGate
