import QueryGate.Text.Basic

/-!
# Readings and their hits

A reading looks at a place in a text, that is, at the text before it and the text after it, and
may read something there. `hits` applies a reading from left to right at every place that no
earlier hit covers.
-/

namespace QueryGate

/-- What a reading finds between the text `before` (nearest character first) and the text `after`,
with the part of `after` that it leaves. -/
abbrev Reading (α : Type) := (before after : Text) → Option (α × Text)

/-- Something read in a text, with the offsets where it starts and stops. -/
structure Hit (α : Type) where
  start : Nat
  stop : Nat
  value : α
deriving DecidableEq, Repr

/-- The offset of the place where `rest`, an end of `after`, begins. -/
def offsetOf (before after rest : Text) : Nat := before.length + (after.length - rest.length)

/-- The hits in `after`, of which the first `covered` characters belong to an earlier hit. -/
def hitsFrom {α : Type} (read : Reading α) (before : Text) (covered : Nat) :
    Text → List (Hit α)
  | [] => []
  | c :: after =>
    match covered with
    | n + 1 => hitsFrom read (c :: before) n after
    | 0 =>
      match read before (c :: after) with
      | none => hitsFrom read (c :: before) 0 after
      | some (value, rest) =>
        let stop := offsetOf before (c :: after) rest
        ⟨before.length, stop, value⟩ :: hitsFrom read (c :: before) (stop - before.length - 1) after

/-- Every hit of a reading in a text, from left to right; no two overlap. -/
def hits {α : Type} (read : Reading α) (t : Text) : List (Hit α) := hitsFrom read [] 0 t

/-- The hits between two offsets. The reading sees the text before `start` but none from
`stop` on. -/
def hitsWithin {α : Type} (read : Reading α) (t : Text) (start stop : Nat) : List (Hit α) :=
  hitsFrom read (t.take start).reverse 0 (Text.slice t start stop)

def firstHit? {α : Type} (read : Reading α) (t : Text) : Option (Hit α) := (hits read t).head?

def occurs {α : Type} (read : Reading α) (t : Text) : Bool := !(hits read t).isEmpty

@[simp] theorem hits_nil {α : Type} (read : Reading α) : hits read [] = [] := rfl

end QueryGate
