import QueryGate.Text.Basic

/-!
# Edits

An edit replaces the part of a text between two offsets. Edits are applied from the last to the
first, so that no edit moves the offsets of one still to come; of edits that start at one offset,
the earlier in the list goes first.
-/

namespace QueryGate

/-- A replacement for the characters from `start` up to, but not including, `stop`. -/
structure Edit where
  start : Nat
  stop : Nat
  text : Text
deriving DecidableEq, Repr

namespace Edit

/-- One edit, applied: a stop before the start repeats the characters in between. -/
def splice (t : Text) (e : Edit) : Text := t.take e.start ++ e.text ++ t.drop e.stop

/-- Puts an edit in front of those that start no later. -/
def insert (e : Edit) : List Edit → List Edit
  | [] => [e]
  | d :: edits => if d.start ≤ e.start then e :: d :: edits else d :: insert e edits

/-- Edits from the last start to the first; those of one start keep their order. -/
def fromLast : List Edit → List Edit
  | [] => []
  | e :: edits => insert e (fromLast edits)

def span (e : Edit) : Span := ⟨e.start, e.stop⟩

end Edit

def applyEdits (t : Text) (edits : List Edit) : Text := (Edit.fromLast edits).foldl Edit.splice t

@[simp] theorem applyEdits_nil (t : Text) : applyEdits t [] = t := rfl

end QueryGate
