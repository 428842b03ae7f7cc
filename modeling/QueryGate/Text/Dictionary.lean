import QueryGate.Text.Basic

/-!
# Dictionaries

A dictionary lists its entries in the order in which their keys first came. Writing a key again
changes the entry in place.
-/

namespace QueryGate

/-- Entries by key, each key once. -/
abbrev Dictionary (α : Type) := List (Text × α)

namespace Dictionary
variable {α : Type}

def find? (key : Text) : Dictionary α → Option α
  | [] => none
  | (k, a) :: d => if k = key then some a else find? key d

def put (key : Text) (a : α) : Dictionary α → Dictionary α
  | [] => [(key, a)]
  | (k, b) :: d => if k = key then (key, a) :: d else (k, b) :: put key a d

def erase (key : Text) (d : Dictionary α) : Dictionary α := d.filter fun e => e.1 ≠ key

/-- The dictionary that results from writing entries in turn. -/
def ofEntries (entries : List (Text × α)) : Dictionary α :=
  entries.foldl (fun d e => put e.1 e.2 d) []

def keys (d : Dictionary α) : List Text := d.map (·.1)

def values (d : Dictionary α) : List α := d.map (·.2)

/-- What was written is found, and nothing else has changed. -/
theorem find?_put (key other : Text) (a : α) (d : Dictionary α) :
    find? other (put key a d) = if key = other then some a else find? other d := by
  induction d with
  | nil => by_cases h : key = other <;> simp [put, find?, h]
  | cons e d ih =>
    obtain ⟨k, b⟩ := e
    by_cases hk : k = key
    · subst hk
      by_cases h : k = other <;> simp [put, find?, h]
    · by_cases h : k = other
      · subst h
        simp [put, find?, hk, Ne.symm hk]
      · simp [put, find?, hk, h, ih]

/-- Writing a known key keeps the keys; a new one comes last. -/
theorem keys_put (key : Text) (a : α) (d : Dictionary α) :
    keys (put key a d) = if key ∈ keys d then keys d else keys d ++ [key] := by
  induction d with
  | nil => simp [put, keys]
  | cons e d ih =>
    obtain ⟨k, b⟩ := e
    by_cases hk : k = key
    · simp [put, keys, hk]
    · simp only [keys] at ih
      by_cases hm : key ∈ d.map (·.1)
      · simp [put, keys, hk, Ne.symm hk, ih, hm]
      · simp [put, keys, hk, Ne.symm hk, ih, hm]

end Dictionary

end QueryGate
