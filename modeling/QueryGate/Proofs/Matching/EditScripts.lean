import Mathlib.Order.Bounds.Defs
import QueryGate.Text.Basic

/-!
# The least number of edits

A text is edited by putting in, taking out or replacing one character. The least number of edits in
turn that make one text of another is counted along the two texts, by their first characters
(`fewestEdits`, and `fewestEdits_isLeast`). An edit changes the count to any text by one at most
(`EditedOnce.fewestEdits_le`), so no fewer edits will do, and along the count that many edits are
found (`edited_fewestEdits`). Edits may as well be counted from the ends of the texts
(`fewestEdits_concat_concat`), which is how the rows of a table are filled.
-/

namespace QueryGate

/-- A text becomes another one by an edit of one character. -/
inductive EditedOnce : Text → Text → Prop
  | insertion (u v : Text) (c : Char) : EditedOnce (u ++ v) (u ++ c :: v)
  | deletion (u v : Text) (c : Char) : EditedOnce (u ++ c :: v) (u ++ v)
  | substitution (u v : Text) (c d : Char) : EditedOnce (u ++ c :: v) (u ++ d :: v)

/-- A text becomes another one by a number of edits in turn. -/
inductive Edited : Nat → Text → Text → Prop
  | refl (a : Text) : Edited 0 a a
  | step {n : Nat} {a b c : Text} (first : EditedOnce a b) (rest : Edited n b c) :
      Edited (n + 1) a c

/-- The fewest edits that make one text of another: at two first characters the better of three
ways, which take out the one, put in the other, or go on behind both. -/
def fewestEdits : Text → Text → Nat
  | [], b => b.length
  | x :: a, [] => a.length + 1
  | x :: a, y :: b =>
    min (min (fewestEdits a (y :: b) + 1) (fewestEdits (x :: a) b + 1))
      (fewestEdits a b + if x = y then 0 else 1)
  termination_by a b => a.length + b.length

theorem fewestEdits_nil_left (b : Text) : fewestEdits [] b = b.length := by
  rw [fewestEdits]

theorem fewestEdits_nil_right (a : Text) : fewestEdits a [] = a.length := by
  cases a with
  | nil => exact fewestEdits_nil_left []
  | cons x a => rw [fewestEdits, List.length_cons]

theorem fewestEdits_cons_cons (x y : Char) (a b : Text) :
    fewestEdits (x :: a) (y :: b) =
      min (min (fewestEdits a (y :: b) + 1) (fewestEdits (x :: a) b + 1))
        (fewestEdits a b + if x = y then 0 else 1) := by
  rw [fewestEdits]

section Ways

variable (x y : Char) (a b : Text)

theorem fewestEdits_cons_cons_le :
    fewestEdits (x :: a) (y :: b) ≤ fewestEdits a (y :: b) + 1 ∧
      fewestEdits (x :: a) (y :: b) ≤ fewestEdits (x :: a) b + 1 ∧
      fewestEdits (x :: a) (y :: b) ≤ fewestEdits a b + if x = y then 0 else 1 := by
  rw [fewestEdits_cons_cons]
  omega

theorem fewestEdits_cons_cons_cases :
    fewestEdits (x :: a) (y :: b) = fewestEdits a (y :: b) + 1 ∨
      fewestEdits (x :: a) (y :: b) = fewestEdits (x :: a) b + 1 ∨
      fewestEdits (x :: a) (y :: b) = fewestEdits a b + if x = y then 0 else 1 := by
  rw [fewestEdits_cons_cons]
  omega

end Ways

/-! ## An edit changes the count by one at most -/

theorem fewestEdits_self (a : Text) : fewestEdits a a = 0 := by
  induction a with
  | nil => exact fewestEdits_nil_left []
  | cons x a ih =>
    have hle := (fewestEdits_cons_cons_le x x a a).2.2
    rw [ih, if_pos rfl] at hle
    exact Nat.le_zero.1 hle

theorem fewestEdits_cons_right_le (a : Text) (y : Char) (b : Text) :
    fewestEdits a (y :: b) ≤ fewestEdits a b + 1 := by
  cases a with
  | nil =>
    rw [fewestEdits_nil_left, fewestEdits_nil_left]
    exact Nat.le_refl _
  | cons x a => exact (fewestEdits_cons_cons_le x y a b).2.1

theorem fewestEdits_cons_left_le (x : Char) (a b : Text) :
    fewestEdits (x :: a) b ≤ fewestEdits a b + 1 := by
  cases b with
  | nil =>
    rw [fewestEdits_nil_right, fewestEdits_nil_right]
    exact Nat.le_refl _
  | cons y b => exact (fewestEdits_cons_cons_le x y a b).1

theorem fewestEdits_le_cons_left (x : Char) (a b : Text) :
    fewestEdits a b ≤ fewestEdits (x :: a) b + 1 := by
  induction b with
  | nil =>
    rw [fewestEdits_nil_right, fewestEdits_nil_right, List.length_cons]
    omega
  | cons y b ih =>
    have hright := fewestEdits_cons_right_le a y b
    rcases fewestEdits_cons_cons_cases x y a b with h | h | h <;> omega

theorem fewestEdits_substituted_le (x z : Char) (a b : Text) :
    fewestEdits (x :: a) b ≤ fewestEdits (z :: a) b + 1 := by
  induction b with
  | nil =>
    rw [fewestEdits_nil_right, fewestEdits_nil_right]
    exact Nat.le_succ _
  | cons y b ih =>
    obtain ⟨hleft, hright, hboth⟩ := fewestEdits_cons_cons_le x y a b
    have hcost : (if x = y then 0 else 1) ≤ 1 := by split <;> omega
    rcases fewestEdits_cons_cons_cases z y a b with h | h | h <;> omega

/-- What is as near to every text as another, up to one edit, is so behind the same character. -/
theorem fewestEdits_cons_le_of_forall {s t : Text}
    (hst : ∀ b, fewestEdits s b ≤ fewestEdits t b + 1) (w : Char) (b : Text) :
    fewestEdits (w :: s) b ≤ fewestEdits (w :: t) b + 1 := by
  induction b with
  | nil =>
    have hnil := hst []
    simp only [fewestEdits_nil_right, List.length_cons] at hnil ⊢
    omega
  | cons y b ih =>
    obtain ⟨hleft, hright, hboth⟩ := fewestEdits_cons_cons_le w y s b
    have hlonger := hst (y :: b)
    have hshorter := hst b
    rcases fewestEdits_cons_cons_cases w y t b with h | h | h <;> omega

theorem EditedOnce.fewestEdits_le {a a' : Text} (h : EditedOnce a a') (b : Text) :
    fewestEdits a b ≤ fewestEdits a' b + 1 := by
  -- Along the characters in front of the place of the edit.
  have hbehind (s t : Text) (hst : ∀ b, fewestEdits s b ≤ fewestEdits t b + 1) (u : Text) :
      ∀ b, fewestEdits (u ++ s) b ≤ fewestEdits (u ++ t) b + 1 := by
    induction u with
    | nil => exact hst
    | cons w u ih => exact fewestEdits_cons_le_of_forall ih w
  cases h with
  | insertion u v c => exact hbehind v (c :: v) (fewestEdits_le_cons_left c v) u b
  | deletion u v c => exact hbehind (c :: v) v (fewestEdits_cons_left_le c v) u b
  | substitution u v c d =>
    exact hbehind (c :: v) (d :: v) (fewestEdits_substituted_le c d v) u b

/-- No fewer edits make one text of the other. -/
theorem Edited.fewestEdits_le {n : Nat} {a b : Text} (h : Edited n a b) :
    fewestEdits a b ≤ n := by
  induction h with
  | refl a => exact Nat.le_of_eq (fewestEdits_self a)
  | @step n a b c first rest ih =>
    have hfirst := first.fewestEdits_le c
    omega

/-! ## As many edits as counted -/

theorem EditedOnce.cons {a b : Text} (h : EditedOnce a b) (w : Char) :
    EditedOnce (w :: a) (w :: b) := by
  cases h with
  | insertion u v c => exact .insertion (w :: u) v c
  | deletion u v c => exact .deletion (w :: u) v c
  | substitution u v c d => exact .substitution (w :: u) v c d

theorem Edited.cons {n : Nat} {a b : Text} (h : Edited n a b) (w : Char) :
    Edited n (w :: a) (w :: b) := by
  induction h with
  | refl a => exact .refl (w :: a)
  | step first rest ih => exact .step (first.cons w) ih

theorem edited_fewestEdits (a b : Text) : Edited (fewestEdits a b) a b := by
  induction a generalizing b with
  | nil =>
    rw [fewestEdits_nil_left]
    induction b with
    | nil => exact .refl []
    | cons y b ih => exact .step (.insertion [] [] y) (ih.cons y)
  | cons x a iha =>
    induction b with
    | nil =>
      have hrest := iha []
      rw [fewestEdits_nil_right] at hrest ⊢
      exact .step (.deletion [] a x) hrest
    | cons y b ihb =>
      rcases fewestEdits_cons_cons_cases x y a b with h | h | h
      · rw [h]
        exact .step (.deletion [] a x) (iha (y :: b))
      · rw [h]
        exact .step (.insertion [] (x :: a) y) (ihb.cons y)
      · rw [h]
        by_cases hxy : x = y
        · rw [if_pos hxy, hxy]
          exact (iha b).cons y
        · rw [if_neg hxy]
          exact .step (.substitution [] a x y) ((iha b).cons y)

theorem fewestEdits_isLeast (a b : Text) : IsLeast {n | Edited n a b} (fewestEdits a b) :=
  ⟨edited_fewestEdits a b, fun _ h => h.fewestEdits_le⟩

/-! ## From the ends -/

theorem EditedOnce.reverse {a b : Text} (h : EditedOnce a b) :
    EditedOnce a.reverse b.reverse := by
  cases h with
  | insertion u v c => simpa using EditedOnce.insertion v.reverse u.reverse c
  | deletion u v c => simpa using EditedOnce.deletion v.reverse u.reverse c
  | substitution u v c d => simpa using EditedOnce.substitution v.reverse u.reverse c d

theorem Edited.reverse {n : Nat} {a b : Text} (h : Edited n a b) :
    Edited n a.reverse b.reverse := by
  induction h with
  | refl a => exact .refl a.reverse
  | step first rest ih => exact .step first.reverse ih

theorem fewestEdits_reverse (a b : Text) :
    fewestEdits a.reverse b.reverse = fewestEdits a b := by
  have hle (a b : Text) : fewestEdits a.reverse b.reverse ≤ fewestEdits a b :=
    (edited_fewestEdits a b).reverse.fewestEdits_le
  refine Nat.le_antisymm (hle a b) ?_
  simpa using hle a.reverse b.reverse

theorem fewestEdits_concat_concat (x y : Char) (a b : Text) :
    fewestEdits (a ++ [x]) (b ++ [y]) =
      min (min (fewestEdits a (b ++ [y]) + 1) (fewestEdits (a ++ [x]) b + 1))
        (fewestEdits a b + if x = y then 0 else 1) := by
  have hcons := fewestEdits_cons_cons x y a.reverse b.reverse
  simpa only [← List.reverse_concat, fewestEdits_reverse] using hcons

end QueryGate
