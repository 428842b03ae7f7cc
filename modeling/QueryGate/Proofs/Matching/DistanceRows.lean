import Mathlib.Data.List.Infix
import Mathlib.Data.List.Induction
import QueryGate.Matching.EditDistance
import QueryGate.Proofs.Matching.EditScripts

/-!
# The rows of the edit distance

The distance of two texts is computed with two rows of a table. The row of the part of the first
text that has been read holds the fewest edits from that part to each beginning of the second text
(`lastRow_eq_editsTo`): filling a row keeps this (`nextRow_editsTo`), cell by cell, since each
cell is the count from the ends of two beginnings. So the last cell, and each answer that is given
before any row is filled, is the least number of edits (`editDistance_isLeast`).
-/

namespace QueryGate

/-- The fewest edits that make of `a` each beginning of `b`, the shortest first. -/
def editsTo (b a : Text) : List Nat :=
  b.inits.map (fewestEdits a)

theorem editsTo_concat (a b : Text) (y : Char) :
    editsTo (b ++ [y]) a = editsTo b a ++ [fewestEdits a (b ++ [y])] := by
  simp [editsTo, List.inits_append]

/-- A cell of a row is about the beginning that has as many characters. -/
theorem getD_editsTo (a p s : Text) : (editsTo (p ++ s) a).getD p.length 0 = fewestEdits a p := by
  have hlength : p.length < (p ++ s).inits.length := by
    rw [List.length_inits, List.length_append]
    omega
  rw [editsTo, List.getD_eq_getElem?_getD, List.getElem?_map, List.getElem?_eq_getElem hlength,
    List.getElem_inits, List.take_left]
  rfl

theorem nextCell_editsTo (a p s : Text) (x y : Char) :
    nextCell x (editsTo (p ++ y :: s) a) (editsTo p (a ++ [x])) y (p.length + 1) =
      fewestEdits (a ++ [x]) (p ++ [y]) := by
  have habove : (editsTo (p ++ y :: s) a).getD (p.length + 1) 0 = fewestEdits a (p ++ [y]) := by
    simpa using getD_editsTo a (p ++ [y]) s
  have hbefore : (editsTo p (a ++ [x])).getD p.length 0 = fewestEdits (a ++ [x]) p := by
    simpa using getD_editsTo (a ++ [x]) p []
  rw [nextCell, Nat.add_sub_cancel, habove, hbefore, getD_editsTo, fewestEdits_concat_concat]

/-- One row follows from another, when the text of the row is read on by a character. -/
theorem nextRow_editsTo (a b : Text) (x : Char) :
    nextRow b (editsTo b a) x (a.length + 1) = editsTo b (a ++ [x]) := by
  -- The cells that are filled are those of the beginning that has been read.
  have hcells (p s : Text) (hb : b = p ++ s) :
      (p.zipIdx 1).foldl
        (fun current cell => current ++ [nextCell x (editsTo b a) current cell.1 cell.2])
        [a.length + 1] = editsTo p (a ++ [x]) := by
    induction p using List.reverseRecOn generalizing s with
    | nil => simp [editsTo, fewestEdits_nil_right]
    | append_singleton p y ih =>
      rw [List.append_assoc, List.singleton_append] at hb
      rw [List.zipIdx_append, List.foldl_append, ih (y :: s) hb, editsTo_concat, hb]
      simp only [List.zipIdx_singleton, List.foldl_cons, List.foldl_nil, Nat.add_comm 1,
        nextCell_editsTo]
  exact hcells b [] (List.append_nil b).symm

theorem lastRow_eq_editsTo (a b : Text) : lastRow a b = editsTo b a := by
  have hfirst : List.range (b.length + 1) = editsTo b [] := by
    refine List.ext_getElem ?_ fun i hi hi' => ?_
    · simp [editsTo]
    · simp at hi
      simp [editsTo, fewestEdits_nil_left]
      omega
  rw [lastRow, hfirst]
  induction a using List.reverseRecOn with
  | nil => rfl
  | append_singleton a x ih =>
    rw [List.zipIdx_append, List.foldl_append, ih]
    simp only [List.zipIdx_singleton, List.foldl_cons, List.foldl_nil, Nat.add_comm 1,
      nextRow_editsTo]

theorem editDistance_eq_fewestEdits (a b : Text) : editDistance a b = fewestEdits a b := by
  unfold editDistance
  split
  next hsame => rw [hsame, fewestEdits_self]
  split
  next hnil => rw [List.isEmpty_iff.1 hnil, fewestEdits_nil_left]
  split
  next hnil => rw [List.isEmpty_iff.1 hnil, fewestEdits_nil_right]
  next hne =>
    obtain ⟨p, y, rfl⟩ := b.eq_nil_or_concat'.resolve_left (mt List.isEmpty_iff.2 hne)
    rw [lastRow_eq_editsTo, editsTo_concat, List.getLastD_concat]

/-- The distance is the least number of edits that make one text of the other. -/
theorem editDistance_isLeast (a b : Text) : IsLeast {n | Edited n a b} (editDistance a b) := by
  rw [editDistance_eq_fewestEdits]
  exact fewestEdits_isLeast a b

end QueryGate
