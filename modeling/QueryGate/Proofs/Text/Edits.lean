import Mathlib.Data.List.Pairwise
import QueryGate.Proofs.Text.Parts
import QueryGate.Text.Edit

/-!
# Edits of one text

Edits are applied one after another, to a text whose length changes on the way. From the last to the
first none of them moves a span that is still to come. So edits that do not overlap come to the same
as if all were made at once, whatever their order in the list (`applyEdits_eq_substitute`): each
character is replaced or kept by its offset in the text as it was (`Edit.substitute`). A part that
no edit touches stands as it was behind what the edits before it have made (`applyEdits_around`).
-/

namespace QueryGate

/-! ## The order of edits -/

namespace Edit

/-- An edit of the middle part of a text. -/
theorem splice_middle (a x b y : Text) :
    splice (a ++ (x ++ b)) ⟨a.length, a.length + x.length, y⟩ = a ++ (y ++ b) := by
  have hdrop : (a ++ (x ++ b)).drop (a.length + x.length) = b := by
    rw [← List.drop_drop, List.drop_left, List.drop_left]
  rw [splice, List.take_left, hdrop, List.append_assoc]

theorem perm_insert (e : Edit) (edits : List Edit) : (e.insert edits).Perm (e :: edits) := by
  induction edits with
  | nil => exact .refl _
  | cons d edits ih =>
    rw [insert]
    split
    · exact .refl _
    · exact (ih.cons d).trans (.swap e d edits)

theorem perm_fromLast (edits : List Edit) : (fromLast edits).Perm edits := by
  induction edits with
  | nil => exact .refl _
  | cons e edits ih => exact (perm_insert e _).trans (ih.cons e)

theorem pairwise_insert {e : Edit} {edits : List Edit}
    (h : edits.Pairwise fun d e => e.start ≤ d.start) :
    (e.insert edits).Pairwise fun d e => e.start ≤ d.start := by
  induction edits with
  | nil => exact List.pairwise_singleton _ _
  | cons d edits ih =>
    obtain ⟨hd, hrest⟩ := List.pairwise_cons.1 h
    rw [insert]
    split
    · rename_i hle
      refine List.pairwise_cons.2 ⟨fun x hx => ?_, h⟩
      rcases List.mem_cons.1 hx with rfl | hx
      · exact hle
      · exact Nat.le_trans (hd x hx) hle
    · rename_i hlt
      refine List.pairwise_cons.2 ⟨fun x hx => ?_, ih hrest⟩
      rcases List.mem_cons.1 ((perm_insert e edits).mem_iff.1 hx) with rfl | hx
      · omega
      · exact hd x hx

theorem pairwise_fromLast (edits : List Edit) :
    (fromLast edits).Pairwise fun d e => e.start ≤ d.start := by
  induction edits with
  | nil => exact .nil
  | cons e edits ih => exact pairwise_insert ih

/-- Edits with different starts are applied from the last to the first. -/
theorem pairwise_lt_fromLast {edits : List Edit} (h : (edits.map (·.start)).Nodup) :
    (fromLast edits).Pairwise fun d e => e.start < d.start := by
  have hne : (fromLast edits).Pairwise fun d e => d.start ≠ e.start :=
    List.pairwise_map.1 (((perm_fromLast edits).map _).nodup_iff.2 h)
  exact (pairwise_fromLast edits).imp₂ (fun d e hle hne => by omega) hne

end Edit

/-! ## Edits that do not overlap -/

namespace Edit

/-- Edits of places that are not empty and do not overlap. -/
structure Disjoint (edits : List Edit) : Prop where
  lt : ∀ e ∈ edits, e.start < e.stop
  apart : edits.Pairwise fun d e => d.stop ≤ e.start ∨ e.stop ≤ d.start

/-- Of two edits that do not overlap, the one that is applied later ends where the other starts, or
before. -/
theorem Disjoint.pairwise_fromLast {edits : List Edit} (h : Disjoint edits) :
    (fromLast edits).Pairwise fun d e => e.stop ≤ d.start := by
  have hapart : (fromLast edits).Pairwise fun d e => d.stop ≤ e.start ∨ e.stop ≤ d.start :=
    h.apart.perm (perm_fromLast edits).symm fun hde => hde.symm
  refine ((Edit.pairwise_fromLast edits).and hapart).imp_of_mem fun {d e} hd _ hde => ?_
  have := h.lt d ((perm_fromLast edits).mem_iff.1 hd)
  omega

theorem foldl_splice_append {t r : Text} {edits : List Edit}
    (hstop : ∀ e ∈ edits, e.stop ≤ t.length) (hlt : ∀ e ∈ edits, e.start < e.stop)
    (h : edits.Pairwise fun d e => e.stop ≤ d.start) :
    edits.foldl splice (t ++ r) = edits.foldl splice t ++ r := by
  induction edits generalizing t with
  | nil => rfl
  | cons e edits ih =>
    obtain ⟨he, hrest⟩ := List.pairwise_cons.1 h
    have hle := hstop e List.mem_cons_self
    have hlt' := hlt e List.mem_cons_self
    have hsplice : splice (t ++ r) e = splice t e ++ r := by
      unfold splice
      rw [List.take_append_of_le_length (by omega), List.drop_append_of_le_length hle,
        List.append_assoc, List.append_assoc, List.append_assoc]
    rw [List.foldl_cons, List.foldl_cons, hsplice]
    refine ih (fun d hd => ?_) (fun d hd => hlt d (List.mem_cons_of_mem e hd)) hrest
    have := he d hd
    simp only [splice, List.length_append, List.length_take]
    omega

end Edit

/-! ## All edits at once -/

namespace Edit

/-- What stands for the character at an offset after all edits at once: the text of an edit where
its span begins, nothing in the rest of the span, and outside all spans the character itself. -/
def replacedAt (edits : List Edit) (n : Nat) (c : Char) : Text :=
  match edits.find? fun e => e.start ≤ n && n < e.stop with
  | some e => if n = e.start then e.text else []
  | none => [c]

/-- A text that begins at `offset`, after all edits at once. -/
def substituteFrom (edits : List Edit) : (offset : Nat) → Text → Text
  | _, [] => []
  | offset, c :: t => replacedAt edits offset c ++ substituteFrom edits (offset + 1) t

/-- The text after all edits at once. -/
def substitute (edits : List Edit) (t : Text) : Text := substituteFrom edits 0 t

section Character

variable {edits : List Edit} {e : Edit} {n : Nat} {c : Char}

/-- Only one of several edits that do not overlap has a character in its span. -/
theorem Disjoint.find?_eq (h : Disjoint edits) (he : e ∈ edits) (hstart : e.start ≤ n)
    (hstop : n < e.stop) : edits.find? (fun e => e.start ≤ n && n < e.stop) = some e := by
  cases hfind : edits.find? (fun e => e.start ≤ n && n < e.stop) with
  | none =>
    have := List.find?_eq_none.1 hfind e he
    simp [hstart, hstop] at this
  | some d =>
    have hd := List.find?_some hfind
    rw [Bool.and_eq_true, decide_eq_true_iff, decide_eq_true_iff] at hd
    have hsymm : Std.Symm fun d e : Edit => d.stop ≤ e.start ∨ e.stop ≤ d.start :=
      ⟨fun _ _ => Or.symm⟩
    by_cases hde : d = e
    · rw [hde]
    · have := h.apart.forall (List.mem_of_find?_eq_some hfind) he hde
      omega

theorem Disjoint.replacedAt_start (h : Disjoint edits) (he : e ∈ edits) :
    replacedAt edits e.start c = e.text := by
  rw [replacedAt, h.find?_eq he (Nat.le_refl _) (h.lt e he)]
  exact if_pos rfl

theorem Disjoint.replacedAt_within (h : Disjoint edits) (he : e ∈ edits) (hstart : e.start < n)
    (hstop : n < e.stop) : replacedAt edits n c = [] := by
  rw [replacedAt, h.find?_eq he hstart.le hstop]
  exact if_neg hstart.ne'

theorem replacedAt_outside (h : ∀ e ∈ edits, n < e.start ∨ e.stop ≤ n) :
    replacedAt edits n c = [c] := by
  have hnone : edits.find? (fun e => e.start ≤ n && n < e.stop) = none := by
    refine List.find?_eq_none.2 fun e he => ?_
    have := h e he
    simp only [Bool.and_eq_true, decide_eq_true_eq]
    omega
  rw [replacedAt, hnone]

theorem replacedAt_cons (h : n < e.start ∨ e.stop ≤ n) :
    replacedAt (e :: edits) n c = replacedAt edits n c := by
  rw [replacedAt, List.find?_cons_of_neg, replacedAt]
  simp only [Bool.and_eq_true, decide_eq_true_eq]
  omega

/-- The order of the edits does not matter to a character. -/
theorem Disjoint.replacedAt_perm {other : List Edit} (h : Disjoint edits)
    (hperm : edits.Perm other) (hother : Disjoint other) :
    replacedAt other n c = replacedAt edits n c := by
  by_cases hcovered : ∃ e ∈ edits, e.start ≤ n ∧ n < e.stop
  · obtain ⟨e, he, hstart, hstop⟩ := hcovered
    rw [replacedAt, replacedAt, h.find?_eq he hstart hstop,
      hother.find?_eq (hperm.mem_iff.1 he) hstart hstop]
  · have houtside : ∀ e ∈ edits, n < e.start ∨ e.stop ≤ n := by
      intro e he
      by_contra hcontra
      exact hcovered ⟨e, he, by omega, by omega⟩
    rw [replacedAt_outside houtside,
      replacedAt_outside fun e he => houtside e (hperm.mem_iff.2 he)]

end Character

section Substitute

variable {edits : List Edit} {e : Edit} {o : Nat} {t : Text}

theorem substituteFrom_append (a b : Text) :
    substituteFrom edits o (a ++ b) =
      substituteFrom edits o a ++ substituteFrom edits (o + a.length) b := by
  induction a generalizing o with
  | nil => rfl
  | cons c a ih =>
    rw [List.cons_append, substituteFrom, ih, substituteFrom, List.append_assoc,
      Text.add_length_cons]

theorem substituteFrom_outside (h : ∀ e ∈ edits, e.stop ≤ o ∨ o + t.length ≤ e.start) :
    substituteFrom edits o t = t := by
  induction t generalizing o with
  | nil => rfl
  | cons c t ih =>
    rw [List.length_cons] at h
    rw [substituteFrom, replacedAt_outside fun e he => by have := h e he; omega,
      ih fun e he => by have := h e he; omega]
    rfl

theorem Disjoint.substituteFrom_within (h : Disjoint edits) (he : e ∈ edits) (hstart : e.start < o)
    (hstop : o + t.length ≤ e.stop) : substituteFrom edits o t = [] := by
  induction t generalizing o with
  | nil => rfl
  | cons c t ih =>
    rw [List.length_cons] at hstop
    rw [substituteFrom, h.replacedAt_within he hstart (by omega), ih (by omega) (by omega)]
    rfl

/-- The span of an edit becomes its text. -/
theorem Disjoint.substituteFrom_span (h : Disjoint edits) (he : e ∈ edits) (hne : t ≠ [])
    (hstop : e.start + t.length ≤ e.stop) : substituteFrom edits e.start t = e.text := by
  cases t with
  | nil => exact absurd rfl hne
  | cons c t =>
    rw [List.length_cons] at hstop
    rw [substituteFrom, h.replacedAt_start he,
      h.substituteFrom_within he (Nat.lt_succ_self _) (by omega), List.append_nil]

theorem substituteFrom_cons (h : o + t.length ≤ e.start) :
    substituteFrom (e :: edits) o t = substituteFrom edits o t := by
  induction t generalizing o with
  | nil => rfl
  | cons c t ih =>
    rw [List.length_cons] at h
    rw [substituteFrom, substituteFrom, replacedAt_cons (.inl (by omega)), ih (by omega)]

theorem Disjoint.substitute_perm {other : List Edit} (h : Disjoint edits)
    (hperm : edits.Perm other) (hother : Disjoint other) :
    substitute other t = substitute edits t := by
  have hfrom (o : Nat) : substituteFrom other o t = substituteFrom edits o t := by
    induction t generalizing o with
    | nil => rfl
    | cons c t ih => rw [substituteFrom, substituteFrom, h.replacedAt_perm hperm hother, ih]
  exact hfrom 0

end Substitute

theorem Disjoint.perm {edits other : List Edit} (h : Disjoint edits) (hperm : edits.Perm other) :
    Disjoint other where
  lt e he := h.lt e (hperm.mem_iff.2 he)
  apart := h.apart.perm hperm fun hde => hde.symm

theorem Disjoint.tail {e : Edit} {edits : List Edit} (h : Disjoint (e :: edits)) :
    Disjoint edits where
  lt d hd := h.lt d (List.mem_cons_of_mem e hd)
  apart := (List.pairwise_cons.1 h.apart).2

/-- Applied from the last to the first, each edit finds the text before its span, and the span, as
they were. -/
theorem Disjoint.foldl_splice {t : Text} {edits : List Edit} (h : Disjoint edits)
    (hstop : ∀ e ∈ edits, e.stop ≤ t.length)
    (hsorted : edits.Pairwise fun d e => e.stop ≤ d.start) :
    edits.foldl splice t = substitute edits t := by
  induction edits generalizing t with
  | nil => exact (substituteFrom_outside fun e he => absurd he List.not_mem_nil).symm
  | cons e edits ih =>
    obtain ⟨he, hrest⟩ := List.pairwise_cons.1 hsorted
    have hlt := h.lt e List.mem_cons_self
    have hle := hstop e List.mem_cons_self
    have hstart : (t.take e.start).length = e.start := List.length_take_of_le (by omega)
    have hspan : (Text.slice t e.start e.stop).length = e.stop - e.start := by
      rw [Text.slice, List.length_drop, List.length_take_of_le hle]
    have hfront : ∀ d ∈ edits, d.stop ≤ (t.take e.start).length := by rwa [hstart]
    have hbefore : substituteFrom (e :: edits) 0 (t.take e.start) =
        edits.foldl splice (t.take e.start) := by
      rw [ih h.tail hfront hrest, substitute, substituteFrom_cons (by omega)]
    have hreplaced :
        substituteFrom (e :: edits) e.start (Text.slice t e.start e.stop) = e.text := by
      refine h.substituteFrom_span List.mem_cons_self ?_ (by omega)
      exact List.length_pos_iff.1 (by omega)
    have hbehind : substituteFrom (e :: edits) e.stop (t.drop e.stop) = t.drop e.stop := by
      refine substituteFrom_outside fun d hd => .inl ?_
      rcases List.mem_cons.1 hd with rfl | hd
      · exact Nat.le_refl _
      · exact (he d hd).trans hlt.le
    calc (e :: edits).foldl splice t
      _ = edits.foldl splice (t.take e.start ++ (e.text ++ t.drop e.stop)) := by
        rw [List.foldl_cons, splice, List.append_assoc]
      _ = edits.foldl splice (t.take e.start) ++ (e.text ++ t.drop e.stop) :=
        foldl_splice_append hfront h.tail.lt hrest
      _ = substitute (e :: edits)
          (t.take e.start ++ (Text.slice t e.start e.stop ++ t.drop e.stop)) := by
        rw [substitute, substituteFrom_append, substituteFrom_append, hbefore, hstart, hspan,
          Nat.zero_add, Nat.add_sub_cancel' hlt.le, hreplaced, hbehind]
      _ = substitute (e :: edits) t := by rw [Text.take_append_slice_append t hlt.le]

end Edit

/-- Edits that do not overlap replace each span by its text and keep every other character in its
place, all at once, and in whatever order they are listed. -/
theorem applyEdits_eq_substitute {t : Text} {edits : List Edit} (h : Edit.Disjoint edits)
    (hstop : ∀ e ∈ edits, e.stop ≤ t.length) :
    applyEdits t edits = Edit.substitute edits t ∧
      ∀ other : List Edit, other.Perm edits → applyEdits t other = Edit.substitute edits t := by
  have hany (other : List Edit) (hperm : other.Perm edits) :
      applyEdits t other = Edit.substitute edits t := by
    have hsorted : edits.Perm (Edit.fromLast other) :=
      hperm.symm.trans (Edit.perm_fromLast other).symm
    have hdisjoint := h.perm hperm.symm
    rw [applyEdits, (h.perm hsorted).foldl_splice (fun e he => hstop e (hsorted.mem_iff.2 he))
      hdisjoint.pairwise_fromLast, h.substitute_perm hsorted (h.perm hsorted)]
  exact ⟨hany edits (.refl _), hany⟩

/-- Two edits side by side, listed in the order of the text and against it. -/
theorem applyEdits_eq_substitute_side_by_side :
    let t : Text := "SELECT ab FROM t"
    let a : Edit := ⟨7, 8, "\"A\""⟩
    let b : Edit := ⟨8, 9, ""⟩
    Edit.Disjoint [a, b] ∧ (∀ e ∈ [a, b], e.stop ≤ t.length) ∧
      applyEdits t [a, b] = "SELECT \"A\" FROM t" ∧
      applyEdits t [b, a] = "SELECT \"A\" FROM t" := by
  intro t a b
  have h : Edit.Disjoint [a, b] := ⟨by decide, by decide⟩
  have hstop : ∀ e ∈ [a, b], e.stop ≤ t.length := by decide
  have honce : Edit.substitute [a, b] t = "SELECT \"A\" FROM t" := by decide
  obtain ⟨happly, hother⟩ := applyEdits_eq_substitute h hstop
  exact ⟨h, hstop, happly.trans honce, (hother [b, a] (.swap a b [])).trans honce⟩

/-! ## Text that no edit touches -/

namespace Edit

theorem filter_insert {q : Edit → Bool} {e : Edit} {edits : List Edit}
    (h : edits.Pairwise fun d e => e.start ≤ d.start) :
    (e.insert edits).filter q = if q e then e.insert (edits.filter q) else edits.filter q := by
  induction edits with
  | nil => cases hq : q e <;> simp [insert, hq]
  | cons d edits ih =>
    obtain ⟨hd, hrest⟩ := List.pairwise_cons.1 h
    by_cases hle : d.start ≤ e.start
    · -- What is kept of the rest starts no later than the edit either.
      have hfront : ∀ l : List Edit, (∀ x ∈ l, x.start ≤ e.start) → e.insert l = e :: l := by
        intro l hl
        cases l with
        | nil => rfl
        | cons x l => rw [insert, if_pos (hl x List.mem_cons_self)]
      have hall : ∀ x ∈ (d :: edits).filter q, x.start ≤ e.start := by
        intro x hx
        rcases List.mem_cons.1 (List.mem_filter.1 hx).1 with rfl | hx
        · exact hle
        · exact Nat.le_trans (hd x hx) hle
      rw [insert, if_pos hle, hfront _ hall, List.filter_cons]
    · rw [insert, if_neg hle, List.filter_cons, ih hrest, List.filter_cons]
      cases hqd : q d <;> cases hqe : q e <;> simp [insert, hle]

theorem fromLast_filter (q : Edit → Bool) (edits : List Edit) :
    fromLast (edits.filter q) = (fromLast edits).filter q := by
  induction edits with
  | nil => rfl
  | cons e edits ih =>
    rw [fromLast, filter_insert (pairwise_fromLast edits), List.filter_cons, ← ih]
    split <;> rfl

theorem foldl_splice_around {a x b : Text} {edits : List Edit} (hx : x ≠ [])
    (hlt : ∀ e ∈ edits, e.start < e.stop) (hsorted : edits.Pairwise fun d e => e.stop ≤ d.start)
    (hapart : ∀ e ∈ edits, e.stop ≤ a.length ∨ (a ++ x).length ≤ e.start) :
    ∃ rest, edits.foldl splice (a ++ x ++ b) =
      (edits.filter (·.start < (a ++ x).length)).foldl splice a ++ x ++ rest := by
  induction edits generalizing b with
  | nil => exact ⟨b, rfl⟩
  | cons e edits ih =>
    obtain ⟨he, hrest⟩ := List.pairwise_cons.1 hsorted
    have hltrest : ∀ d ∈ edits, d.start < d.stop := fun d hd => hlt d (List.mem_cons_of_mem e hd)
    have hlte := hlt e List.mem_cons_self
    have hne := List.length_pos_iff.2 hx
    obtain hbefore | hbehind := hapart e List.mem_cons_self
    · -- All edits that are left lie before the part as well.
      have hstop : ∀ d ∈ e :: edits, d.stop ≤ a.length := by
        intro d hd
        rcases List.mem_cons.1 hd with rfl | hd
        · exact hbefore
        · have := he d hd
          omega
      have hall : (e :: edits).filter (·.start < (a ++ x).length) = e :: edits := by
        refine List.filter_eq_self.2 fun d hd => decide_eq_true ?_
        have := hstop d hd
        have := hlt d hd
        rw [List.length_append]
        omega
      rw [hall, List.append_assoc, foldl_splice_append hstop hlt hsorted]
      exact ⟨b, (List.append_assoc ..).symm⟩
    · have hsplice : splice (a ++ x ++ b) e =
          a ++ x ++ (b.take (e.start - (a ++ x).length) ++ e.text ++
            b.drop (e.stop - (a ++ x).length)) := by
        unfold splice
        rw [List.take_append, List.take_of_length_le hbehind, List.drop_append,
          List.drop_of_length_le (by omega)]
        simp
      rw [List.foldl_cons, hsplice, List.filter_cons_of_neg (by simpa using hbehind)]
      exact ih hltrest hrest fun d hd => hapart d (List.mem_cons_of_mem e hd)

end Edit

/-- A part that lies apart from all edits stands unchanged behind what the edits before it make of
the text before it. -/
theorem applyEdits_around {t : Text} {edits : List Edit} {start stop : Nat}
    (h : Edit.Disjoint edits) (hlt : start < stop) (hstop : stop ≤ t.length)
    (hapart : ∀ e ∈ edits, e.stop ≤ start ∨ stop ≤ e.start) :
    ∃ rest, applyEdits t edits =
      applyEdits (t.take start) (edits.filter (·.start < stop)) ++ t.slice start stop ++ rest := by
  have hpart : t.take start ++ t.slice start stop = t.take stop :=
    Text.take_append_slice t hlt.le
  have hstart : (t.take start).length = start := List.length_take_of_le (by omega)
  have hlength : (t.take start ++ t.slice start stop).length = stop := by
    rw [hpart, List.length_take_of_le hstop]
  have hne : t.slice start stop ≠ [] := by
    intro hnil
    rw [hnil, List.append_nil] at hlength
    omega
  have hmem : ∀ e ∈ Edit.fromLast edits, e ∈ edits := fun e he =>
    (Edit.perm_fromLast edits).mem_iff.1 he
  obtain ⟨rest, hfold⟩ := @Edit.foldl_splice_around (t.take start) (t.slice start stop)
    (t.drop stop) (Edit.fromLast edits) hne (fun e he => h.lt e (hmem e he)) h.pairwise_fromLast
    (fun e he => by rw [hstart, hlength]; exact hapart e (hmem e he))
  rw [hlength, hpart, List.take_append_drop] at hfold
  exact ⟨rest, by rw [applyEdits, applyEdits, Edit.fromLast_filter, hfold]⟩

end QueryGate
