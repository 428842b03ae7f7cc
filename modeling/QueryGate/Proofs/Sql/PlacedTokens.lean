import QueryGate.Proofs.Sql.Renaming
import QueryGate.Proofs.Sql.TokenPlaces

/-!
# Tokens by number

A token is known by its number or by the offset where it begins (`Lexed.placeOf_injective`). Edits
of tokens replace exactly those at the places where they start
(`exists_forall₂_placed_of_foldl`).
-/

namespace QueryGate

/-- The offset where a token begins, which is given by its number. -/
def placeOf (ts : List Token) (i : Nat) : Nat := (maskOf (ts.take i)).length

theorem placeOf_append (p q : List Token) : placeOf (p ++ q) p.length = (maskOf p).length := by
  rw [placeOf, List.take_left]

theorem take_placeOf (ts : List Token) (i : Nat) :
    (maskOf ts).take (placeOf ts i) = maskOf (ts.take i) := by
  have hsplit : maskOf ts = maskOf (ts.take i) ++ maskOf (ts.drop i) := by
    rw [← maskOf_append, List.take_append_drop]
  rw [hsplit, placeOf, List.take_left]

theorem exists_split_of_getElem? {α : Type} {xs : List α} {i : Nat} {x : α} (h : xs[i]? = some x) :
    ∃ p q, xs = p ++ x :: q ∧ p.length = i := by
  obtain ⟨hi, rfl⟩ := List.getElem?_eq_some_iff.1 h
  refine ⟨xs.take i, xs.drop (i + 1), ?_, List.length_take_of_le hi.le⟩
  rw [← List.drop_eq_getElem_cons hi, List.take_append_drop]

theorem getElem?_append_cons {α : Type} (p : List α) (x : α) (q : List α) :
    (p ++ x :: q)[p.length]? = some x := by
  rw [List.getElem?_append_right (Nat.le_refl _), Nat.sub_self]
  rfl

section Places

variable {ts : List Token}

/-- Two tokens do not begin at one place. -/
theorem Lexed.placeOf_injective (h : Lexed ts) {i j : Nat} {t u : Token} (hi : ts[i]? = some t)
    (hj : ts[j]? = some u) (heq : placeOf ts i = placeOf ts j) : i = j := by
  obtain ⟨p, q, hp, rfl⟩ := exists_split_of_getElem? hi
  obtain ⟨p', q', hp', rfl⟩ := exists_split_of_getElem? hj
  have hlen : (maskOf p).length = (maskOf p').length := by
    rw [← placeOf_append p (t :: q), ← placeOf_append p' (u :: q'), ← hp, ← hp', heq]
  rw [(h.split_unique hp hp' hlen).1]

/-- Where an identifier stands, it is the token of some number. -/
theorem StandsIn.exists_number {i : Identifier} {start stop : Nat}
    (h : StandsIn i start stop 0 ts) :
    ∃ n, ts[n]? = some i.token ∧ placeOf ts n = start := by
  obtain ⟨p, q, rfl, rfl, -⟩ := h
  exact ⟨p.length, getElem?_append_cons _ _ _, by rw [placeOf_append, Nat.zero_add]⟩

theorem StandsIn.of_number {i : Identifier} {n : Nat} (h : ts[n]? = some i.token) :
    StandsIn i (placeOf ts n) (placeOf ts n + i.token.mask.length) 0 ts := by
  obtain ⟨p, q, rfl, rfl⟩ := exists_split_of_getElem? h
  exact ⟨p, q, rfl, by rw [placeOf_append, Nat.zero_add], rfl⟩

end Places

/-- The tokens behind the first `n` characters, each with its place. -/
def placed (n : Nat) : List Token → List (Token × Nat)
  | [] => []
  | t :: ts => (t, n) :: placed (n + t.mask.length) ts

theorem map_fst_placed (n : Nat) (ts : List Token) : (placed n ts).map Prod.fst = ts := by
  induction ts generalizing n with
  | nil => rfl
  | cons t ts ih => rw [placed, List.map_cons, ih]

theorem placed_append (n : Nat) (p q : List Token) :
    placed n (p ++ q) = placed n p ++ placed (n + (maskOf p).length) q := by
  induction p generalizing n with
  | nil => rfl
  | cons t p ih =>
    rw [List.cons_append, placed, placed, List.cons_append, ih, maskOf_cons, List.length_append,
      Nat.add_assoc]

theorem le_of_mem_placed {n : Nat} {ts : List Token} {x : Token × Nat} (h : x ∈ placed n ts) :
    n ≤ x.2 := by
  induction ts generalizing n with
  | nil => cases h
  | cons t ts ih =>
    rcases List.mem_cons.1 h with rfl | h
    · exact Nat.le_refl _
    · have := ih h
      omega

theorem lt_of_mem_placed {n : Nat} {ts : List Token} (hne : ∀ t ∈ ts, t.mask ≠ [])
    {x : Token × Nat} (h : x ∈ placed n ts) : x.2 < n + (maskOf ts).length := by
  induction ts generalizing n with
  | nil => cases h
  | cons t ts ih =>
    obtain ⟨ht, hts⟩ := List.forall_mem_cons.1 hne
    have hpos := List.length_pos_iff.2 ht
    rw [maskOf_cons, List.length_append]
    rcases List.mem_cons.1 h with rfl | h
    · simp only
      omega
    · have := ih hts h
      omega

/-- What is in front of a placed token and what is behind it are placed tokens. -/
theorem exists_split_of_placed {ts : List Token} {p q : List (Token × Nat)} {x : Token × Nat}
    (h : placed 0 ts = p ++ x :: q) :
    ∃ a t b, ts = a ++ t :: b ∧ p = placed 0 a ∧ x = (t, (maskOf a).length) ∧
      q = placed ((maskOf a).length + t.mask.length) b := by
  have hts : ts = p.map Prod.fst ++ x.1 :: q.map Prod.fst := by
    rw [← map_fst_placed 0 ts, h, List.map_append, List.map_cons]
  rw [hts, placed_append, placed, Nat.zero_add] at h
  have hlen : (placed 0 (p.map Prod.fst)).length = p.length := by
    rw [← List.length_map Prod.fst, map_fst_placed, List.length_map]
  obtain ⟨hp, hx⟩ := List.append_inj h hlen
  obtain ⟨hx, hq⟩ := List.cons.inj hx
  exact ⟨_, x.1, _, hts, hp.symm, hx.symm, hq.symm⟩

theorem forall₂_placed {R : Token × Nat → Token → Prop} {n : Nat} {ts : List Token}
    (h : ∀ x ∈ placed n ts, R x x.1) : List.Forall₂ R (placed n ts) ts := by
  nth_rewrite 2 [← map_fst_placed n ts]
  exact List.forall₂_map_right_iff.2 (List.forall₂_same.2 h)

/-- Edits of placed tokens, applied from the last to the first, replace the tokens at the places
where they start, and no others. -/
theorem exists_forall₂_placed_of_foldl {R : Token × Nat → Token → Prop} {ts : List Token}
    (hne : ∀ t ∈ ts, t.mask ≠ []) {edits : List Edit}
    (hedits : ∀ e ∈ edits, EditsPiece Prod.fst R (placed 0 ts) e)
    (hsorted : edits.Pairwise fun d e => e.start < d.start)
    (hrefl : ∀ x ∈ placed 0 ts, (∀ e ∈ edits, e.start ≠ x.2) → R x x.1) (r : Text) :
    ∃ us, List.Forall₂ R (placed 0 ts) us ∧
      edits.foldl Edit.splice (textOf ts ++ r) = textOf us ++ r := by
  induction edits generalizing ts r with
  | nil => exact ⟨ts, forall₂_placed fun x hx => hrefl x hx nofun, rfl⟩
  | cons e edits ih =>
    obtain ⟨hlt, hrest⟩ := List.pairwise_cons.1 hsorted
    obtain ⟨p, x, u, q, hsplit, hxu, rfl⟩ := hedits e List.mem_cons_self
    obtain ⟨a, t, b, rfl, rfl, rfl, rfl⟩ := exists_split_of_placed hsplit
    rw [map_fst_placed] at hlt ⊢
    simp only at hlt ⊢
    have hplace : (textOf a).length = (maskOf a).length := (length_maskOf a).symm
    have hnea : ∀ t ∈ a, t.mask ≠ [] := fun t ht => hne t (List.mem_append_left _ ht)
    -- The edits that are left are all in front of this one.
    have hbefore : ∀ d ∈ edits, EditsPiece Prod.fst R (placed 0 a) d := by
      intro d hd
      have := hedits d (List.mem_cons_of_mem _ hd)
      rw [placed_append] at this
      refine this.of_start_lt ?_
      rw [map_fst_placed]
      exact hlt d hd
    have hsame : List.Forall₂ R (placed ((maskOf a).length + t.mask.length) b) b := by
      refine forall₂_placed fun y hy => hrefl y ?_ ?_
      · rw [placed_append, placed, Nat.zero_add]
        exact List.mem_append_right _ (List.mem_cons_of_mem _ hy)
      · have hle := le_of_mem_placed hy
        have hpos := List.length_pos_iff.2 (hne t (by simp))
        refine List.forall_mem_cons.2 ⟨?_, fun d hd => ?_⟩
        · rw [map_fst_placed]
          simp only
          omega
        · have := hlt d hd
          omega
    obtain ⟨us, hus, hfold⟩ := ih hnea hbefore hrest (fun y hy hno => by
      refine hrefl y ?_ (List.forall_mem_cons.2 ⟨?_, hno⟩)
      · rw [placed_append]
        exact List.mem_append_left _ hy
      · have := lt_of_mem_placed hnea hy
        rw [map_fst_placed]
        simp only
        omega) (u.text ++ (textOf b ++ r))
    refine ⟨us ++ u :: b, ?_, ?_⟩
    · rw [placed_append, placed, Nat.zero_add]
      exact List.rel_append hus (.cons hxu hsame)
    · rw [List.foldl_cons, textOf_append, textOf_cons, List.append_assoc, List.append_assoc,
        Edit.splice_middle, hfold]
      simp

end QueryGate
