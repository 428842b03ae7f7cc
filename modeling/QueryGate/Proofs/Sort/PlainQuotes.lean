import QueryGate.Proofs.Bound.Clauses
import QueryGate.Proofs.Sort.SortItems
import QueryGate.Proofs.Sql.ClauseScan
import QueryGate.Proofs.Sql.SelectTokens

/-!
# Sort lists and names in quotes

The search for sort lists does not look whether a word or a comma stands in a name in quotes. Where
no name in quotes holds any of what it looks for, it finds what it would find in the text with these
names blotted out (`mem_sortItems_of_plainQuotes`).
-/

namespace QueryGate

/-! ## Where sort lists begin -/

theorem orderBy_eq_some_iff {before after rest : Text} :
    orderBy before after = some ((), rest) ↔
      atWordStart before = true ∧ atWordEnd rest = true ∧
        ∃ k y, KeywordGap "ORDER" k ∧ Spells "BY" y ∧ after = k ++ (y ++ rest) := by
  have hread : orderBy before after = if atWordStart before then
      ((((keyword? "ORDER" after).bind spaced?).bind (keyword? "BY")).filter atWordEnd).map ((), ·)
      else none := rfl
  rw [hread]
  constructor
  · intro h
    split at h
    · rename_i hstart
      obtain ⟨r, hr, heq⟩ := Option.map_eq_some_iff.1 h
      obtain rfl := (Prod.mk.inj heq).2
      obtain ⟨hr, hend⟩ := Option.filter_eq_some_iff.1 hr
      obtain ⟨v, hv, hby⟩ := Option.bind_eq_some_iff.1 hr
      obtain ⟨k, hk, -, rfl⟩ := keyword?_bind_spaced?_eq_some_iff.1 hv
      obtain ⟨y, rfl, hy⟩ := keyword?_eq_some_iff.1 hby
      exact ⟨hstart, hend, k, y, hk, hy, rfl⟩
    · cases h
  · rintro ⟨hstart, hend, k, y, hk, hy, rfl⟩
    have hgap := keyword?_bind_spaced?_eq_some_iff.2
      ⟨k, hk, hy.head?_any_isBlank (by decide) rest, rfl⟩
    rw [if_pos hstart, hgap, Option.bind_some, keyword?_append hy, Option.filter_some, if_pos hend,
      Option.map_some]

/-- The words `ORDER BY` as they are written hold no quote. -/
theorem quote_not_mem_orderBy {k y : Text} (hk : KeywordGap "ORDER" k) (hy : Spells "BY" y) :
    '"' ∉ k ++ y := by
  have hmade : MadeOf "orderby" (k ++ y) :=
    (hk.madeOf (by decide)).append (.of_spells hy (by decide))
  exact hmade.not_mem (by decide) (by decide) (by decide)

theorem orderBy_of_not_isWordChar (before : Text) {c : Char} (hc : isWordChar c = false)
    (t : Text) : orderBy before (c :: t) = none := by
  rw [Option.eq_none_iff_forall_ne_some]
  rintro ⟨⟨⟩, r⟩ hr
  obtain ⟨-, -, k, y, hk, -, heq⟩ := orderBy_eq_some_iff.1 hr
  obtain ⟨x, g, rfl, hx, -, -⟩ := hk.parts
  obtain ⟨hne, hchars⟩ := isWord_of_spells (by decide) (by decide) hx
  obtain ⟨d, x, rfl⟩ := List.exists_cons_of_ne_nil hne
  obtain ⟨rfl, -⟩ := List.cons.inj heq
  rw [hchars c List.mem_cons_self] at hc
  cases hc

theorem orderBy_quote (before t : Text) : orderBy before ('"' :: t) = none :=
  orderBy_of_not_isWordChar before rfl t

/-! ## Plain names in quotes -/

/-- The text between quotes has neither a sign nor a word that tells where a sort list begins or
ends, or an item of one. -/
structure IsPlainQuoted (n : Text) : Prop where
  quiet : ∀ c ∈ n, isQuiet c = true
  noBegin : occurs orderBy n = false
  noEnd : occurs (oneWord sortListEnds) n = false

/-- Every name in quotes is plain. -/
def PlainQuotes (masked : Text) : Prop :=
  ∀ a n b, masked = a ++ '"' :: (n ++ '"' :: b) → '"' ∉ n → a.count '"' % 2 = 0 → IsPlainQuoted n

instance (n : Text) : Decidable (IsPlainQuoted n) :=
  decidable_of_iff
    ((∀ c ∈ n, isQuiet c = true) ∧ occurs orderBy n = false ∧
      occurs (oneWord sortListEnds) n = false)
    ⟨fun h => ⟨h.1, h.2.1, h.2.2⟩, fun h => ⟨h.quiet, h.noBegin, h.noEnd⟩⟩

/-- The names in quotes, told by where each is opened. -/
theorem plainQuotes_iff {masked : Text} :
    PlainQuotes masked ↔ ∀ k < masked.length, masked[k]? = some '"' →
      (masked.take k).count '"' % 2 = 0 → '"' ∈ masked.drop (k + 1) →
        IsPlainQuoted ((masked.drop (k + 1)).takeWhile (· != '"')) := by
  constructor
  · intro h k hk hquote heven hmem
    obtain ⟨n, b, hdrop, hn⟩ := List.eq_append_cons_of_mem hmem
    have htake : (masked.drop (k + 1)).takeWhile (· != '"') = n := by
      rw [hdrop, takeWhile_append_of_all (bne_of_not_mem hn) rfl]
    rw [htake]
    refine h (masked.take k) n b ?_ hn heven
    have hget : masked[k] = '"' := Option.some.inj ((List.getElem?_eq_getElem hk).symm.trans hquote)
    rw [← hdrop, ← hget, ← List.drop_eq_getElem_cons hk, List.take_append_drop]
  · rintro h a n b rfl hn heven
    have hdrop : (a ++ '"' :: (n ++ '"' :: b)).drop (a.length + 1) = n ++ '"' :: b := by
      rw [← List.drop_drop, List.drop_left]
      rfl
    have := h a.length (by simp) (by simp) (by rwa [List.take_left]) (by rw [hdrop]; simp)
    rwa [hdrop, takeWhile_append_of_all (bne_of_not_mem hn) rfl] at this

instance (masked : Text) : Decidable (PlainQuotes masked) := decidable_of_iff _ plainQuotes_iff.symm

theorem ofLetters_sortListEnds : OfLetters sortListEnds := by decide

theorem inQuotes_append (n t : Text) : inQuotes n ++ t = '"' :: (n ++ '"' :: t) := by
  simp [inQuotes]

namespace IsPlainQuoted

variable {n : Text}

theorem replicate (k : Nat) : IsPlainQuoted (List.replicate k maskChar) := by
  have hmask : ∀ a b, List.replicate k maskChar = a ++ b → b ≠ [] → ∃ t, b = maskChar :: t := by
    intro a b hab hb
    obtain ⟨c, t, rfl⟩ := List.exists_cons_of_ne_nil hb
    rw [List.eq_of_mem_replicate (n := k) (by rw [hab]; simp : c ∈ List.replicate k maskChar)]
    exact ⟨t, rfl⟩
  refine ⟨fun c hc => ?_, ?_, ?_⟩
  · rw [List.eq_of_mem_replicate hc]
    rfl
  · rw [occurs_eq_false_iff]
    intro a b hab hb
    obtain ⟨t, rfl⟩ := hmask a b hab hb
    exact orderBy_of_not_isWordChar _ rfl t
  · rw [occurs_eq_false_iff]
    intro a b hab hb
    obtain ⟨t, rfl⟩ := hmask a b hab hb
    rw [← Option.not_isSome_iff_eq_none, Bool.not_eq_true, oneWord_isSome_eq,
      oneWord_eq_none_of_not_isWordChar ofLetters_sortListEnds rfl, Bool.and_false]

/-- The scan for the end of a list passes the name over. -/
theorem passOver (h : IsPlainQuoted n) (depth : Nat) :
    passOver sortListEnds true depth n = some depth := by
  have hpart : ∀ a b start, n = a ++ b → (start = true → atWordStart a.reverse = true) →
      QueryGate.passOver sortListEnds start depth b = some depth := by
    intro a b start hab hstart
    induction b generalizing a start with
    | nil => rfl
    | cons c b ih =>
      have hquiet := h.quiet c (by rw [hab]; simp)
      have hstays : StaysAt sortListEnds start depth c b := by
        refine .of_isQuiet hquiet fun _ hs => ?_
        have hnone := occurs_eq_false_iff.1 h.noEnd a (c :: b) hab (List.cons_ne_nil c b)
        rw [← Option.not_isSome_iff_eq_none, oneWord_isSome_eq, hstart hs, Bool.true_and] at hnone
        rwa [Bool.eq_false_iff]
      rw [hstays.passOver_cons]
      refine ih (a ++ [c]) _ (by rw [hab]; simp) fun hs => ?_
      rw [List.reverse_append]
      simpa [atWordStart] using hs
  exact hpart [] n true rfl fun _ => rfl

end IsPlainQuoted

/-! ## Blotted texts -/

/-- A text, and the same text with each name in quotes blotted out. A quote that is not closed
stands for itself. -/
inductive Blotted : (t blotted : Text) → Prop
  | nil : Blotted [] []
  | cons {c : Char} {t u : Text} (hc : c ≠ '"') (h : Blotted t u) : Blotted (c :: t) (c :: u)
  | name {n t u : Text} (hn : '"' ∉ n) (plain : IsPlainQuoted n) (h : Blotted t u) :
      Blotted ('"' :: (n ++ '"' :: t)) ('"' :: (List.replicate n.length maskChar ++ '"' :: u))
  | opened {t u : Text} (ht : '"' ∉ t) (h : Blotted t u) : Blotted ('"' :: t) ('"' :: u)

theorem quotedTail?_eq_none {t : Text} (h : '"' ∉ t) : quotedTail? t = none := by
  induction t with
  | nil => rfl
  | cons c t ih =>
    obtain ⟨hc, ht⟩ := List.ne_and_not_mem_of_not_mem_cons h
    rw [quotedTail?, if_neg (by simpa using hc.symm), ih ht]
    rfl

theorem PlainQuotes.blotted {t : Text} (h : PlainQuotes t) : Blotted t (maskQuoted t) := by
  cases t with
  | nil => exact .nil
  | cons c t =>
    by_cases hc : c = '"'
    · subst hc
      by_cases hquote : '"' ∈ t
      · obtain ⟨n, r, rfl, hn⟩ := List.eq_append_cons_of_mem hquote
        have hrest : PlainQuotes r := fun a m b hr hm ha =>
          h ('"' :: (n ++ '"' :: a)) m b (by rw [hr]; simp) hm (by
            simp only [List.count_cons_self, List.count_append, List.count_eq_zero.2 hn]
            omega)
        rw [maskQuoted_name hn]
        exact .name hn (h [] n r rfl hn rfl) hrest.blotted
      · have hrest : PlainQuotes t := fun a n b ht => absurd (by rw [ht]; simp) hquote
        have hmask : maskQuoted ('"' :: t) = '"' :: maskQuoted t := by
          rw [maskQuoted, maskFrom, if_pos (beq_self_eq_true _), quotedTail?_eq_none hquote]
          rfl
        rw [hmask]
        exact .opened hquote hrest.blotted
    · have hrest : PlainQuotes t := fun a n b ht hn ha =>
        h (c :: a) n b (by rw [ht]; rfl) hn (by rwa [List.count_cons_of_ne hc])
      have hmask := maskQuoted_append (w := [c]) (by simpa using Ne.symm hc) t
      rw [List.singleton_append, List.singleton_append] at hmask
      rw [hmask]
      exact .cons hc hrest.blotted
termination_by t.length

namespace Blotted

variable {t u w r s : Text}

theorem head?_eq (h : Blotted t u) : t.head? = u.head? := by
  cases h <;> rfl

/-- Characters outside quotes are not blotted. -/
theorem of_cons {c : Char} (h : Blotted (c :: t) u) (hc : c ≠ '"') :
    ∃ v, u = c :: v ∧ Blotted t v := by
  generalize hx : c :: t = x at h
  cases h with
  | nil => cases hx
  | cons _ h =>
    obtain ⟨rfl, rfl⟩ := List.cons.inj hx
    exact ⟨_, rfl, h⟩
  | name => exact absurd (List.cons.inj hx).1 hc
  | opened => exact absurd (List.cons.inj hx).1 hc

theorem of_blotted_cons {c : Char} (h : Blotted t (c :: u)) (hc : c ≠ '"') :
    ∃ v, t = c :: v ∧ Blotted v u := by
  generalize hx : c :: u = x at h
  cases h with
  | nil => cases hx
  | cons _ h =>
    obtain ⟨rfl, rfl⟩ := List.cons.inj hx
    exact ⟨_, rfl, h⟩
  | name => exact absurd (List.cons.inj hx).1 hc
  | opened => exact absurd (List.cons.inj hx).1 hc

theorem split (h : Blotted (w ++ r) u) (hw : '"' ∉ w) : ∃ s, u = w ++ s ∧ Blotted r s := by
  induction w generalizing u with
  | nil => exact ⟨u, rfl, h⟩
  | cons c w ih =>
    obtain ⟨hc, hw⟩ := List.ne_and_not_mem_of_not_mem_cons hw
    obtain ⟨v, rfl, hv⟩ := of_cons h hc.symm
    obtain ⟨s, rfl, hs⟩ := ih hv hw
    exact ⟨s, rfl, hs⟩

theorem split_blotted (h : Blotted t (w ++ s)) (hw : '"' ∉ w) : ∃ r, t = w ++ r ∧ Blotted r s := by
  induction w generalizing t with
  | nil => exact ⟨t, rfl, h⟩
  | cons c w ih =>
    obtain ⟨hc, hw⟩ := List.ne_and_not_mem_of_not_mem_cons hw
    obtain ⟨v, rfl, hv⟩ := of_blotted_cons h hc.symm
    obtain ⟨r, rfl, hr⟩ := ih hv hw
    exact ⟨r, rfl, hr⟩

theorem atWordEnd_eq (h : Blotted t u) : atWordEnd t = atWordEnd u := by
  rw [atWordEnd, atWordEnd, h.head?_eq]

/-- The same words begin both texts. -/
theorem oneWord_isSome_eq {words : List Text} (hwords : OfLetters words) (h : Blotted t u) :
    (oneWord words [] t).isSome = (oneWord words [] u).isSome := by
  have hquote {k x : Text} (hk : k ∈ words) (hx : Spells k x) : '"' ∉ x := fun hmem =>
    isWordChar_ne_quote ((isWord_of_spells (hwords k hk).1 (hwords k hk).2 hx).2 _ hmem) rfl
  rw [Bool.eq_iff_iff, oneWord_isSome_iff, oneWord_isSome_iff]
  constructor
  · rintro ⟨k, hk, x, r, rfl, hx, hend⟩
    obtain ⟨s, rfl, hs⟩ := h.split (hquote hk hx)
    exact ⟨k, hk, x, s, rfl, hx, by rwa [← hs.atWordEnd_eq]⟩
  · rintro ⟨k, hk, x, s, rfl, hx, hend⟩
    obtain ⟨r, rfl, hr⟩ := h.split_blotted (hquote hk hx)
    exact ⟨k, hk, x, r, rfl, hx, by rwa [hr.atWordEnd_eq]⟩

variable {before before' : Text}

/-- A list ends at the same place in both texts. -/
theorem clauseEndFrom_eq (h : Blotted t u) (hlen : before.length = before'.length)
    (hhead : before.head? = before'.head?) (depth : Nat) :
    clauseEndFrom sortListEnds before depth t = clauseEndFrom sortListEnds before' depth u := by
  induction h generalizing before before' depth with
  | nil => exact hlen
  | @cons c t u hc h ih =>
    have hstart : atWordStart before = atWordStart before' := by
      rw [atWordStart, atWordStart, hhead]
    have hbegins : beginsClause sortListEnds before (c :: t) =
        beginsClause sortListEnds before' (c :: u) := by
      rw [beginsClause_eq (by decide), beginsClause_eq (by decide), hstart,
        (h.cons hc).oneWord_isSome_eq ofLetters_sortListEnds]
    have hlater (depth : Nat) : clauseEndFrom sortListEnds (c :: before) depth t =
        clauseEndFrom sortListEnds (c :: before') depth u :=
      @ih (c :: before) (c :: before') (congrArg (· + 1) hlen) rfl depth
    unfold clauseEndFrom
    rw [hbegins, hlen, hlater, hlater, hlater]
  | @name n t u hn plain h ih =>
    have hpass : ∀ {m : Text}, IsPlainQuoted m → ∀ (p v : Text),
        clauseEndFrom sortListEnds p depth (inQuotes m ++ v) =
          clauseEndFrom sortListEnds ((inQuotes m).reverse ++ p) depth v := fun hm p v =>
      clauseEndFrom_append ofLetters_sortListEnds (by decide) (fun _ => rfl)
        (passOver_inQuotes ofLetters_sortListEnds (hm.passOver depth))
        (.inl (by rw [inQuotes, List.getLast?_concat]; rfl))
    rw [← inQuotes_append, ← inQuotes_append, hpass plain, hpass (.replicate n.length)]
    exact ih (by simp [inQuotes, hlen]) (by simp [inQuotes]) depth
  | opened ht h ih =>
    have hpass (p v : Text) : clauseEndFrom sortListEnds p depth ('"' :: v) =
        clauseEndFrom sortListEnds ('"' :: p) depth v :=
      clauseEndFrom_append (t := ['"']) ofLetters_sortListEnds (by decide) (fun _ => rfl)
        (passOver_mark ofLetters_sortListEnds rfl rfl) (.inl rfl)
    rw [hpass, hpass]
    exact @ih ('"' :: before) ('"' :: before') (congrArg (· + 1) hlen) rfl depth

/-- Both texts have the same characters where either has one that counts. -/
theorem forall₂ (h : Blotted t u) :
    List.Forall₂ (fun c d => c = d ∨ isQuiet c = true ∧ isQuiet d = true) t u := by
  induction h with
  | nil => exact .nil
  | cons _ _ ih => exact .cons (.inl rfl) ih
  | @name n t u _ plain _ ih =>
    have hname : List.Forall₂ (fun c d => c = d ∨ isQuiet c = true ∧ isQuiet d = true) n
        (List.replicate n.length maskChar) := by
      refine List.forall₂_iff_get.2 ⟨by simp, fun i hi _ => .inr ⟨?_, ?_⟩⟩
      · exact plain.quiet _ (List.get_mem n ⟨i, hi⟩)
      · simp only [List.get_eq_getElem, List.getElem_replicate]
        rfl
    exact .cons (.inl rfl) (List.rel_append hname (.cons (.inl rfl) ih))
  | opened _ _ ih => exact .cons (.inl rfl) ih

end Blotted

theorem topLevelCommas_congr {t u : Text}
    (h : List.Forall₂ (fun c d => c = d ∨ isQuiet c = true ∧ isQuiet d = true) t u) (depth : Int)
    (offset : Nat) : topLevelCommas depth offset t = topLevelCommas depth offset u := by
  induction h generalizing depth offset with
  | nil => rfl
  | @cons c d t u hcd _ ih =>
    rcases hcd with rfl | ⟨hc, hd⟩
    · simp only [topLevelCommas, ih]
    · have hskip {e : Char} (he : isQuiet e = true) (v : Text) :
          topLevelCommas depth offset (e :: v) = topLevelCommas depth (offset + 1) v := by
        simp only [isQuiet, Bool.and_eq_true, bne_iff_ne, ne_eq] at he
        simp [topLevelCommas, he]
      rw [hskip hc, hskip hd, ih]

/-! ## Lists of both texts -/

namespace Blotted

variable {t u before before' : Text}

/-- The words `ORDER BY` are read in both texts or in neither. -/
theorem orderBy_eq (h : Blotted t u) (hhead : before.head? = before'.head?) :
    orderBy before t = none ∧ orderBy before' u = none ∨
      ∃ x r s, x ≠ [] ∧ t = x ++ r ∧ u = x ++ s ∧ Blotted r s ∧
        orderBy before t = some ((), r) ∧ orderBy before' u = some ((), s) := by
  have hstart : atWordStart before = atWordStart before' := by
    rw [atWordStart, atWordStart, hhead]
  by_cases hread : ∃ k y r, KeywordGap "ORDER" k ∧ Spells "BY" y ∧ t = (k ++ y) ++ r ∧
      atWordStart before = true ∧ atWordEnd r = true
  · obtain ⟨k, y, r, hk, hy, rfl, hbefore, hend⟩ := hread
    obtain ⟨s, rfl, hs⟩ := h.split (quote_not_mem_orderBy hk hy)
    have hne : k ++ y ≠ [] := by simp [hk.ne_nil]
    refine .inr ⟨k ++ y, r, s, hne, rfl, rfl, hs, ?_, ?_⟩
    · exact orderBy_eq_some_iff.2 ⟨hbefore, hend, k, y, hk, hy, List.append_assoc ..⟩
    · exact orderBy_eq_some_iff.2 ⟨hstart ▸ hbefore, hs.atWordEnd_eq ▸ hend, k, y, hk, hy,
        List.append_assoc ..⟩
  · refine .inl ⟨?_, ?_⟩
    · rw [Option.eq_none_iff_forall_ne_some]
      rintro ⟨⟨⟩, r⟩ hr
      obtain ⟨hbefore, hend, k, y, hk, hy, rfl⟩ := orderBy_eq_some_iff.1 hr
      exact hread ⟨k, y, r, hk, hy, (List.append_assoc ..).symm, hbefore, hend⟩
    · rw [Option.eq_none_iff_forall_ne_some]
      rintro ⟨⟨⟩, s⟩ hs
      obtain ⟨hbefore, hend, k, y, hk, hy, rfl⟩ := orderBy_eq_some_iff.1 hs
      rw [← List.append_assoc] at h
      obtain ⟨r, rfl, hr⟩ := h.split_blotted (quote_not_mem_orderBy hk hy)
      exact hread ⟨k, y, r, hk, hy, rfl, hstart ▸ hbefore, hr.atWordEnd_eq ▸ hend⟩

end Blotted

/-- No `ORDER BY` is read in a plain name in quotes. -/
theorem IsPlainQuoted.orderBy_eq_none {n a b : Text} (h : IsPlainQuoted n) (hn : n = a ++ b)
    (before t : Text) : orderBy (a.reverse ++ '"' :: before) (b ++ '"' :: t) = none := by
  cases b with
  | nil => exact orderBy_quote _ _
  | cons c b =>
    rw [Option.eq_none_iff_forall_ne_some]
    rintro ⟨⟨⟩, r⟩ hr
    obtain ⟨hstart, hend, k, y, hk, hy, heq⟩ := orderBy_eq_some_iff.1 hr
    have hword : atWordStart a.reverse = true := by
      cases hrev : a.reverse with
      | nil => rfl
      | cons d v =>
        rw [hrev] at hstart
        exact hstart
    -- The words are read in the name already, without the quote behind it.
    rw [← List.append_assoc] at heq
    obtain ⟨z, hz, rfl⟩ := exists_append_of_unquoted (quote_not_mem_orderBy hk hy) heq
    have hread : orderBy a.reverse (c :: b) = some ((), z) :=
      orderBy_eq_some_iff.2 ⟨hword, (ReadsWords.oneWord []).beforeQuote z t hend, k, y, hk, hy,
        by rw [hz, List.append_assoc]⟩
    rw [occurs_eq_false_iff.1 h.noBegin a (c :: b) hn (List.cons_ne_nil c b)] at hread
    cases hread

theorem IsPlainQuoted.hitsFrom_inQuotes {n : Text} (h : IsPlainQuoted n) (before t : Text) :
    hitsFrom orderBy before 0 (inQuotes n ++ t) =
      hitsFrom orderBy ((inQuotes n).reverse ++ before) 0 t := by
  refine hitsFrom_append_of_none fun a b hab hb => ?_
  cases a with
  | nil =>
    obtain rfl : inQuotes n = b := hab
    rw [inQuotes_append]
    exact orderBy_quote _ _
  | cons c a =>
    obtain ⟨hc, hcut⟩ := List.cons.inj (show '"' :: (n ++ ['"']) = c :: (a ++ b) from hab)
    obtain ⟨y, -, hy⟩ | ⟨y, hn, rfl⟩ := List.append_eq_append_iff.1 hcut
    · obtain rfl : b = ['"'] := by
        cases y with
        | nil => exact hy.symm
        | cons d y =>
          obtain ⟨-, hnil⟩ := List.cons.inj hy
          exact absurd (List.append_eq_nil_iff.1 hnil.symm).2 hb
      exact orderBy_quote _ _
    · rw [← hc, List.reverse_cons, List.append_assoc, List.append_assoc]
      exact h.orderBy_eq_none hn before t

theorem clauseEnd_reverse_append (words : List Text) (before t : Text) :
    clauseEnd (before.reverse ++ t) before.length words = clauseEndFrom words before 0 t := by
  rw [clauseEnd, List.take_left' List.length_reverse, List.drop_left' List.length_reverse,
    List.reverse_reverse]

/-- In two texts the same sort lists are found, and each ends at the same place. -/
def SameLists (before before' t u : Text) : Prop :=
  hitsFrom orderBy before 0 t = hitsFrom orderBy before' 0 u ∧
    ∀ k ∈ hitsFrom orderBy before 0 t, clauseEnd (before.reverse ++ t) k.stop sortListEnds =
      clauseEnd (before'.reverse ++ u) k.stop sortListEnds

namespace SameLists

variable {t u before before' : Text}

/-- Parts in which no list begins are passed over. -/
theorem prepend {p p' : Text} (h : SameLists (p.reverse ++ before) (p'.reverse ++ before') t u)
    (hp : hitsFrom orderBy before 0 (p ++ t) = hitsFrom orderBy (p.reverse ++ before) 0 t)
    (hp' : hitsFrom orderBy before' 0 (p' ++ u) = hitsFrom orderBy (p'.reverse ++ before') 0 u) :
    SameLists before before' (p ++ t) (p' ++ u) := by
  obtain ⟨heq, hends⟩ := h
  refine ⟨by rw [hp, hp', heq], fun k hk => ?_⟩
  have := hends k (hp ▸ hk)
  simpa using this

/-- Where a list begins in both texts, the next are looked for behind its words. -/
theorem read {x r s : Text} (hx : x ≠ []) (hlen : before.length = before'.length)
    (hrs : Blotted r s) (hread : orderBy before (x ++ r) = some ((), r))
    (hread' : orderBy before' (x ++ s) = some ((), s))
    (h : SameLists (x.reverse ++ before) (x.reverse ++ before') r s) :
    SameLists before before' (x ++ r) (x ++ s) := by
  obtain ⟨heq, hends⟩ := h
  have hhits := hitsFrom_of_read hx hread
  refine ⟨by rw [hhits, hitsFrom_of_read hx hread', heq, hlen], fun k hk => ?_⟩
  rw [hhits] at hk
  have htext (b v : Text) : b.reverse ++ (x ++ v) = (x.reverse ++ b).reverse ++ v := by simp
  rw [htext, htext]
  rcases List.mem_cons.1 hk with rfl | hk
  · have hstop (b : Text) : b.length + x.length = (x.reverse ++ b).length := by
      rw [List.length_append, List.length_reverse, Nat.add_comm]
    have hhead : (x.reverse ++ before).head? = (x.reverse ++ before').head? := by
      obtain ⟨c, y, hy⟩ := List.exists_cons_of_ne_nil (List.reverse_ne_nil_iff.2 hx)
      rw [hy]
      rfl
    have hlen' : (x.reverse ++ before).length = (x.reverse ++ before').length := by
      rw [List.length_append, List.length_append, hlen]
    change clauseEnd _ (before.length + x.length) _ = clauseEnd _ (before.length + x.length) _
    rw [hstop, clauseEnd_reverse_append, hlen', clauseEnd_reverse_append]
    exact hrs.clauseEndFrom_eq hlen' hhead 0
  · exact hends k hk

end SameLists

/-- What is blotted out hides no sort list, and shows none. -/
theorem Blotted.sameLists {t u before before' : Text} (h : Blotted t u)
    (hlen : before.length = before'.length) (hhead : before.head? = before'.head?) :
    SameLists before before' t u := by
  -- Behind the words `ORDER BY` the rest is scanned, so that no induction on `h` goes through.
  induction hn : t.length using Nat.strong_induction_on generalizing t u before before' with
  | _ n ih =>
    subst hn
    have hlater {t' u' b b' : Text} (hlt : t'.length < t.length) (h' : Blotted t' u')
        (hlen' : b.length = b'.length) (hhead' : b.head? = b'.head?) : SameLists b b' t' u' :=
      ih _ hlt h' hlen' hhead' rfl
    rcases h.orderBy_eq hhead with ⟨hnone, hnone'⟩ | ⟨x, r, s, hx, rfl, rfl, hrs, hread, hread'⟩
    · cases h with
      | nil => exact ⟨rfl, fun k hk => nomatch hk⟩
      | @cons c t u hc h =>
        have hbehind : SameLists (c :: before) (c :: before') t u :=
          hlater (Nat.lt_succ_self _) h (congrArg (· + 1) hlen) rfl
        exact @SameLists.prepend _ _ _ _ [c] [c] hbehind (hitsFrom_cons_of_none hnone)
          (hitsFrom_cons_of_none hnone')
      | @name n t u hn plain h =>
        have hbehind : SameLists ((inQuotes n).reverse ++ before)
            ((inQuotes (List.replicate n.length maskChar)).reverse ++ before') t u :=
          hlater (by simp only [List.length_cons, List.length_append]; omega) h
            (by simp [inQuotes, hlen]) (by simp [inQuotes])
        rw [← inQuotes_append, ← inQuotes_append]
        exact hbehind.prepend (plain.hitsFrom_inQuotes _ _)
          ((IsPlainQuoted.replicate n.length).hitsFrom_inQuotes _ _)
      | @opened t u ht h =>
        have hbehind : SameLists ('"' :: before) ('"' :: before') t u :=
          hlater (Nat.lt_succ_self _) h (congrArg (· + 1) hlen) rfl
        exact @SameLists.prepend _ _ _ _ ['"'] ['"'] hbehind (hitsFrom_cons_of_none hnone)
          (hitsFrom_cons_of_none hnone')
    · have hpos := List.length_pos_iff.2 hx
      refine .read hx hlen hrs hread hread' (hlater ?_ hrs ?_ ?_)
      · rw [List.length_append]
        omega
      · rw [List.length_append, List.length_append, hlen]
      · obtain ⟨c, y, hy⟩ := List.exists_cons_of_ne_nil (List.reverse_ne_nil_iff.2 hx)
        rw [hy]
        rfl

/-- Where the names in quotes are plain, the items of a list that is found are sort items. -/
theorem mem_sortItems_of_plainQuotes {sql : Text} (h : PlainQuotes (maskLiterals sql))
    {list s : Span}
    (hlist : list ∈ sortLists (maskLiterals sql))
    (hs : s ∈ topLevelItems (maskLiterals sql) list.start list.stop) : s ∈ sortItems sql := by
  obtain ⟨k, hk, rfl⟩ := List.mem_map.1 hlist
  have hk := (List.mem_filter.1 hk).1
  obtain ⟨heq, hends⟩ := @Blotted.sameLists _ _ [] [] h.blotted rfl rfl
  have hk' : k ∈ hits orderBy (maskQuoted (maskLiterals sql)) := by
    rw [hits, ← heq]
    exact hk
  have hstop : clauseEnd (maskLiterals sql) k.stop sortListEnds =
      clauseEnd (maskQuoted (maskLiterals sql)) k.stop sortListEnds := hends k hk
  have hslices (stop : Nat) := List.forall₂_drop k.stop (List.forall₂_take stop h.blotted.forall₂)
  refine List.mem_flatMap.2 ⟨k, hk', ?_⟩
  change s ∈ topLevelItems (maskLiterals sql) k.stop
    (clauseEnd (maskLiterals sql) k.stop sortListEnds) at hs
  rw [hstop, topLevelItems, Text.slice, topLevelCommas_congr (hslices _)] at hs
  exact hs

end QueryGate
