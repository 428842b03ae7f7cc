import QueryGate.Proofs.Sql.GroupedItems
import QueryGate.Proofs.Sql.LeadingWords
import QueryGate.Proofs.Sql.QualifiedPlaces
import QueryGate.Proofs.Sql.SelectTokens

/-!
# What stands beside a bare name of a select list

A name that is looked up in a select list has no dot behind it, no `AS` in front, and nothing
directly in front that would make it a part of something else (`apart_of_mem_selectedNames`). The
reader sees only the expression that the name is in, so it also matters what follows the end of an
expression (`NoDotAt`) and what leads up to its start (`BeginsAfter`). Names in quotes are masked for
the reader, but beside the name nothing of it changes by that (`beside_of_mem_selectedNames`).
-/

namespace QueryGate

/-! ## Where no dot follows -/

theorem beginsWithDot_blanks {g : Text} (hg : allBlank g = true) (t : Text) :
    beginsWithDot (g ++ t) = beginsWithDot t := by
  rw [beginsWithDot, skipBlanks, List.dropWhile_append_of_pos (List.all_eq_true.1 hg)]
  rfl

theorem beginsWithDot_cons_of_ne {c : Char} (hc : isBlank c = false) (hdot : c ≠ '.') (t : Text) :
    beginsWithDot (c :: t) = false := by
  rw [beginsWithDot, skipBlanks_eq_self (by simpa using hc)]
  simpa using hdot

theorem beginsWithDot_cons_of_isWordChar {c : Char} (hc : isWordChar c = true) (t : Text) :
    beginsWithDot (c :: t) = false := by
  refine beginsWithDot_cons_of_ne (isBlank_eq_false_of_isWordChar hc) ?_ t
  rintro rfl
  exact absurd hc (by decide)

/-- No dot follows an offset, blanks aside. -/
def NoDotAt (t : Text) (n : Nat) : Prop := beginsWithDot (t.drop n) = false

namespace NoDotAt

theorem of_length_le {t : Text} {n : Nat} (h : t.length ≤ n) : NoDotAt t n := by
  rw [NoDotAt, List.drop_of_length_le h]
  rfl

theorem of_split {a b : Text} (h : beginsWithDot b = false) : NoDotAt (a ++ b) a.length := by
  rwa [NoDotAt, List.drop_left]

/-- Inside a slice no dot follows if none does in what is left of it, or behind that. -/
theorem of_slice {t a b : Text} {start stop : Nat} (hstop : NoDotAt t stop) (hne : a ++ b ≠ [])
    (h : Text.slice t start stop = a ++ b)
    (hb : ∀ q, beginsWithDot q = false → beginsWithDot (b ++ q) = false) :
    NoDotAt t (start + a.length) := by
  obtain ⟨q, ht, hstart, hlen⟩ := Text.exists_slice (by rwa [h])
  rw [h] at ht hlen
  have hq : beginsWithDot q = false := by
    rcases hlen with hlen | rfl
    · have hfront : (t.take start ++ (a ++ b)).length = stop := by
        rw [List.length_append, hstart, hlen]
      rwa [NoDotAt, ht, ← List.append_assoc, ← hfront, List.drop_left] at hstop
    · rfl
  have hsplit : t = (t.take start ++ a) ++ (b ++ q) := by
    rw [List.append_assoc, ← List.append_assoc a]
    exact ht
  have := @of_split (t.take start ++ a) (b ++ q) (hb q hq)
  rwa [← hsplit, List.length_append, hstart] at this

end NoDotAt

theorem noDotAt_clauseEndFrom {words : List Text} (hne : words ≠ []) (hwords : OfLetters words)
    (before : Text) (depth : Nat) (t : Text) :
    NoDotAt (before.reverse ++ t) (clauseEndFrom words before depth t) := by
  induction t generalizing before depth with
  | nil =>
    apply NoDotAt.of_length_le
    simp [clauseEndFrom]
  | cons c t ih =>
    have hlater (depth : Nat) :
        NoDotAt (before.reverse ++ c :: t) (clauseEndFrom words (c :: before) depth t) := by
      have := ih (c :: before) depth
      rwa [List.reverse_cons, List.append_assoc] at this
    have hhere (h : beginsWithDot (c :: t) = false) :
        NoDotAt (before.reverse ++ c :: t) before.length := by
      rw [← List.length_reverse]
      exact .of_split h
    unfold clauseEndFrom
    split
    · exact hlater _
    split
    · rename_i hc
      split
      · refine hhere (beginsWithDot_cons_of_ne ?_ ?_ t) <;> rw [eq_of_beq hc] <;> decide
      · exact hlater _
    split
    · rename_i hc
      obtain rfl : c = ';' := eq_of_beq (Bool.and_eq_true_iff.1 hc).1
      exact hhere (beginsWithDot_cons_of_ne (by decide) (by decide) t)
    split
    · rename_i hc
      have hbegins := (Bool.and_eq_true_iff.1 hc).2
      rw [beginsClause_eq hne] at hbegins
      refine hhere (beginsWithDot_cons_of_isWordChar ?_ t)
      by_contra hword
      rw [oneWord_eq_none_of_not_isWordChar hwords (Bool.eq_false_iff.2 hword)] at hbegins
      simp at hbegins
    · exact hlater _

theorem noDotAt_clauseEnd (t : Text) (start : Nat) :
    NoDotAt t (clauseEnd t start selectListEnds) := by
  have := noDotAt_clauseEndFrom (by decide) (ofLetters_of_subset selectListEnds_subset)
    (t.take start).reverse 0 (t.drop start)
  rwa [List.reverse_reverse, List.take_append_drop] at this

theorem noDotAt_trimSpan? {t : Text} {s r : Span} (hs : NoDotAt t s.stop)
    (h : trimSpan? t s = some r) : NoDotAt t r.stop := by
  obtain ⟨g, body, g', hslice, hbody, -, hg', -, hstop⟩ := trimSpan?_eq_some h
  rw [hstop]
  refine hs.of_slice (by simp [hbody.ne_nil]) hslice fun q hq => ?_
  rwa [beginsWithDot_blanks hg']

theorem noDotAt_topLevelItems {t : Text} {start stop : Nat} (hstop : NoDotAt t stop)
    {s : Span} (hs : s ∈ topLevelItems t start stop) : NoDotAt t s.stop := by
  obtain ⟨r, hr, hsome⟩ := List.mem_filterMap.1 hs
  refine noDotAt_trimSpan? ?_ hsome
  rcases stop_of_mem_spansBetween hr with hcut | hlast
  · obtain ⟨a, b, hslice, hcut⟩ := exists_of_mem_topLevelCommas hcut
    rw [hcut]
    exact hstop.of_slice (by simp) hslice fun q _ =>
      beginsWithDot_cons_of_ne (by decide) (by decide) (b ++ q)
  · rwa [hlast]

theorem noDotAt_expressionEnd {t : Text} {start stop : Nat} (hstop : NoDotAt t stop) :
    NoDotAt t (expressionEnd t start stop) := by
  rcases expressionEnd_cases t start stop with hend | ⟨a, b, i, hslice, hne, halias, hend⟩
  · rwa [hend]
  obtain ⟨g, c, r, rfl, -, hg, hblank, hc⟩ := exists_of_aliasOnly? halias
  rw [hend]
  refine hstop.of_slice (by simp [hne]) hslice fun q _ => ?_
  rw [List.append_assoc, beginsWithDot_blanks hg]
  refine beginsWithDot_cons_of_ne hblank ?_ _
  rintro rfl
  exact absurd hc (by decide)

/-! ## Where an item begins -/

/-- What leads up to an offset, blanks aside, is a comma or the last letter of a `SELECT`. -/
def BeginsAfter (t : Text) (n : Nat) : Prop :=
  ∃ a c g, t.take n = a ++ c :: g ∧ allBlank g = true ∧ (c = ',' ∨ foldLetter c = 't')

/-- Up to a place inside a slice stands what is in front of the slice and in it. -/
theorem Text.take_of_slice {t a b : Text} {start stop : Nat} (hne : a ++ b ≠ [])
    (h : slice t start stop = a ++ b) : t.take (start + a.length) = t.take start ++ a := by
  obtain ⟨q, ht, hstart, -⟩ := Text.exists_slice (by rwa [h])
  rw [h, List.append_assoc, ← List.append_assoc] at ht
  have hlen : (t.take start ++ a).length = start + a.length := by
    rw [List.length_append, hstart]
  nth_rewrite 1 [ht]
  rw [← hlen, List.take_left]

theorem beginsAfter_trimSpan? {t : Text} {s r : Span} (hs : BeginsAfter t s.start)
    (h : trimSpan? t s = some r) : BeginsAfter t r.start := by
  obtain ⟨g, body, g', hslice, hbody, hg, -, hstart, -⟩ := trimSpan?_eq_some h
  obtain ⟨a, c, g₀, htake, hg₀, hc⟩ := hs
  rw [List.append_assoc] at hslice
  refine ⟨a, c, g₀ ++ g, ?_, ?_, hc⟩
  · rw [hstart, Text.take_of_slice (by simp [hbody.ne_nil]) hslice, htake]
    simp
  · rw [allBlank, List.all_append]
    exact Bool.and_eq_true_iff.2 ⟨hg₀, hg⟩

theorem beginsAfter_topLevelItems {t : Text} {start stop : Nat} (hstart : BeginsAfter t start)
    {s : Span} (hs : s ∈ topLevelItems t start stop) : BeginsAfter t s.start := by
  obtain ⟨r, hr, hsome⟩ := List.mem_filterMap.1 hs
  refine beginsAfter_trimSpan? ?_ hsome
  rcases start_of_mem_spansBetween hr with hfirst | ⟨cut, hcut, hbehind⟩
  · rwa [hfirst]
  · obtain ⟨a, b, hslice, rfl⟩ := exists_of_mem_topLevelCommas hcut
    have hcomma : Text.slice t start stop = (a ++ [',']) ++ b := by simpa using hslice
    have htake := Text.take_of_slice (by simp) hcomma
    rw [List.length_append, List.length_singleton, ← Nat.add_assoc, ← hbehind] at htake
    exact ⟨t.take start ++ a, ',', [], by rw [htake, List.append_assoc], rfl, .inl rfl⟩

theorem beginsAfter_selectItems {t : Text} {s : Span} (hs : s ∈ selectItems t) :
    BeginsAfter t s.start := by
  obtain ⟨list, hlist, hs⟩ := List.mem_flatMap.1 hs
  obtain ⟨h, hh, rfl⟩ := List.mem_map.1 hlist
  refine beginsAfter_topLevelItems ?_ hs
  obtain ⟨a, b, rest, rfl, hread, hstart, hstop, -⟩ := span_of_mem_hitsFrom hh
  obtain ⟨-, rfl, ⟨w, hw, hspells⟩, -⟩ := oneWord_eq_some hread
  obtain rfl := List.mem_singleton.1 hw
  have hplace : h.stop = (a ++ h.value).length := by
    rw [hstop, hstart]
    simp only [List.length_append, List.length_nil]
    omega
  have hne : h.value ≠ [] := by
    intro hnil
    rw [hnil] at hspells
    exact absurd hspells (by decide)
  refine ⟨a ++ h.value.dropLast, h.value.getLast hne, [], ?_, rfl, .inr ?_⟩
  · simp only
    rw [hplace, ← List.append_assoc, List.take_left, List.append_assoc,
      List.dropLast_append_getLast hne]
  · have hlast := congrArg List.getLast? hspells
    rw [List.getLast?_map, List.getLast?_eq_some_getLast hne] at hlast
    exact Option.some.inj hlast

/-- What ends with `AS` and blanks, read backwards. -/
theorem exists_of_followsWord_as {before : Text} (h : followsWord ["AS"] before = true) :
    ∃ g x y r, before = g ++ x :: y :: r ∧ allBlank g = true ∧ foldLetter x = 's' ∧
      foldLetter y = 'a' ∧ atWordStart r = true := by
  obtain ⟨t, ht, hends⟩ := (Option.any_eq_true ..).1 h
  obtain ⟨g, -, hg, -, rfl⟩ := spaced?_eq_some_iff.1 ht
  rw [endsWithWord, List.any_cons, List.any_nil, Bool.or_false] at hends
  split at hends
  case h_2 => cases hends
  rename_i r hread
  obtain ⟨w, rfl, hw⟩ := keyword?_eq_some hread
  obtain ⟨x, y, rfl⟩ := List.length_eq_two.1 hw.length_eq
  exact ⟨g, x, y, r, rfl, hg, (List.cons.inj hw).1, (List.cons.inj (List.cons.inj hw).2).1, hends⟩

theorem isBlank_eq_false_of_foldLetter {c l : Char} (hc : foldLetter c = l)
    (hl : l.isLower = true) : isBlank c = false :=
  isBlank_eq_false_of_isWordChar (isWordChar_of_isLower_foldLetter (hc ▸ hl))

/-- Blanks lead back from an item to a comma or a `t`, which is no letter of `AS`. -/
theorem BeginsAfter.ne_blanks_append {t : Text} {n : Nat} (h : BeginsAfter t n) {d : Char}
    (hd : foldLetter d = 's' ∨ foldLetter d = 'a') {g : Text} (hg : allBlank g = true) (r : Text) :
    (t.take n).reverse ≠ g ++ d :: r := by
  obtain ⟨b, c, g', htake, hg', hc⟩ := h
  have hblank : isBlank d = false := by
    rcases hd with hd | hd <;> exact isBlank_eq_false_of_foldLetter hd rfl
  have hblank' : isBlank c = false := by
    rcases hc with rfl | hc
    · decide
    · exact isBlank_eq_false_of_foldLetter hc rfl
  have hback : (t.take n).reverse = g'.reverse ++ c :: b.reverse := by
    rw [htake]
    simp
  intro heq
  have hd' := (head?_skipBlanks_eq_some_iff hblank).2 ⟨g, r, hg, heq⟩
  have hc' := (head?_skipBlanks_eq_some_iff hblank').2
    ⟨g'.reverse, b.reverse, by simpa [allBlank] using hg', hback⟩
  obtain rfl := Option.some.inj (hc'.symm.trans hd')
  rcases hc with rfl | hc
  · exact absurd hd (by decide)
  · rw [hc] at hd
    exact absurd hd (by decide)

theorem namesAliasOrType_of_as {g r : Text} {x y : Char} (hg : allBlank g = true)
    (hx : foldLetter x = 's') (hy : foldLetter y = 'a') (hr : atWordStart r = true) :
    namesAliasOrType (g ++ x :: y :: r) = true := by
  have hread : keyword? ("AS" : Text).reverse (x :: y :: r) = some r :=
    keyword?_append (w := [x, y]) (by simp [Spells, hx, hy]; decide) r
  have hends : endsWithWord ["AS"] (x :: y :: r) = true := by
    rw [endsWithWord, List.any_cons, hread]
    simp only [List.any_nil, Bool.or_false]
    exact hr
  rw [namesAliasOrType,
    skipBlanks_append hg (by simpa using isBlank_eq_false_of_foldLetter hx rfl)]
  split
  · rfl
  · exact hends

/-- A name that `AS` leads up to has the `AS` in front of it in the item that it is in. -/
theorem namesAliasOrType_of_followsWord {t a : Text} {n : Nat} (hbegins : BeginsAfter t n)
    (h : followsWord ["AS"] (t.take n ++ a).reverse = true) :
    namesAliasOrType a.reverse = true := by
  obtain ⟨g, x, y, r, hback, hg, hx, hy, hstart⟩ := exists_of_followsWord_as h
  rw [List.reverse_append] at hback
  obtain ⟨z, rfl, hfront⟩ | ⟨z, ha, hfront⟩ := List.append_eq_append_iff.1 hback
  · rw [allBlank, List.all_append, Bool.and_eq_true] at hg
    exact absurd hfront (hbegins.ne_blanks_append (.inl hx) hg.2 (y :: r))
  -- Neither letter is in front of the item.
  rcases z with _ | ⟨x', _ | ⟨y', z⟩⟩
  · exact absurd hfront.symm (hbegins.ne_blanks_append (g := []) (.inl hx) rfl (y :: r))
  · exact absurd (List.cons.inj hfront).2.symm
      (hbegins.ne_blanks_append (g := []) (.inr hy) rfl r)
  · simp only [List.cons_append, List.cons.injEq] at hfront
    obtain ⟨rfl, rfl, rfl⟩ := hfront
    rw [ha]
    refine namesAliasOrType_of_as hg hx hy ?_
    cases z with
    | nil => rfl
    | cons d z => exact hstart

/-! ## Names of a select list -/

/-- A bare name between two offsets, as it is read: what is in front of it there, and its first
character with what follows there. -/
structure BareNameAt (t : Text) (start stop : Nat) (k : Hit Text) (a : Text) (c : Char) (u : Text) :
    Prop where
  slice : Text.slice t start stop = (a ++ k.value) ++ u.dropWhile isNamePart
  value : k.value = c :: u.takeWhile isNamePart
  begins : isNameStart c = true
  front : t.take k.start = t.take start ++ a
  stop_eq : k.stop = start + (a ++ k.value).length
  apart : (t.take k.start).reverse.head?.any joinsName = false
  noDot : (skipBlanks (u.dropWhile isNamePart)).head? ≠ some '.'
  noAlias : namesAliasOrType a.reverse = false

theorem exists_bareNameAt {t : Text} {start stop : Nat} {k : Hit Text}
    (hk : k ∈ bareNames t start stop) : ∃ a c u, BareNameAt t start stop k a c u := by
  obtain ⟨l, hl, hsome⟩ := List.mem_filterMap.1 hk
  split at hsome
  case isFalse => cases hsome
  rename_i hcolumn
  obtain rfl := Option.some.inj hsome
  obtain ⟨a, b, rest, hslice, hread, hstart, hstop, -⟩ := span_of_mem_hitsFrom hl
  obtain ⟨hbefore, c, u, rfl, hc, hvalue, rfl, hcol⟩ := bareName_eq_some hread
  obtain ⟨hdot, has⟩ := hcol hcolumn
  obtain ⟨-, -, hfront, -⟩ := @Text.exists_slice t start stop (by simp [hslice])
  rw [List.length_reverse, hfront] at hstart
  have htake : t.take l.start = t.take start ++ a := by
    rw [hstart]
    exact Text.take_of_slice (by simp) hslice
  have hname : c :: u = (c :: u.takeWhile isNamePart) ++ u.dropWhile isNamePart := by
    rw [List.cons_append, List.takeWhile_append_dropWhile]
  refine ⟨a, c, u, ?_, hvalue, hc, htake, ?_, ?_, hdot, ?_⟩
  · rw [hslice, hname, hvalue, List.append_assoc]
  · have := congrArg List.length hname
    rw [List.length_append] at this
    simp only
    rw [hstop, hstart, hvalue, List.length_append]
    omega
  · simp only
    rwa [htake, List.reverse_append]
  · rwa [List.length_append, List.length_reverse, List.length_reverse, hfront,
      Nat.add_sub_cancel, List.take_left' (List.length_reverse ..)] at has

section Selected

variable {t : Text} {k : Hit Text} (hk : k ∈ selectedNames t)

include hk

/-- What is looked up in a select list begins like a name. -/
theorem head?_of_mem_selectedNames : k.value.head?.any isNameStart = true := by
  obtain ⟨s, -, hk⟩ := List.mem_flatMap.1 hk
  obtain ⟨a, c, u, hat⟩ := exists_bareNameAt hk
  rw [hat.value]
  exact hat.begins

/-- Beside a name that is looked up in a select list nothing joins it, there is no dot behind it,
and no `AS` in front. -/
theorem apart_of_mem_selectedNames :
    (t.take k.start).reverse.head?.any joinsName = false ∧ NoDotAt t k.stop ∧
      followsWord ["AS"] (t.take k.start).reverse = false := by
  obtain ⟨s, hs, hk⟩ := List.mem_flatMap.1 hk
  obtain ⟨a, c, u, hat⟩ := exists_bareNameAt hk
  refine ⟨hat.apart, ?_, ?_⟩
  · have hend : NoDotAt t (expressionEnd t s.start s.stop) := by
      obtain ⟨list, hlist, hs⟩ := List.mem_flatMap.1 hs
      obtain ⟨l, -, rfl⟩ := List.mem_map.1 hlist
      exact noDotAt_expressionEnd (noDotAt_topLevelItems (noDotAt_clauseEnd t l.stop) hs)
    rw [hat.stop_eq]
    refine hend.of_slice (by simp [hat.value]) hat.slice fun q hq => ?_
    cases hblank : allBlank (u.dropWhile isNamePart) with
    | true => rwa [beginsWithDot_blanks hblank]
    | false =>
      rw [beginsWithDot, skipBlanks_append_of_not_allBlank hblank, List.head?_append_of_ne_nil]
      · simpa using hat.noDot
      · rw [Ne, skipBlanks_eq_nil_iff, hblank]
        decide
  · by_contra hfollows
    rw [hat.front] at hfollows
    have has := namesAliasOrType_of_followsWord (beginsAfter_selectItems hs)
      ((Bool.not_eq_false _).mp hfollows)
    rw [hat.noAlias] at has
    cases has

end Selected

/-! ## Among the tokens -/

/-- A token whose name in quotes is masked. -/
def Token.blotted : Token → Token
  | quoted w => quoted (List.replicate w.length maskChar)
  | t => t

theorem blotOf_eq_maskOf (ts : List Token) : blotOf ts = maskOf (ts.map Token.blotted) := by
  induction ts with
  | nil => rfl
  | cons t ts ih =>
    rw [blotOf_cons, List.map_cons, maskOf_cons, ih]
    cases t <;> rfl

theorem Token.shape_blotted (t : Token) : t.blotted.shape = t.shape := by
  cases t <;> rfl

theorem map_shape_blotted (ts : List Token) :
    (ts.map Token.blotted).map Token.shape = ts.map Token.shape := by
  rw [List.map_map]
  exact List.map_congr_left fun t _ => t.shape_blotted

/-- Tokens are tokens still if their names in quotes are masked. -/
theorem Lexed.blotted {ts : List Token} (h : Lexed ts) : Lexed (ts.map Token.blotted) := by
  constructor
  · intro t ht
    obtain ⟨u, hu, rfl⟩ := List.mem_map.1 ht
    have hfit := h.fit u hu
    cases u with
    | word w => exact hfit
    | other c m => exact hfit
    | quoted w =>
      refine ⟨by simpa [List.replicate_eq_nil_iff] using hfit.1, fun c hc => ?_⟩
      rw [List.eq_of_mem_replicate hc]
      decide
  · intro p w v q hsplit
    obtain ⟨p, r, rfl, -, hr⟩ := List.map_eq_append_iff.1 hsplit
    obtain ⟨t, r, rfl, ht, hr⟩ := List.map_eq_cons_iff.1 hr
    obtain ⟨u, q, rfl, hu, -⟩ := List.map_eq_cons_iff.1 hr
    have hword {t : Token} {w : Text} (ht : t.blotted = .word w) : t = .word w := by
      cases t with
      | quoted v => cases ht
      | word v => exact ht
      | other c m => cases ht
    exact h.apart p w v q (by rw [hword ht, hword hu])

/-- Masked names in quotes lead up to no word. -/
theorem LeadBy.blotted {words : List Text} {ts : List Token} (h : LeadBy words ts) :
    LeadBy words (ts.map Token.blotted) := by
  obtain ⟨p, w, g, rfl, hne, hg, hword⟩ := h
  refine ⟨p.map Token.blotted, w, g.map Token.blotted, by simp [Token.blotted], by simpa using hne,
    ?_, hword⟩
  have hsame : maskOf (g.map Token.blotted) = maskOf g := by
    rw [maskOf, List.flatMap_map]
    refine List.flatMap_congr fun t ht => ?_
    cases t with
    | word v => rfl
    | other c m => rfl
    | quoted v =>
      have := List.all_eq_true.1 hg '"' (List.mem_flatMap.2 ⟨_, ht, List.mem_cons_self⟩)
      exact absurd this (by decide)
  rwa [hsame]

/-- What a name that is looked up in a select list has beside it, as the tokens say. -/
theorem beside_of_mem_selectedNames {ts : List Token} (h : Lexed ts) {k : Hit Text}
    (hk : k ∈ selectedNames (maskQuoted (maskOf ts))) {n : Nat} {t : Token} (hn : ts[n]? = some t)
    (hplace : k.start = placeOf ts n) :
    (maskOf (ts.take n)).getLast? ≠ some '.' ∧ beginsWithDot (maskOf (ts.drop (n + 1))) = false ∧
      ¬ LeadBy ["AS"] (ts.take n) := by
  obtain ⟨p, q, hts, hstart, hstop⟩ := stand_of_mem_selectedNames h hk
  obtain ⟨p', q', hts', rfl⟩ := exists_split_of_getElem? hn
  rw [hts', placeOf_append] at hplace
  obtain ⟨rfl, hrest⟩ := h.split_unique hts hts' (by omega)
  obtain ⟨rfl, rfl⟩ := List.cons.inj hrest
  rw [hts'] at h hk ⊢
  rw [maskQuoted_maskOf h] at hk
  obtain ⟨hapart, hdot, has⟩ := apart_of_mem_selectedNames hk
  have hfront : (blotOf (p ++ Identifier.token ⟨k.value, false⟩ :: q)).take k.start =
      maskOf (p.map Token.blotted) := by
    rw [hplace, ← length_blotOf, ← blotOf_eq_maskOf, blotOf_append, List.take_left]
  have hbehind : (blotOf (p ++ Identifier.token ⟨k.value, false⟩ :: q)).drop k.stop =
      maskOf (q.map Token.blotted) := by
    have hlen : k.stop = (blotOf (p ++ [Identifier.token ⟨k.value, false⟩])).length := by
      rw [length_blotOf, hstop, hplace]
      simp
    have hsplit : p ++ Identifier.token ⟨k.value, false⟩ :: q =
        (p ++ [Identifier.token ⟨k.value, false⟩]) ++ q := by simp
    rw [hsplit, hlen, ← blotOf_eq_maskOf, blotOf_append _ q, List.drop_left]
  obtain ⟨hp, hq⟩ := Lexed.of_append h
  rw [NoDotAt, hbehind] at hdot
  rw [hfront] at hapart has
  rw [List.take_left, ← List.drop_drop, List.drop_left, List.drop_succ_cons, List.drop_zero]
  refine ⟨fun hlast => ?_, ?_, fun hlead => ?_⟩
  · have := getLast?_congr hp.fit hp.blotted.fit (map_shape_blotted p) (by decide) hlast
    rw [List.head?_reverse, this] at hapart
    exact absurd hapart (by decide)
  · rw [← hdot]
    exact (beginsWithDot_congr hq.tail.fit hq.tail.blotted.fit (map_shape_blotted q)).symm
  · rw [(followsWord_iff hp.blotted (by decide)).2 hlead.blotted] at has
    cases has

end QueryGate
