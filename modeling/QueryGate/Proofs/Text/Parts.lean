import QueryGate.Proofs.Text.Character

/-!
# What readers consume

Each reader of the head of a text is given by the part of it that it consumes: `keyword?` a spelling
of the keyword (`keyword?_eq_some_iff`), `spaced?` a row of blanks (`spaced?_eq_some_iff`), trimming
the blanks at an end. Two readings of one head agree, since the part that is consumed is determined
by the class of its characters and the character after it.
-/

namespace QueryGate

/-! ## Runs of one class -/

section Runs

variable {α : Type} {p : α → Bool} {u r : List α}

theorem takeWhile_append_of_all (hu : ∀ c ∈ u, p c = true) (hr : r.head?.any p = false) :
    (u ++ r).takeWhile p = u := by
  rw [List.takeWhile_append_of_pos hu]
  cases r with
  | nil => simp
  | cons c r =>
    have hc : p c = false := hr
    simp [hc]

theorem dropWhile_append_of_all (hu : ∀ c ∈ u, p c = true) (hr : r.head?.any p = false) :
    (u ++ r).dropWhile p = r := by
  rw [List.dropWhile_append_of_pos hu]
  cases r with
  | nil => simp
  | cons c r =>
    have hc : p c = false := hr
    simp [hc]

theorem head?_append_any (hu : u ≠ []) (r : List α) :
    (u ++ r).head?.any p = u.head?.any p := by
  cases u with
  | nil => exact absurd rfl hu
  | cons c u => rfl

theorem head?_dropWhile_any (p : α → Bool) (t : List α) : (t.dropWhile p).head?.any p = false := by
  induction t with
  | nil => rfl
  | cons c t ih =>
    rw [List.dropWhile_cons]
    split
    · exact ih
    · rename_i hc
      simpa using hc

/-- No character of a text is one that is not in it. -/
theorem bne_of_not_mem [BEq α] [LawfulBEq α] {d : α} (h : d ∉ u) : ∀ c ∈ u, (c != d) = true := by
  intro c hc
  rw [bne_iff_ne]
  rintro rfl
  exact h hc

end Runs

/-! ## Keywords -/

/-- A text that spells a word, regardless of case. -/
def Spells (word t : Text) : Prop := t.map foldLetter = word.map foldLetter

instance (word t : Text) : Decidable (Spells word t) := inferInstanceAs (Decidable (_ = _))

namespace Spells

theorem length_eq {word t : Text} (h : Spells word t) : t.length = word.length := by
  simpa using congrArg List.length h

theorem mem {word t : Text} (h : Spells word t) {c : Char} (hc : c ∈ t) :
    foldLetter c ∈ word.map foldLetter := by
  rw [← h]
  exact List.mem_map_of_mem hc

end Spells

theorem spells_reverse_iff {w x : Text} : Spells w.reverse x.reverse ↔ Spells w x := by
  rw [Spells, Spells, List.map_reverse, List.map_reverse, List.reverse_inj]

theorem keyword?_append {word w : Text} (h : Spells word w) (rest : Text) :
    keyword? word (w ++ rest) = some rest := by
  induction word generalizing w with
  | nil =>
    cases w with
    | nil => rfl
    | cons c w => cases h
  | cons x word ih =>
    cases w with
    | nil => cases h
    | cons c w =>
      obtain ⟨hc, hw⟩ := List.cons.inj h
      rw [List.cons_append, keyword?, if_pos (by simp [hc])]
      exact ih hw

theorem keyword?_eq_some {word t rest : Text} (h : keyword? word t = some rest) :
    ∃ w, t = w ++ rest ∧ Spells word w := by
  induction word generalizing t with
  | nil => exact ⟨[], Option.some.inj h, rfl⟩
  | cons x word ih =>
    cases t with
    | nil => cases h
    | cons c t =>
      rw [keyword?] at h
      split at h
      · rename_i hxc
        obtain ⟨w, rfl, hw⟩ := ih h
        exact ⟨c :: w, rfl, List.cons_eq_cons.2 ⟨(eq_of_beq hxc).symm, hw⟩⟩
      · cases h

theorem keyword?_eq_some_iff {word t rest : Text} :
    keyword? word t = some rest ↔ ∃ w, t = w ++ rest ∧ Spells word w := by
  constructor
  · exact keyword?_eq_some
  · rintro ⟨w, rfl, hw⟩
    exact keyword?_append hw rest

theorem atWordStart_reverse_iff {a : Text} :
    atWordStart a.reverse = true ↔ a.getLast?.any isWordChar = false := by
  rw [atWordStart, List.head?_reverse, Bool.not_eq_true']

theorem oneWord_isSome {words : List Text} {before w word after : Text}
    (hstart : atWordStart before = true) (hw : w ∈ words) (hs : Spells w word)
    (hend : atWordEnd after = true) : (oneWord words before (word ++ after)).isSome = true := by
  rw [oneWord, if_pos hstart, List.findSome?_isSome_iff]
  refine ⟨w, hw, ?_⟩
  simp only [keyword?_append hs, hend, ite_true, Option.isSome_some]

/-! ## Blanks -/

theorem head?_skipBlanks (t : Text) : (skipBlanks t).head?.any isBlank = false :=
  head?_dropWhile_any isBlank t

theorem skipBlanks_append {g r : Text} (hg : allBlank g = true) (hr : r.head?.any isBlank = false) :
    skipBlanks (g ++ r) = r :=
  dropWhile_append_of_all (by simpa [allBlank] using hg) hr

theorem skipBlanks_eq_self {t : Text} (h : t.head?.any isBlank = false) : skipBlanks t = t :=
  skipBlanks_append (g := []) rfl h

theorem exists_blanks_append_skipBlanks (t : Text) :
    ∃ g, allBlank g = true ∧ t = g ++ skipBlanks t := by
  refine ⟨t.takeWhile isBlank, ?_, (List.takeWhile_append_dropWhile ..).symm⟩
  rw [allBlank, List.all_eq_true]
  exact fun c hc => List.mem_takeWhile_imp hc

theorem skipBlanks_eq_nil_iff {t : Text} : skipBlanks t = [] ↔ allBlank t = true := by
  rw [skipBlanks, allBlank, List.dropWhile_eq_nil_iff, List.all_eq_true]

theorem skipBlanks_append_of_not_allBlank {t : Text} (h : allBlank t = false) (r : Text) :
    skipBlanks (t ++ r) = skipBlanks t ++ r := by
  unfold skipBlanks
  rw [List.dropWhile_append, if_neg]
  rw [Bool.not_eq_true, List.isEmpty_eq_false_iff]
  intro hnil
  rw [skipBlanks_eq_nil_iff.1 hnil] at h
  cases h

theorem not_mem_of_allBlank {c : Char} {t : Text} (hc : isBlank c = false) (h : allBlank t = true) :
    c ∉ t := by
  intro hmem
  rw [List.all_eq_true.1 h c hmem] at hc
  cases hc

theorem count_skipBlanks {c : Char} (hc : isBlank c = false) (t : Text) :
    (skipBlanks t).count c = t.count c := by
  obtain ⟨g, hg, ht⟩ := exists_blanks_append_skipBlanks t
  have hg : g.count c = 0 := List.count_eq_zero.2 (not_mem_of_allBlank hc hg)
  conv =>
    rhs
    rw [ht, List.count_append, hg, Nat.zero_add]

theorem allBlank_reverse (t : Text) : allBlank t.reverse = allBlank t := List.all_reverse

theorem head?_skipBlanks_eq_some_iff {c : Char} {t : Text} (hc : isBlank c = false) :
    (skipBlanks t).head? = some c ↔ ∃ g r, allBlank g = true ∧ t = g ++ c :: r := by
  constructor
  · intro h
    obtain ⟨g, hg, ht⟩ := exists_blanks_append_skipBlanks t
    cases hs : skipBlanks t with
    | nil =>
      rw [hs] at h
      cases h
    | cons d r =>
      rw [hs] at h ht
      obtain rfl := Option.some.inj h
      exact ⟨g, r, hg, ht⟩
  · rintro ⟨g, r, hg, rfl⟩
    rw [skipBlanks_append hg (by simpa using hc)]
    rfl

theorem spaced?_eq_some_iff {t rest : Text} :
    spaced? t = some rest ↔
      ∃ g, g ≠ [] ∧ allBlank g = true ∧ rest.head?.any isBlank = false ∧ t = g ++ rest := by
  cases t with
  | nil =>
    constructor
    · intro h
      cases h
    · rintro ⟨g, hne, -, -, h⟩
      exact absurd (List.append_eq_nil_iff.1 h.symm).1 hne
  | cons c t =>
    rw [spaced?]
    constructor
    · intro h
      split at h
      · rename_i hc
        obtain rfl := Option.some.inj h
        obtain ⟨g, hg, ht⟩ := exists_blanks_append_skipBlanks t
        refine ⟨c :: g, List.cons_ne_nil _ _, ?_, head?_skipBlanks t, ?_⟩
        · rw [allBlank, List.all_cons, hc]
          exact hg
        · rw [List.cons_append, ← ht]
      · cases h
    · rintro ⟨g, hne, hg, hr, h⟩
      cases g with
      | nil => exact absurd rfl hne
      | cons d g =>
        obtain ⟨rfl, rfl⟩ := List.cons.inj h
        rw [allBlank, List.all_cons, Bool.and_eq_true] at hg
        exact (if_pos hg.1).trans (congrArg some (skipBlanks_append hg.2 hr))

theorem spaced?_eq_skipBlanks {t rest : Text} (h : spaced? t = some rest) :
    rest = skipBlanks t := by
  obtain ⟨g, -, hg, hr, rfl⟩ := spaced?_eq_some_iff.1 h
  exact (skipBlanks_append hg hr).symm

theorem spaced?_append {g r : Text} (hne : g ≠ []) (hg : allBlank g = true)
    (hr : r.head?.any isBlank = false) : spaced? (g ++ r) = some r :=
  spaced?_eq_some_iff.2 ⟨g, hne, hg, hr, rfl⟩

theorem head?_any_isBlank_append {g : Text} (hne : g ≠ []) (hg : allBlank g = true) (r : Text) :
    (g ++ r).head?.any isBlank = true := by
  obtain ⟨c, g, rfl⟩ := List.exists_cons_of_ne_nil hne
  exact List.all_eq_true.1 hg c List.mem_cons_self

/-- Where blanks are read no word goes on. -/
theorem head?_any_isWordChar_of_spaced? {t rest : Text} (h : spaced? t = some rest) :
    t.head?.any isWordChar = false := by
  obtain ⟨g, hne, hg, -, rfl⟩ := spaced?_eq_some_iff.1 h
  obtain ⟨c, g, rfl⟩ := List.exists_cons_of_ne_nil hne
  exact isWordChar_eq_false_of_isBlank (List.all_eq_true.1 hg c List.mem_cons_self)

/-! ## Trimming -/

theorem exists_trimEnd_append_blanks (t : Text) :
    ∃ g, allBlank g = true ∧ t = trimEnd t ++ g := by
  obtain ⟨g, hg, ht⟩ := exists_blanks_append_skipBlanks t.reverse
  refine ⟨g.reverse, ?_, ?_⟩
  · simpa [allBlank] using hg
  · rw [trimEnd, ← List.reverse_append, ← ht, List.reverse_reverse]

theorem getLast?_trimEnd (t : Text) : (trimEnd t).getLast?.any isBlank = false := by
  rw [trimEnd, List.getLast?_reverse]
  exact head?_skipBlanks _

theorem exists_trimEnd_cons {c : Char} (hc : isBlank c = false) (t : Text) :
    ∃ u, trimEnd (c :: t) = c :: u := by
  obtain ⟨g, hg, ht⟩ := exists_trimEnd_append_blanks (c :: t)
  cases hu : trimEnd (c :: t) with
  | nil =>
    rw [hu, List.nil_append] at ht
    rw [← ht, allBlank, List.all_cons, hc] at hg
    cases hg
  | cons d u =>
    rw [hu] at ht
    obtain ⟨rfl, -⟩ := List.cons.inj ht
    exact ⟨u, rfl⟩

theorem trimEnd_eq_self {t : Text} (h : t.getLast?.any isBlank = false) : trimEnd t = t := by
  rw [trimEnd, skipBlanks_eq_self, List.reverse_reverse]
  rwa [List.head?_reverse]

theorem trim_eq_self {t : Text} (hs : t.head?.any isBlank = false)
    (he : t.getLast?.any isBlank = false) : trim t = t := by
  rw [trim, skipBlanks_eq_self hs, trimEnd_eq_self he]

theorem head?_trim (t : Text) : (trim t).head?.any isBlank = false := by
  rw [trim]
  cases h : skipBlanks t with
  | nil => rfl
  | cons c u =>
    have hc : isBlank c = false := by
      have hhead := head?_skipBlanks t
      rwa [h] at hhead
    obtain ⟨v, hv⟩ := exists_trimEnd_cons hc u
    rw [hv]
    exact hc

theorem trim_trim (t : Text) : trim (trim t) = trim t :=
  trim_eq_self (head?_trim t) (getLast?_trimEnd _)

/-- Blanks around a text are trimmed, and no more. -/
theorem trim_append_blanks {g x g' : Text} (hg : allBlank g = true) (hg' : allBlank g' = true)
    (hne : x ≠ []) (hhead : x.head?.any isBlank = false) (hlast : x.getLast?.any isBlank = false) :
    trim (g ++ (x ++ g')) = x := by
  have hfront : skipBlanks (g ++ (x ++ g')) = x ++ g' := by
    refine skipBlanks_append hg ?_
    rwa [head?_append_any hne]
  have hback : skipBlanks (g'.reverse ++ x.reverse) = x.reverse :=
    skipBlanks_append (by rwa [allBlank_reverse]) (by rwa [List.head?_reverse])
  rw [trim, hfront, trimEnd, List.reverse_append, hback, List.reverse_reverse]

/-- The last character of a trimmed text is the last that is no blank. -/
theorem getLast?_trim (t : Text) : (trim t).getLast? = (skipBlanks t.reverse).head? := by
  obtain ⟨g, hg, ht⟩ := exists_blanks_append_skipBlanks t
  rw [trim, trimEnd, List.getLast?_reverse]
  conv =>
    rhs
    rw [ht, List.reverse_append]
  cases hb : allBlank (skipBlanks t).reverse with
  | false =>
    rw [skipBlanks_append_of_not_allBlank hb, List.head?_append]
    cases hh : (skipBlanks (skipBlanks t).reverse).head? with
    | some c => rfl
    | none =>
      rw [List.head?_eq_none_iff, skipBlanks_eq_nil_iff, hb] at hh
      cases hh
  | true =>
    have hall : allBlank ((skipBlanks t).reverse ++ g.reverse) = true := by
      rw [allBlank, List.all_append, Bool.and_eq_true]
      exact ⟨hb, by rwa [← allBlank, allBlank_reverse]⟩
    rw [skipBlanks_eq_nil_iff.2 hb, skipBlanks_eq_nil_iff.2 hall]

theorem getLast?_trim_eq_some_iff {c : Char} {t : Text} (hc : isBlank c = false) :
    (trim t).getLast? = some c ↔
      ∃ before after, t = before ++ c :: after ∧ allBlank after = true := by
  rw [getLast?_trim, head?_skipBlanks_eq_some_iff hc]
  constructor
  · rintro ⟨g, r, hg, ht⟩
    refine ⟨r.reverse, g.reverse, ?_, by rwa [allBlank_reverse]⟩
    rw [← List.reverse_reverse t, ht]
    simp
  · rintro ⟨before, after, rfl, hb⟩
    exact ⟨after.reverse, before.reverse, by rwa [allBlank_reverse], by simp⟩

theorem trimEndOf_eq_self {d : Char} {t : Text} (h : t.getLast? ≠ some d) : trimEndOf d t = t := by
  rw [trimEndOf]
  cases hr : t.reverse with
  | nil => simpa using hr.symm
  | cons c r =>
    have hc : c ≠ d := by
      rintro rfl
      rw [← List.head?_reverse, hr] at h
      exact h rfl
    rw [List.dropWhile_cons_of_neg (by simpa using hc), ← hr, List.reverse_reverse]

/-! ## Parts -/

theorem Text.hasPart_eq_true_iff {part t : Text} : Text.hasPart part t = true ↔ part <:+: t := by
  induction t with
  | nil => simp [hasPart]
  | cons c t ih =>
    rw [hasPart, Bool.or_eq_true, List.isPrefixOf_iff_prefix, ih, List.infix_cons_iff]

theorem Text.slice_middle (a x b : Text) :
    Text.slice (a ++ (x ++ b)) a.length (a.length + x.length) = x := by
  rw [Text.slice, ← List.append_assoc, List.take_left' (by simp), List.drop_left]

theorem Text.add_length_cons (o : Nat) (c : Char) (t : Text) :
    o + (c :: t).length = o + 1 + t.length := by
  rw [List.length_cons, Nat.add_assoc, Nat.add_comm 1]

/-- What stands before a slice, and the slice. -/
theorem Text.take_append_slice {start stop : Nat} (t : Text) (h : start ≤ stop) :
    t.take start ++ slice t start stop = t.take stop := by
  have htake : t.take start = (t.take stop).take start := by
    rw [List.take_take, Nat.min_eq_left h]
  rw [slice, htake, List.take_append_drop]

theorem Text.take_append_slice_append {start stop : Nat} (t : Text) (h : start ≤ stop) :
    t.take start ++ (slice t start stop ++ t.drop stop) = t := by
  rw [← List.append_assoc, take_append_slice t h, List.take_append_drop]

end QueryGate
