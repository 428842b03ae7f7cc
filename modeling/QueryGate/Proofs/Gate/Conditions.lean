import QueryGate.Gate.Wording
import QueryGate.Proofs.Sql.AlikeTokens

/-!
# Conditions of alike queries

Whether a query breaks off inside a condition is a question about its condition words and its marks,
so of two alike queries both do or none (`Alike.breaksOff`).
-/

namespace QueryGate

open Wording

/-- The words of a condition that may not end it. -/
def conditionWords : List Text := ["WHERE", "IN", "AND", "OR", "NOT"]

theorem ofLetters_conditionWords : OfLetters conditionWords := by decide

variable {ts us : List Token}

/-! ## The last word -/

/-- A word that is read from the end of a query is its last token. -/
theorem Readable.exists_lastWord (h : Readable ts) {w rest : Text} (hne : w ≠ [])
    (hw : ∀ c ∈ w.map foldLetter, c.isLower = true)
    (hread : keyword? w.reverse (maskOf ts).reverse = some rest)
    (hstart : atWordStart rest = true) :
    ∃ p x, ts = p ++ [.word x] ∧ Spells w x ∧ rest = (maskOf p).reverse := by
  obtain ⟨y, hy, hspells⟩ := keyword?_eq_some_iff.1 hread
  have hx : Spells w y.reverse := by
    rw [← spells_reverse_iff, List.reverse_reverse]
    exact hspells
  have hts : maskOf ts = rest.reverse ++ y.reverse := by
    rw [← List.reverse_append, ← hy, List.reverse_reverse]
  have hlast : rest.reverse.getLast?.any isWordChar = false := by
    rw [List.getLast?_reverse]
    simpa [atWordStart] using hstart
  obtain ⟨p, rfl, hp⟩ := h.lexed.exists_lastWord (isWord_of_spells hne hw hx) hts hlast
  exact ⟨p, y.reverse, rfl, hx, by rw [← hp, List.reverse_reverse]⟩

theorem keyword?_lastWord {p : List Token} {x w : Text} (h : Readable (p ++ [.word x]))
    (hx : Spells w x) :
    keyword? w.reverse (maskOf (p ++ [.word x])).reverse = some (maskOf p).reverse ∧
      atWordStart (maskOf p).reverse = true := by
  constructor
  · have hmask : (maskOf (p ++ [.word x])).reverse = x.reverse ++ (maskOf p).reverse := by
      simp [Token.mask]
    rw [hmask]
    exact keyword?_append (spells_reverse_iff.2 hx) _
  · have := h.lexed.getLast?_maskOf_any
    simpa [atWordStart] using this

/-! ## Conditions -/

theorem whereWord_isSome_iff {before after : Text} :
    (whereWord before after).isSome = true ↔ atWordStart before = true ∧
      ∃ x r, after = x ++ r ∧ Spells "WHERE" x ∧ r.head?.any isBlank = true := by
  have hspaced (r : Text) : (spaced? r).isSome = r.head?.any isBlank := by
    cases r with
    | nil => rfl
    | cons c r => by_cases hc : isBlank c = true <;> simp [spaced?, hc]
  unfold whereWord
  split
  · rename_i hstart
    rw [Option.isSome_map]
    constructor
    · intro hsome
      obtain ⟨rest, hrest⟩ := Option.isSome_iff_exists.1 hsome
      obtain ⟨r, hr, hs⟩ := Option.bind_eq_some_iff.1 hrest
      obtain ⟨x, rfl, hx⟩ := keyword?_eq_some_iff.1 hr
      refine ⟨hstart, x, r, rfl, hx, ?_⟩
      rw [← hspaced, hs]
      rfl
    · rintro ⟨-, x, r, rfl, hx, hr⟩
      rw [keyword?_append hx, Option.bind_some, hspaced]
      exact hr
  · rename_i hstart
    exact ⟨fun hsome => absurd hsome Bool.false_ne_true, fun hboth => absurd hboth.1 hstart⟩

section Alike

variable (h : Alike conditionWords ts us) (hts : Readable ts) (hus : Readable us)

include h hts hus

/-- If one of two alike queries ends with a condition word, the other ends with it too. -/
theorem Alike.exists_lastWord {w rest : Text} (hw : w ∈ conditionWords)
    (hread : keyword? w.reverse (maskOf us).reverse = some rest)
    (hstart : atWordStart rest = true) :
    ∃ p q, rest = (maskOf q).reverse ∧ Alike conditionWords p q ∧ Readable p ∧ Readable q ∧
      keyword? w.reverse (maskOf ts).reverse = some (maskOf p).reverse ∧
      atWordStart (maskOf p).reverse = true := by
  obtain ⟨hne, hletters⟩ := ofLetters_conditionWords w hw
  obtain ⟨q, x, rfl, hx, rfl⟩ := hus.exists_lastWord hne hletters hread hstart
  obtain ⟨p, r, rfl, hp, hr⟩ := h.exists_word hw hx
  obtain rfl := List.forall₂_nil_right_iff.1 hr
  obtain ⟨hread', hstart'⟩ := keyword?_lastWord hts hx
  exact ⟨p, q, rfl, hp, (Readable.of_append hts).1, (Readable.of_append hus).1, hread', hstart'⟩

theorem Alike.endsWithWord {words : List Text} (hwords : ∀ w ∈ words, w ∈ conditionWords)
    (hends : endsWithWord words (maskOf us).reverse = true) :
    endsWithWord words (maskOf ts).reverse = true := by
  obtain ⟨w, hw, hread⟩ := List.any_eq_true.1 hends
  refine List.any_eq_true.2 ⟨w, hw, ?_⟩
  split at hread
  · rename_i rest hrest
    obtain ⟨p, q, -, -, -, -, hread', hstart'⟩ :=
      h.exists_lastWord hts hus (hwords w hw) hrest hread
    rw [hread']
    exact hstart'
  · cases hread

theorem Alike.occurs_whereWord (hoccurs : occurs whereWord (maskOf us) = true) :
    occurs whereWord (maskOf ts) = true := by
  obtain ⟨a, b, hab, -, hread⟩ := occurs_eq_true_iff.1 hoccurs
  obtain ⟨hstart, x, r, rfl, hx, hblank⟩ := whereWord_isSome_iff.1 hread
  have hw : "WHERE".toList ∈ conditionWords := by decide
  obtain ⟨hne, hletters⟩ := ofLetters_conditionWords _ hw
  have hword := isWord_of_spells hne hletters hx
  have hlast : a.getLast?.any isWordChar = false := by
    rw [← List.head?_reverse]
    simpa [atWordStart] using hstart
  obtain ⟨q, s, rfl, -, rfl⟩ := hus.exists_word_before_blank hword hab hlast hblank
  obtain ⟨p, r, rfl, -, hr⟩ := h.exists_word hw hx
  have hhead := hr.head?_any (Readable.of_append hts).2.tail (Readable.of_append hus).2.tail
    outsideNames_isBlank
  refine occurs_eq_true_iff.2 ⟨maskOf p, x ++ maskOf r, by simp [Token.mask],
    by simp [hword.1], whereWord_isSome_iff.2 ⟨?_, x, maskOf r, rfl, hx, by rw [hhead, hblank]⟩⟩
  simpa [atWordStart] using hts.lexed.getLast?_maskOf_any

theorem Alike.conditionEndsWith {words : List Text} (hwords : ∀ w ∈ words, w ∈ conditionWords)
    (hends : conditionEndsWith words (maskOf us).reverse = true) :
    conditionEndsWith words (maskOf ts).reverse = true := by
  obtain ⟨w, hw, hread⟩ := List.any_eq_true.1 hends
  refine List.any_eq_true.2 ⟨w, hw, ?_⟩
  split at hread
  · rename_i rest hrest
    obtain ⟨hstart, hoccurs⟩ := Bool.and_eq_true_iff.1 hread
    obtain ⟨p, q, rfl, hpq, hp, hq, hread', hstart'⟩ :=
      h.exists_lastWord hts hus (hwords w hw) hrest hstart
    rw [List.reverse_reverse] at hoccurs
    rw [hread']
    simp only [hstart', Bool.true_and, List.reverse_reverse]
    exact hpq.occurs_whereWord hp hq hoccurs
  · cases hread

end Alike

/-- A character that no name has is the last token where it is the last character. -/
theorem Readable.exists_lastMark (h : Readable ts) {a : Text} {m : Char} (hm : isInName m = false)
    (hts : maskOf ts = a ++ [m]) : ∃ p c, ts = p ++ [.other c m] ∧ a = maskOf p := by
  rcases List.eq_nil_or_concat ts with rfl | ⟨p, t, rfl⟩
  · exact absurd hts (by simp)
  rw [List.concat_eq_append] at h hts
  have ht := (Readable.of_append h).2
  rw [maskOf_append, maskOf_cons, maskOf_nil, List.append_nil] at hts
  have hlast : t.mask.getLast? = some m := by
    have := congrArg List.getLast? hts
    rwa [List.getLast?_concat, List.getLast?_append_of_ne_nil _
      (Token.mask_ne_nil (ht.lexed.fit t List.mem_cons_self))] at this
  have hname {x : Text} (hx : t.name? = some x) : False := by
    have := ht.isInName_of_name hx m (List.mem_of_getLast? hlast)
    rw [hm] at this
    cases this
  cases t with
  | word w => exact (hname rfl).elim
  | quoted w => exact (hname rfl).elim
  | other c n =>
    obtain ⟨rfl, hn⟩ := List.append_inj' hts rfl
    obtain rfl := List.singleton_inj.1 hn
    exact ⟨p, c, List.concat_eq_append, rfl⟩

/-- The first of some elements is the only one. -/
theorem eq_of_first {α : Type} {P : α → Prop} {p q p' q' : List α} {t u : α}
    (h : p ++ t :: q = p' ++ u :: q') (ht : P t) (hu : P u) (hp : ∀ x ∈ p, ¬ P x)
    (hp' : ∀ x ∈ p', ¬ P x) : q = q' := by
  obtain ⟨x, rfl, hx⟩ | ⟨x, rfl, hx⟩ := List.append_eq_append_iff.1 h
  · cases x with
    | nil => exact (List.cons.inj hx).2
    | cons y x =>
      obtain ⟨rfl, -⟩ := List.cons.inj hx
      exact absurd ht (hp' t (by simp))
  · cases x with
    | nil => exact (List.cons.inj hx).2.symm
    | cons y x =>
      obtain ⟨rfl, -⟩ := List.cons.inj hx
      exact absurd hu (hp u (by simp))

/-- A condition stays open if more parentheses open than close behind the first `WHERE`. -/
theorem conditionStaysOpen_maskOf_iff (h : Readable ts) :
    conditionStaysOpen (maskOf ts) = true ↔ ∃ p t q, ts = p ++ t :: q ∧ t.IsOneOf ["WHERE"] ∧
      (∀ u ∈ p, ¬ u.IsOneOf ["WHERE"]) ∧ (maskOf q).count ')' < (maskOf q).count '(' := by
  have hletters : OfLetters ["WHERE"] := by decide
  have hcount {q : List Token} {t : Token} {k : Hit Text}
      (hdrop : (maskOf ts).drop k.stop = t.quotes ++ maskOf q) {c : Char} (hc : c ≠ '"') :
      ((maskOf ts).drop k.stop).count c = (maskOf q).count c := by
    rw [hdrop, List.count_append]
    cases t <;> simp [Token.quotes, Ne.symm hc]
  unfold conditionStaysOpen wholeWord
  cases hfirst : firstHit? (oneWord ["WHERE"]) (maskOf ts) with
  | none =>
    refine ⟨fun hopen => absurd hopen Bool.false_ne_true, ?_⟩
    rintro ⟨p, t, q, rfl, ⟨x, hx, w, hw, hspells⟩, -⟩
    have hread := oneWord_isSome_of_isOneOf h.lexed hx ⟨x, hx, w, hw, hspells⟩
    have hword := isWord_of_spells (hletters w hw).1 (hletters w hw).2 hspells
    rw [firstHit?_eq_none_iff.1 hfirst _ _ (h.lexed.wholeWord_of_name hx).1
      (by simp [hword.1])] at hread
    cases hread
  | some k =>
    obtain ⟨p, t, q, hts, ht, hp, hdrop⟩ :=
      exists_of_firstHit?_oneWord h.lexed h.words hletters hfirst
    simp only [hcount hdrop (by decide : ')' ≠ '"'), hcount hdrop (by decide : '(' ≠ '"'),
      decide_eq_true_eq]
    constructor
    · intro hlt
      exact ⟨p, t, q, hts, ht, hp, hlt⟩
    · rintro ⟨p', t', q', hts', ht', hp', hlt⟩
      rwa [eq_of_first (hts.symm.trans hts') ht ht' hp hp']

/-! ## Queries that break off -/

/-- The tokens of a query without blanks at its ends and a semicolon that closes it. -/
def trimmedTokens (ts : List Token) : List Token :=
  (((ts.dropWhile (·.isMark isBlank)).rdropWhile (·.isMark isBlank)).rdropWhile
    (·.isMark (· == ';'))).rdropWhile (·.isMark isBlank)

theorem maskOf_trimmedTokens (h : Readable ts) :
    maskOf (trimmedTokens ts) = trimEnd (trimEndOf ';' (trim (maskOf ts))) := by
  have h₁ := h.of_ending (List.dropWhile_suffix fun t : Token => t.isMark isBlank)
  have h₂ := h₁.of_beginning (List.rdropWhile_prefix (fun t : Token => t.isMark isBlank) _)
  have h₃ := h₂.of_beginning (List.rdropWhile_prefix (fun t : Token => t.isMark (· == ';')) _)
  unfold trimmedTokens
  rw [maskOf_rdropWhile h₃ outsideNames_isBlank, maskOf_rdropWhile h₂ (outsideNames_beq rfl),
    maskOf_rdropWhile h₁ outsideNames_isBlank, maskOf_dropWhile h outsideNames_isBlank]
  rfl

theorem Alike.conditionStaysOpen (h : Alike conditionWords ts us) (hts : Readable ts)
    (hus : Readable us) (hopen : conditionStaysOpen (maskOf us) = true) :
    conditionStaysOpen (maskOf ts) = true := by
  have hwhere : ∀ v ∈ Text.ofStrings ["WHERE"], v ∈ conditionWords := by decide
  obtain ⟨p, u, q, rfl, hu, hfirst, hlt⟩ := (conditionStaysOpen_maskOf_iff hus).1 hopen
  obtain ⟨p', t, q', rfl, hp, htu, hq⟩ := h.exists_cons
  refine (conditionStaysOpen_maskOf_iff hts).2 ⟨p', t, q', rfl, htu.isOneOf hwhere hu, ?_, ?_⟩
  · intro t ht hone
    obtain ⟨u, hu, hone⟩ := hp.symm.exists_isOneOf hwhere ⟨t, ht, hone⟩
    exact hfirst u hu hone
  · have hts := (Readable.of_append hts).2.tail
    have hus := (Readable.of_append hus).2.tail
    rwa [hq.count_eq hts hus rfl, hq.count_eq hts hus rfl]

theorem Readable.trimmed (h : Readable ts) : Readable (trimmedTokens ts) :=
  (((h.of_ending (List.dropWhile_suffix _)).of_beginning (List.rdropWhile_prefix _ _)).of_beginning
    (List.rdropWhile_prefix _ _)).of_beginning (List.rdropWhile_prefix _ _)

theorem Alike.trimmed {words : List Text} (h : Alike words ts us) :
    Alike words (trimmedTokens ts) (trimmedTokens us) :=
  (((h.dropWhile isBlank).rdropWhile isBlank).rdropWhile (· == ';')).rdropWhile isBlank

/-- An `IN` that a parenthesis follows at the end. -/
theorem Alike.endsInList (h : Alike conditionWords ts us) (hts : Readable ts) (hus : Readable us)
    {r : Text} (hr : (maskOf us).reverse = '(' :: r)
    (hends : Wording.conditionEndsWith ["IN"] (skipBlanks r) = true) :
    ∃ r, (maskOf ts).reverse = '(' :: r ∧
      Wording.conditionEndsWith ["IN"] (skipBlanks r) = true := by
  have hmask : maskOf us = r.reverse ++ ['('] := by
    rw [← List.reverse_reverse (maskOf us), hr, List.reverse_cons]
  obtain ⟨q, c, rfl, hq⟩ := hus.exists_lastMark rfl hmask
  obtain ⟨p, t, rfl, hpq, ht⟩ := h.exists_concat
  cases ht with
  | names _ hy _ _ => cases hy
  | same =>
    have hp := (Readable.of_append hts).1
    have hq' := (Readable.of_append hus).1
    refine ⟨(maskOf p).reverse, by simp [Token.mask], ?_⟩
    have hskip {p : List Token} (hp : Readable p) :
        skipBlanks (maskOf p).reverse = (maskOf (p.rdropWhile (·.isMark isBlank))).reverse := by
      rw [maskOf_rdropWhile hp outsideNames_isBlank, List.rdropWhile, List.reverse_reverse]
      rfl
    rw [← List.reverse_reverse r, hq, hskip hq'] at hends
    rw [hskip hp]
    exact (hpq.rdropWhile isBlank).conditionEndsWith (hp.of_beginning (List.rdropWhile_prefix _ _))
      (hq'.of_beginning (List.rdropWhile_prefix _ _)) (by decide) hends

/-- Of two alike queries both break off inside a condition or none. -/
theorem Alike.breaksOff (h : Alike conditionWords ts us) (hts : Readable ts) (hus : Readable us)
    (hbreaks : breaksOff (maskOf us) = true) : breaksOff (maskOf ts) = true := by
  have h := h.trimmed
  unfold Wording.breaksOff at hbreaks ⊢
  simp only [← maskOf_trimmedTokens hts, ← maskOf_trimmedTokens hus, Bool.or_eq_true] at hbreaks ⊢
  have hts := hts.trimmed
  have hus := hus.trimmed
  rcases hbreaks with (((hword | hcompared) | hlist) | hconnective) | hopen
  · exact .inl (.inl (.inl (.inl (h.endsWithWord hts hus (by decide) hword))))
  · refine .inl (.inl (.inl (.inr ?_)))
    obtain ⟨hlast, hoccurs⟩ := Bool.and_eq_true_iff.1 hcompared
    refine Bool.and_eq_true_iff.2 ⟨?_, h.occurs_whereWord hts hus hoccurs⟩
    have hmarks : OutsideNames ['=', '<', '>'].contains := by
      intro c hc
      rw [Bool.eq_false_iff]
      intro hmem
      have hnone : ∀ c ∈ ['=', '<', '>'], isInName c = false := by decide
      rw [hnone c (List.contains_iff_mem.1 hmem)] at hc
      cases hc
    rw [List.head?_reverse] at hlast ⊢
    rwa [h.getLast?_any hts hus hmarks]
  · refine .inl (.inl (.inr ?_))
    split at hlist
    · rename_i r hr
      obtain ⟨r, hr, hends⟩ := h.endsInList hts hus hr hlist
      rw [hr]
      exact hends
    · cases hlist
  · exact .inl (.inr (h.conditionEndsWith hts hus (by decide) hconnective))
  · exact .inr (h.conditionStaysOpen hts hus hopen)

end QueryGate
