import QueryGate.Gate.Structure
import QueryGate.Proofs.Sql.TokenWords

/-!
# Readings of words

The readers of a query that look for words are alike: each reads where a word begins, one of its
words, and behind it what it asks for, which lies on one side of a double quote (`ReadsWords`). So
where such a reader finds something a token is one of its words, or a name in quotes holds something
for it to find (`ReadsWords.exists_token`), whatever else the quotes hold.
-/

namespace QueryGate

/-- A reader of some words, with something `behind` each that ends the word and does not reach
across a double quote. -/
structure ReadsWords {α : Type} (read : Reading α) (words : List Text) (behind : Text → Prop) :
    Prop where
  isSome_iff : ∀ before after, (read before after).isSome = true ↔ atWordStart before = true ∧
    ∃ w ∈ words, ∃ x r, after = x ++ r ∧ Spells w x ∧ behind r
  ends : ∀ r, behind r → atWordEnd r = true
  beforeQuote : ∀ r next, behind (r ++ '"' :: next) → behind r

/-- A part without a quote that stands before a quote stands in front of it. -/
theorem exists_append_of_unquoted {b x r next : Text} (hx : '"' ∉ x)
    (h : b ++ '"' :: next = x ++ r) : ∃ y, b = x ++ y ∧ r = y ++ '"' :: next := by
  obtain ⟨y, rfl, hy⟩ | ⟨y, rfl, rfl⟩ := List.append_eq_append_iff.1 h
  · cases y with
    | nil => exact ⟨[], by simp, by simpa using hy.symm⟩
    | cons c y =>
      obtain ⟨rfl, -⟩ := List.cons.inj hy
      exact absurd (by simp) hx
  · exact ⟨y, rfl, rfl⟩

theorem atWordEnd_of_blanks {g r : Text} (hne : g ≠ []) (hg : allBlank g = true) :
    atWordEnd (g ++ r) = true := by
  obtain ⟨c, g, rfl⟩ := List.exists_cons_of_ne_nil hne
  rw [atWordEnd, List.cons_append, List.head?_cons, Option.any_some,
    isWordChar_eq_false_of_isBlank (List.all_eq_true.1 hg c List.mem_cons_self)]
  rfl

theorem atWordEnd_of_opensCall {r : Text} (h : opensCall r = true) : atWordEnd r = true := by
  cases r with
  | nil => rfl
  | cons c r =>
    by_cases hc : isBlank c = true
    · exact atWordEnd_of_blanks (g := [c]) (by simp) (by simpa [allBlank] using hc)
    · rw [opensCall, skipBlanks_eq_self (by simpa using hc), beq_iff_eq, List.head?_cons] at h
      obtain rfl := Option.some.inj h
      rfl

/-- A parenthesis and the blanks in front of it are on one side of a quote. -/
theorem opensCall_of_quote {r next : Text} (h : opensCall (r ++ '"' :: next) = true) :
    opensCall r = true := by
  cases hr : allBlank r with
  | true =>
    rw [opensCall, skipBlanks_append hr rfl] at h
    cases h
  | false =>
    rw [opensCall, skipBlanks_append_of_not_allBlank hr] at h
    rw [opensCall]
    cases hskip : skipBlanks r with
    | nil =>
      rw [skipBlanks_eq_nil_iff, hr] at hskip
      cases hskip
    | cons c t =>
      rw [hskip] at h
      exact h

namespace ReadsWords

/-! ## The readers -/

theorem oneWord (words : List Text) :
    ReadsWords (oneWord words) words (atWordEnd · = true) where
  isSome_iff before after := by
    constructor
    · intro h
      obtain ⟨⟨v, rest⟩, h⟩ := Option.isSome_iff_exists.1 h
      obtain ⟨hstart, hafter, ⟨w, hw, hv⟩, hend⟩ := oneWord_eq_some h
      exact ⟨hstart, w, hw, v, rest, hafter, hv, by simpa [atWordEnd] using hend⟩
    · rintro ⟨hstart, w, hw, x, r, rfl, hx, hend⟩
      exact oneWord_isSome hstart hw hx hend
  ends _ h := h
  beforeQuote r next h := by
    cases r with
    | nil => rfl
    | cons c r => exact h

/-- Blanks and a number stand at the beginning. -/
def BeginsNumber (r : Text) : Prop :=
  ∃ t, spaced? r = some t ∧ t.head?.any isDecimalDigit = true

namespace BeginsNumber

theorem atWordEnd {r : Text} (h : BeginsNumber r) : atWordEnd r = true := by
  obtain ⟨t, ht, -⟩ := h
  rw [QueryGate.atWordEnd, head?_any_isWordChar_of_spaced? ht]
  rfl

/-- Blanks and a digit are on one side of a quote. -/
theorem of_quote {r next : Text} (h : BeginsNumber (r ++ '"' :: next)) : BeginsNumber r := by
  obtain ⟨t, ht, hdigit⟩ := h
  obtain ⟨g, hne, hg, hhead, h⟩ := spaced?_eq_some_iff.1 ht
  obtain ⟨y, rfl, rfl⟩ := exists_append_of_unquoted (not_mem_of_allBlank (by decide) hg) h
  cases y with
  | nil =>
    have hquote : isDecimalDigit '"' = false := by decide
    rw [List.nil_append, List.head?_cons, Option.any_some, hquote] at hdigit
    cases hdigit
  | cons d y => exact ⟨d :: y, spaced?_append hne hg hhead, hdigit⟩

end BeginsNumber

theorem limitNumber : ReadsWords Structure.limitNumber ["LIMIT"] BeginsNumber where
  isSome_iff before after := by
    rw [Structure.limitNumber]
    by_cases hstart : atWordStart before = true
    · rw [if_pos hstart]
      constructor
      · intro h
        split at h
        · rename_i t ht
          obtain ⟨r, hr, hspaced⟩ := Option.bind_eq_some_iff.1 ht
          obtain ⟨x, rfl, hx⟩ := keyword?_eq_some_iff.1 hr
          refine ⟨hstart, "LIMIT", List.mem_cons_self, x, r, rfl, hx, t, hspaced, ?_⟩
          cases t with
          | nil => cases h
          | cons d t =>
            by_contra hd
            simp [show isDecimalDigit d = false by simpa using hd] at h
        · cases h
      · rintro ⟨-, w, hw, x, r, rfl, hx, t, ht, hdigit⟩
        obtain rfl := List.mem_singleton.1 hw
        rw [keyword?_append hx, Option.bind_some, ht]
        cases t with
        | nil => cases hdigit
        | cons d t =>
          have hd : isDecimalDigit d = true := hdigit
          simp [hd]
    · rw [if_neg hstart]
      exact iff_of_false Bool.false_ne_true fun h => hstart h.1
  ends _ h := h.atWordEnd
  beforeQuote _ _ h := h.of_quote

theorem aggregateCall :
    ReadsWords Grouping.aggregateCall aggregateFunctions (opensCall · = true) where
  isSome_iff before after := by
    rw [Grouping.aggregateCall]
    by_cases hstart : atWordStart before = true
    · rw [if_pos hstart, List.findSome?_isSome_iff]
      refine (and_iff_right hstart).symm.trans (and_congr_right fun _ => ?_)
      refine exists_congr fun f => and_congr_right fun _ => ?_
      constructor
      · intro h
        split at h
        · rename_i rest hrest
          obtain ⟨r, hr, hskip⟩ := Option.map_eq_some_iff.1 hrest
          obtain ⟨x, rfl, hx⟩ := keyword?_eq_some_iff.1 hr
          exact ⟨x, r, rfl, hx, by rw [opensCall, hskip]; rfl⟩
        · cases h
      · rintro ⟨x, r, rfl, hx, hopen⟩
        obtain ⟨rest, hrest⟩ : ∃ rest, skipBlanks r = '(' :: rest := by
          rw [opensCall, beq_iff_eq, List.head?_eq_some_iff] at hopen
          exact hopen
        rw [keyword?_append hx, Option.map_some, hrest]
        rfl
    · rw [if_neg hstart]
      exact iff_of_false Bool.false_ne_true fun h => hstart h.1
  ends _ h := atWordEnd_of_opensCall h
  beforeQuote _ _ h := opensCall_of_quote h

/-! ## What is found -/

variable {α : Type} {read : Reading α} {words : List Text} {behind : Text → Prop}
  {ts : List Token}

/-- Where something is read a token is one of the words, or it is read inside quotes. -/
theorem exists_token (hread : ReadsWords read words behind) (hwords : OfLetters words)
    (h : Lexed ts) {a b : Text} (hab : maskOf ts = a ++ b)
    (hsome : (read a.reverse b).isSome = true) :
    (∃ p x q, ts = p ++ .word x :: q ∧ a = maskOf p ∧ (∃ w ∈ words, Spells w x) ∧
        behind (maskOf q)) ∨
      ∃ w, .quoted w ∈ ts ∧ occurs read w = true := by
  obtain ⟨hstart, w, hw, x, r, rfl, hx, hbehind⟩ := (hread.isSome_iff _ _).1 hsome
  have hword := isWord_of_spells (hwords w hw).1 (hwords w hw).2 hx
  have hr : r.head?.any isWordChar = false := by simpa [atWordEnd] using hread.ends r hbehind
  obtain ⟨p, q, ⟨rfl, rfl, hq⟩ | ⟨t, y, z, rfl, rfl, hz, ht, hy, hzne⟩⟩ := Lexed.exists_split hab
  · obtain ⟨us, rfl, rfl⟩ := (Lexed.of_append h).2.exists_word hword hr hq.symm
    exact .inl ⟨p, x, us, rfl, rfl, ⟨w, hw, hx⟩, hbehind⟩
  · have hfit := h.fit t (by simp)
    cases t with
    | word v =>
      -- Inside a word no other begins.
      have hmem : y.getLast hy ∈ v := by
        change _ ∈ Token.mask (.word v)
        rw [ht]
        exact List.mem_append_left z (List.getLast_mem hy)
      rw [atWordStart_reverse_iff, getLast?_any_append _ hy, List.getLast?_eq_some_getLast hy,
        Option.any_some, hfit.2 _ hmem] at hstart
      cases hstart
    | quoted v =>
      right
      refine ⟨v, by simp, occurs_eq_true_iff.2 ?_⟩
      obtain ⟨u, rfl, v, rfl⟩ := Token.exists_suffix_of_quoted ht hy hzne
      obtain rfl : y = '"' :: v := by
        have hmask : ('"' :: v) ++ (u ++ ['"']) = y ++ (u ++ ['"']) := by
          rw [← ht]
          simp [Token.mask, inQuotes]
        exact (List.append_cancel_right hmask).symm
      have hx' : '"' ∉ x := fun hmem => isWordChar_ne_quote (hword.2 _ hmem) rfl
      obtain ⟨r, rfl, rfl⟩ := exists_append_of_unquoted hx' (by simpa using hz.symm)
      refine ⟨v, x ++ r, rfl, by simp [hword.1], (hread.isSome_iff _ _).2
        ⟨?_, w, hw, x, r, rfl, hx, hread.beforeQuote r _ hbehind⟩⟩
      rw [atWordStart_reverse_iff] at hstart ⊢
      cases v with
      | nil => rfl
      | cons c v =>
        rwa [getLast?_any_append _ (List.cons_ne_nil _ _),
          List.getLast?_cons_of_ne_nil (List.cons_ne_nil c v)] at hstart
    | other c m => exact (Token.not_cut_of_other ht hy hzne).elim

end ReadsWords

end QueryGate
