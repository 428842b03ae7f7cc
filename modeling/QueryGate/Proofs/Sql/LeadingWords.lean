import QueryGate.Proofs.Sql.TokenWords
import QueryGate.Proofs.Text.Ascii

/-!
# Words that lead up to a place

Whether one of some words leads up to a place, with blanks in between, is a question about the
tokens in front of it (`followsWord_iff`). In a query without the letters beyond ASCII that count as
ASCII ones (`PlainWords`), what is spelled like a keyword is that keyword.
-/

namespace QueryGate

/-! ## Plain words -/

/-- The letters beyond ASCII that count as ASCII letters where case is disregarded. -/
def foldedLetters : List Char := ['ſ', '\u212A', 'İ', 'ı']

theorem ascii_of_not_folded {c : Char} (hc : c ∉ foldedLetters)
    (h : (foldLetter c).toNat < 128) : c.toNat < 128 := by
  rcases foldLetter_cases c with hascii | hmem | ⟨-, hself⟩
  · exact hascii
  · exact absurd hmem hc
  · rwa [hself] at h

theorem isNameStart_of_not_folded {c : Char} (hc : c ∉ foldedLetters)
    (h : isFoldedNameStart c = true) : isNameStart c = true := by
  have hascii := ascii_of_not_folded hc (ascii_of_isNameStart h)
  have := forall_ascii (p := fun c => !isFoldedNameStart c || isNameStart c) (by decide)
    hascii
  simpa [h] using this

/-- What is spelled like an ASCII word without such letters is that word. -/
theorem isKeyword_of_spells {word w : Text} (hword : Ascii word) (hw : ∀ c ∈ w, c ∉ foldedLetters)
    (h : Spells word w) : isKeyword w = isKeyword word := by
  have hfold : ∀ x ∈ word.map foldLetter, x.toNat < 128 := by
    intro x hx
    obtain ⟨c, hc, rfl⟩ := List.mem_map.1 hx
    have := forall_ascii (p := fun c => decide ((foldLetter c).toNat < 128)) (by decide)
      (hword c hc)
    simpa using this
  have hascii : Ascii w := fun c hc => ascii_of_not_folded (hw c hc) (hfold _ (h.mem hc))
  rw [isKeyword, isKeyword, (hword.spells_iff hascii).1 h]

/-- A word without such letters. -/
def Token.HasPlainLetters : Token → Prop
  | word w => ∀ c ∈ w, c ∉ foldedLetters
  | _ => True

instance : DecidablePred Token.HasPlainLetters
  | .word w => decidableForallMemText w _
  | .quoted _ => inferInstanceAs (Decidable True)
  | .other _ _ => inferInstanceAs (Decidable True)

def PlainWords (ts : List Token) : Prop := ∀ t ∈ ts, t.HasPlainLetters

instance (ts : List Token) : Decidable (PlainWords ts) := inferInstanceAs (Decidable (∀ t ∈ ts, _))

/-! ## Words in front -/

/-- Some tokens end in one of some words, with blanks behind it. -/
def LeadBy (words : List Text) (ts : List Token) : Prop :=
  ∃ p w g, ts = p ++ .word w :: g ∧ g ≠ [] ∧ allBlank (maskOf g) = true ∧
    ∃ word ∈ words, Spells word w

theorem LeadBy.mono {words words' : List Text} {ts : List Token} (h : LeadBy words ts)
    (hsub : ∀ w ∈ words, w ∈ words') : LeadBy words' ts := by
  obtain ⟨p, w, g, hts, hne, hg, word, hword, hspells⟩ := h
  exact ⟨p, w, g, hts, hne, hg, word, hsub word hword, hspells⟩

section Lead

variable {ts : List Token} {words : List Text}

/-- Blanks at the end of the mask are the last tokens. -/
theorem Lexed.exists_lastBlanks (h : Lexed ts) {a g : Text} (hts : maskOf ts = a ++ g)
    (hg : allBlank g = true) : ∃ p q, ts = p ++ q ∧ a = maskOf p ∧ g = maskOf q := by
  obtain ⟨p, q, hcut | ⟨t, x, y, rfl, -, rfl, ht, hx, hy⟩⟩ := Lexed.exists_split hts
  · exact ⟨p, q, hcut⟩
  exfalso
  have hblank : ∀ c ∈ y, isBlank c = true := fun c hc =>
    List.all_eq_true.1 hg c (List.mem_append_left _ hc)
  have hfit := h.fit t (by simp)
  cases t with
  | word w =>
    obtain ⟨c, y, rfl⟩ := List.exists_cons_of_ne_nil hy
    have hc : isWordChar c = true := hfit.2 c (by
      change c ∈ (Token.word w).mask
      simp [ht])
    rw [isWordChar_eq_false_of_isBlank (hblank c List.mem_cons_self)] at hc
    cases hc
  | quoted w =>
    obtain ⟨z, rfl, -⟩ := Token.exists_suffix_of_quoted ht hx hy
    exact absurd (hblank '"' (by simp)) (by decide)
  | other c m => exact Token.not_cut_of_other ht hx hy

/-- Only one word leads up to a place. -/
theorem LeadBy.exists_word {words' : List Text} (h : LeadBy words ts) (h' : LeadBy words' ts)
    (hts : Lexed ts) : ∃ w, (∃ word ∈ words, Spells word w) ∧ ∃ word ∈ words', Spells word w := by
  obtain ⟨p, w, g, rfl, -, hg, hw⟩ := h
  obtain ⟨p', w', g', heq, -, hg', hw'⟩ := h'
  have hblank := (Lexed.of_append hts).2.tail
  have hblank' := (Lexed.of_append (heq ▸ hts)).2.tail
  obtain ⟨z, rfl, hz⟩ | ⟨z, rfl, hz⟩ := List.append_eq_append_iff.1 heq
  · cases z with
    | nil =>
      obtain rfl := Token.word.inj (List.cons.inj hz).1
      exact ⟨w, hw, hw'⟩
    | cons t z =>
      obtain ⟨rfl, rfl⟩ := List.cons.inj hz
      exact absurd (by simp) (hblank.not_mem_word_of_blank hg w')
  · cases z with
    | nil =>
      obtain rfl := Token.word.inj (List.cons.inj hz).1
      exact ⟨w', hw, hw'⟩
    | cons t z =>
      obtain ⟨rfl, rfl⟩ := List.cons.inj hz
      exact absurd (by simp) (hblank'.not_mem_word_of_blank hg' w)

theorem followsWord_iff (h : Lexed ts) (hwords : OfLetters words) :
    followsWord words (maskOf ts).reverse = true ↔ LeadBy words ts := by
  constructor
  · intro hfollows
    obtain ⟨t, ht, hends⟩ := (Option.any_eq_true ..).1 hfollows
    obtain ⟨g, hne, hg, -, hback⟩ := spaced?_eq_some_iff.1 ht
    obtain ⟨word, hword, hread⟩ := List.any_eq_true.1 hends
    split at hread
    case h_2 => cases hread
    rename_i rest hrest
    obtain ⟨y, rfl, hspells⟩ := keyword?_eq_some hrest
    have hts : maskOf ts = (rest.reverse ++ y.reverse) ++ g.reverse := by
      rw [← List.reverse_append, ← List.reverse_append, ← hback, List.reverse_reverse]
    obtain ⟨p, q, rfl, hp, hq⟩ := h.exists_lastBlanks hts (by simpa [allBlank] using hg)
    have hspells' : Spells word y.reverse := by
      rw [← spells_reverse_iff, List.reverse_reverse]
      exact hspells
    obtain ⟨p, rfl, -⟩ := (Lexed.of_append h).1.exists_lastWord
      (isWord_of_spells (hwords word hword).1 (hwords word hword).2 hspells') hp.symm
      (by rwa [← atWordStart_reverse_iff, List.reverse_reverse])
    refine ⟨p, y.reverse, q, by simp, ?_, hq ▸ by simpa [allBlank] using hg, word, hword, hspells'⟩
    rintro rfl
    exact hne (List.reverse_eq_nil_iff.1 hq)
  · rintro ⟨p, w, g, rfl, hne, hg, word, hword, hspells⟩
    have hw : IsWord w := h.fit (.word w) (by simp)
    have hgne : maskOf g ≠ [] := by
      intro hnil
      exact hne ((Lexed.of_append h).2.tail.eq_nil (by rw [hnil]; rfl))
    have hhead : (w.reverse ++ (maskOf p).reverse).head?.any isBlank = false := by
      have hrev : w.reverse ≠ [] := by simpa using hw.1
      rw [List.head?_append, List.head?_eq_some_head hrev, Option.some_or, Option.any_some]
      exact isBlank_eq_false_of_isWordChar (hw.2 _ (List.mem_reverse.1 (List.head_mem hrev)))
    have hspaced : spaced? (maskOf (p ++ .word w :: g)).reverse =
        some (w.reverse ++ (maskOf p).reverse) :=
      spaced?_eq_some_iff.2 ⟨(maskOf g).reverse, by simpa using hgne,
        by simpa [allBlank] using hg, hhead, by simp [Token.mask]⟩
    rw [followsWord, hspaced, Option.any_some, endsWithWord]
    refine List.any_eq_true.2 ⟨word, hword, ?_⟩
    rw [keyword?_append (spells_reverse_iff.2 hspells)]
    exact atWordStart_reverse_iff.2 h.getLast?_maskOf_any

end Lead

end QueryGate
