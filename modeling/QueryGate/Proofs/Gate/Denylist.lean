import QueryGate.Proofs.Gate.SingleStatement
import QueryGate.Proofs.Sql.Lexing
import QueryGate.Proofs.Text.Hits

/-!
# Words that are denied

The words that the first tier denies, against the lexical structure of SQL. The tier looks for them
in the mask of the literals, which knows nothing of quoted identifiers: each apostrophe inside one
is taken for the delimiter of a literal. Behind an odd number of those, and up to the next
apostrophe, the mask and the literals have changed places (`MaskDrifts`). An accepted text has a
denied word in its rest exactly if it has one there (`denied_words_of_accepted`).
-/

namespace QueryGate

/-- The words that the first tier denies. -/
def Wording.deniedWords : List Text := forbiddenWords ++ transactionWords

/-- A denied word stands, whole and regardless of case, in the rest of a text. -/
structure DeniedWord (sql before word after : Text) : Prop where
  text_eq : sql = before ++ (word ++ after)
  outside : (lexState before).isOutside = true
  denied : ∃ w ∈ Wording.deniedWords, Spells w word
  starts : atWordStart before.reverse = true
  ends : atWordEnd after = true

/-- The mask takes what stands at a place in the rest for the inside of a literal: the quoted
identifiers before it hold an odd number of apostrophes, and another apostrophe follows. -/
def MaskDrifts (before after : Text) : Prop := quotedApostrophes before % 2 = 1 ∧ '\'' ∈ after

/-! ## Denied words as parts of a text -/

namespace DeniedWord

variable {sql before word after : Text}

theorem letters (h : DeniedWord sql before word after) :
    ∀ c ∈ word, (foldLetter c).isLower = true := by
  obtain ⟨w, hw, hs⟩ := h.denied
  have hlower : ∀ w ∈ Wording.deniedWords, ∀ c ∈ w.map foldLetter, c.isLower = true := by
    decide +kernel
  exact fun c hc => hlower w hw _ (hs.mem hc)

theorem no_apostrophe (h : DeniedWord sql before word after) : '\'' ∉ word := by
  intro hmem
  exact absurd (h.letters _ hmem) (by decide)

theorem word_ne_nil (h : DeniedWord sql before word after) : word ≠ [] := by
  rintro rfl
  obtain ⟨w, hw, hs⟩ := h.denied
  have hne : ∀ w ∈ Wording.deniedWords, w ≠ [] := by decide
  exact hne w hw (List.length_eq_zero_iff.1 hs.length_eq.symm)

theorem head?_ne_apostrophe (h : DeniedWord sql before word after) :
    (word ++ after).head? ≠ some '\'' := by
  cases word with
  | nil => exact absurd rfl h.word_ne_nil
  | cons c word =>
    intro hc
    obtain rfl := Option.some.inj hc
    exact h.no_apostrophe List.mem_cons_self

end DeniedWord

/-! ## What the mask shows of them -/

theorem isWordChar_maskChar : isWordChar maskChar = false := by decide

theorem atWordStart_take_maskLiterals {before after : Text}
    (h : atWordStart before.reverse = true) :
    atWordStart ((maskLiterals (before ++ after)).take before.length).reverse = true := by
  rw [atWordStart, List.head?_reverse] at h ⊢
  rw [List.getLast?_take]
  split
  · rfl
  · rename_i hlen
    have hlt : before.length - 1 < (maskLiterals (before ++ after)).length := by
      simp only [length_maskLiterals, List.length_append]
      omega
    rw [List.getElem?_eq_getElem hlt, Option.some_or, Option.any_some, Bool.not_eq_true']
    generalize hc : (maskLiterals (before ++ after))[before.length - 1] = c
    by_cases hmask : c = maskChar
    · rw [hmask]
      exact isWordChar_maskChar
    · have hc' : (maskLiterals (before ++ after))[before.length - 1]? = some c := by
        rw [List.getElem?_eq_getElem hlt, hc]
      have htext := getElem?_maskLiterals hc' hmask
      rw [List.getElem?_append_left (by omega), ← List.getLast?_eq_getElem?] at htext
      rw [htext] at h
      simpa using h

/-- Where the mask does not drift it shows a word of the rest as it stands. -/
theorem DeniedWord.exists_mask_of_not_drifts {sql before word after : Text}
    (h : DeniedWord sql before word after) (hdrift : ¬ MaskDrifts before after) :
    ∃ m r, maskLiterals sql = m ++ (word ++ r) ∧ atWordStart m.reverse = true ∧
      atWordEnd r = true := by
  have hword := h.no_apostrophe
  have hsplit := List.take_append_drop before.length (maskLiterals sql)
  have hdrop : ∃ r, (maskLiterals sql).drop before.length = word ++ r ∧ atWordEnd r = true := by
    rw [h.text_eq, drop_maskLiterals_append before h.head?_ne_apostrophe,
      count_apostrophe h.outside]
    by_cases hodd : quotedApostrophes before % 2 = 0
    · refine ⟨maskLiterals after, ?_, ?_⟩
      · rw [if_pos hodd, maskLiterals_prepend hword]
      · rw [atWordEnd, head?_maskLiterals]
        exact h.ends
    · have hafter : '\'' ∉ after := fun hmem => hdrift ⟨by omega, hmem⟩
      have hall : '\'' ∉ word ++ after := fun hmem => (List.mem_append.1 hmem).elim hword hafter
      exact ⟨after, by rw [if_neg hodd, maskOpen_eq_self hall], h.ends⟩
  obtain ⟨r, hr, hend⟩ := hdrop
  refine ⟨(maskLiterals sql).take before.length, r, by rw [← hr, hsplit], ?_, hend⟩
  rw [h.text_eq]
  exact atWordStart_take_maskLiterals h.starts

/-- Where the mask drifts it blots out a word of the rest. -/
theorem DeniedWord.mask_of_drifts {sql before word after : Text}
    (h : DeniedWord sql before word after) (hdrift : MaskDrifts before after) :
    Text.slice (maskLiterals sql) before.length (before.length + word.length) =
      List.replicate word.length maskChar := by
  have hodd : ¬ before.count '\'' % 2 = 0 := by
    rw [count_apostrophe h.outside, hdrift.1]
    decide
  have hdrop : (maskLiterals sql).drop before.length =
      List.replicate word.length maskChar ++ maskOpen after := by
    rw [h.text_eq, drop_maskLiterals_append before h.head?_ne_apostrophe, if_neg hodd,
      maskOpen_prepend h.no_apostrophe hdrift.2]
  rw [Text.slice, List.drop_take, hdrop, Nat.add_sub_cancel_left]
  exact List.take_left' (List.length_replicate ..)

/-! ## What the tier denies -/

theorem Wording.Kept.no_denied_word {sql m w word r : Text} (h : Wording.Kept sql)
    (hmask : maskLiterals sql = m ++ (word ++ r)) (hne : word ≠ [])
    (hw : w ∈ Wording.deniedWords) (hs : Spells w word) (hstart : atWordStart m.reverse = true)
    (hend : atWordEnd r = true) : False := by
  have hne' : word ++ r ≠ [] := fun h => hne (List.append_eq_nil_iff.1 h).1
  have hnone : ∀ words, w ∈ words → oneWord words m.reverse (word ++ r) = none → False := by
    intro words hw hread
    have hsome := oneWord_isSome hstart hw hs hend
    rw [hread] at hsome
    cases hsome
  rcases List.mem_append.1 hw with hw | hw
  · have hfirst := h.noForbiddenWord
    rw [Wording.forbiddenWord?, Option.map_eq_none_iff, firstHit?_eq_none_iff] at hfirst
    exact hnone _ hw (hfirst m _ hmask hne')
  · exact hnone _ hw (occurs_eq_false_iff.1 h.noTransaction m _ hmask hne')

/-- A denied word of an accepted text stands where the mask drifts. -/
theorem DeniedWord.drifts_of_accepted {sql before word after : Text}
    (hword : DeniedWord sql before word after) (h : (checkWording sql).isValid = true) :
    MaskDrifts before after := by
  by_contra hdrift
  obtain ⟨m, r, hmask, hstart, hend⟩ := hword.exists_mask_of_not_drifts hdrift
  obtain ⟨w, hw, hs⟩ := hword.denied
  exact (checkWording_isValid_iff.1 h).no_denied_word hmask hword.word_ne_nil hw hs hstart hend

/-- An accepted text has no denied word in its rest exactly if it has none where the mask drifts;
each one that it has, the mask has blotted out. -/
theorem denied_words_of_accepted {sql : Text} (h : (checkWording sql).isValid = true) :
    ((∀ before word after, ¬ DeniedWord sql before word after) ↔
        ∀ before word after, DeniedWord sql before word after → ¬ MaskDrifts before after) ∧
      ∀ before word after, DeniedWord sql before word after →
        Text.slice (maskLiterals sql) before.length (before.length + word.length) =
          List.replicate word.length maskChar := by
  refine ⟨⟨fun hno before word after hword => absurd hword (hno before word after), ?_⟩, ?_⟩
  · intro hno before word after hword
    exact hno before word after hword (hword.drifts_of_accepted h)
  · intro before word after hword
    exact hword.mask_of_drifts (hword.drifts_of_accepted h)

/-- A second statement, and a denied word in it, behind an alias with an apostrophe. -/
theorem deniedWord_behind_apostrophe :
    DeniedWord "SELECT a AS \"it's\" FROM t; CALL wipe('x')".toList
      "SELECT a AS \"it's\" FROM t; ".toList "CALL".toList " wipe('x')".toList :=
  ⟨by decide, by decide, ⟨"CALL".toList, by decide, by decide⟩, by decide, by decide⟩

/-- The mask of that text shows nothing of the denied word. -/
theorem denied_word_blotted_out :
    (checkWording "SELECT a AS \"it's\" FROM t; CALL wipe('x')".toList).isValid = true ∧
      Text.slice (maskLiterals "SELECT a AS \"it's\" FROM t; CALL wipe('x')".toList) 27 31 =
        List.replicate 4 maskChar := by
  have h : (checkWording "SELECT a AS \"it's\" FROM t; CALL wipe('x')".toList).isValid = true := by
    decide +kernel
  exact ⟨h, (denied_words_of_accepted h).2 _ _ _ deniedWord_behind_apostrophe⟩

/-- The text is accepted, for all that a denied word stands in its rest. -/
theorem accepted_with_denied_word :
    (checkWording "SELECT a AS \"it's\" FROM t; CALL wipe('x')".toList).isValid = true ∧
      ∃ before word after,
        DeniedWord "SELECT a AS \"it's\" FROM t; CALL wipe('x')".toList before word after :=
  ⟨by decide +kernel, _, _, _, deniedWord_behind_apostrophe⟩

/-! ## Quoted identifiers without apostrophes -/

/-- An accepted text whose quoted identifiers hold no apostrophe has no denied word in its rest. -/
theorem not_deniedWord_of_accepted {sql before word after : Text}
    (h : (checkWording sql).isValid = true) (hq : quotedApostrophes sql = 0) :
    ¬ DeniedWord sql before word after := by
  intro hword
  have hdrift := hword.drifts_of_accepted h
  have hsum := quotedApostrophesFrom_append .rest before (word ++ after)
  rw [← hword.text_eq] at hsum
  have hsql : quotedApostrophesFrom .rest sql = 0 := hq
  have hbefore : quotedApostrophesFrom .rest before % 2 = 1 := hdrift.1
  omega

end QueryGate
