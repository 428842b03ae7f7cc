import Mathlib.Data.List.DropRight
import QueryGate.Bound
import QueryGate.Proofs.Sql.LiteralMask
import QueryGate.Proofs.Text.Parts

/-!
# Parts of a text and of its mask

Where a text is trimmed, and where a keyword is read at its beginning, no apostrophe is passed over.
So it makes no difference whether the text is masked before that or after it. The last semicolon of
a query is taken off the mask as it is taken off the query (`withoutSemicolon_maskLiterals`).
-/

namespace QueryGate

/-! ## Trimming -/

theorem isBlank_apostrophe : isBlank '\'' = false := by decide

theorem skipBlanks_maskLiterals (t : Text) :
    skipBlanks (maskLiterals t) = maskLiterals (skipBlanks t) := by
  obtain ⟨g, hg, ht⟩ := exists_blanks_append_skipBlanks t
  have hhead : (maskLiterals (skipBlanks t)).head?.any isBlank = false := by
    rw [head?_maskLiterals]
    exact head?_skipBlanks t
  conv =>
    lhs
    rw [ht, maskLiterals_prepend (not_mem_of_allBlank isBlank_apostrophe hg)]
  exact skipBlanks_append hg hhead

theorem allBlank_maskLiterals (t : Text) : allBlank (maskLiterals t) = allBlank t := by
  rw [Bool.eq_iff_iff, ← skipBlanks_eq_nil_iff, ← skipBlanks_eq_nil_iff, skipBlanks_maskLiterals,
    ← List.length_eq_zero_iff, length_maskLiterals, List.length_eq_zero_iff]

/-- What is dropped from the end of a text is dropped from the end of its mask, unless it may be an
apostrophe. -/
theorem rdropWhile_maskLiterals {p : Char → Bool} (hp : p '\'' = false) (t : Text) :
    (maskLiterals t).rdropWhile p = maskLiterals (t.rdropWhile p) := by
  -- From the end: what is dropped holds no apostrophe, so it has no part in the mask before it.
  induction t using List.reverseRecOn with
  | nil => rfl
  | append_singleton t c ih =>
    by_cases hc : p c = true
    · have hmem : '\'' ∉ [c] := by
        rw [List.mem_singleton]
        rintro rfl
        rw [hp] at hc
        cases hc
      rw [maskLiterals_append_of_not_mem t hmem, List.rdropWhile_concat_pos p t c hc,
        List.rdropWhile_concat_pos p _ c hc, ih]
    · rw [List.rdropWhile_concat_neg p t c hc, List.rdropWhile_eq_self_iff]
      intro hne
      have hlast := getLast?_maskLiterals (t ++ [c])
      rw [List.getLast?_eq_getLast_of_ne_nil hne, List.getLast?_concat] at hlast
      rwa [Option.some.inj hlast]

theorem trimEnd_maskLiterals (t : Text) : trimEnd (maskLiterals t) = maskLiterals (trimEnd t) :=
  rdropWhile_maskLiterals isBlank_apostrophe t

theorem trimEndOf_maskLiterals {d : Char} (hd : d ≠ '\'') (t : Text) :
    trimEndOf d (maskLiterals t) = maskLiterals (trimEndOf d t) :=
  rdropWhile_maskLiterals (p := (· == d)) (beq_false_of_ne hd.symm) t

theorem trim_maskLiterals (t : Text) : trim (maskLiterals t) = maskLiterals (trim t) := by
  rw [trim, skipBlanks_maskLiterals, trimEnd_maskLiterals, trim]

theorem dropLast_maskLiterals {t : Text} (ht : t.getLast? ≠ some '\'') :
    (maskLiterals t).dropLast = maskLiterals t.dropLast := by
  rcases List.eq_nil_or_concat' t with rfl | ⟨u, c, rfl⟩
  · rfl
  · have hmem : '\'' ∉ [c] := by simpa [eq_comm] using ht
    rw [maskLiterals_append_of_not_mem u hmem, List.dropLast_concat, List.dropLast_concat]

/-- The semicolon at the end of a query is no part of a literal. -/
theorem withoutSemicolon_maskLiterals (sql : Text) :
    withoutSemicolon (maskLiterals sql) =
      (maskLiterals (withoutSemicolon sql).1, (withoutSemicolon sql).2) := by
  simp only [withoutSemicolon, trim_maskLiterals, getLast?_maskLiterals]
  split
  · rename_i hlast
    rw [dropLast_maskLiterals (by rw [hlast]; decide), trimEnd_maskLiterals]
  · rfl

/-! ## Words at the beginning -/

/-- The beginning of a word is read from a text as it is from the mask. -/
theorem keyword?_maskLiterals {word : Text} (hword : ∀ c ∈ word, foldLetter c ≠ '\'') (t : Text) :
    keyword? word (maskLiterals t) = (keyword? word t).map maskLiterals := by
  induction word generalizing t with
  | nil => rfl
  | cons w word ih =>
    obtain ⟨hw, hword⟩ := List.forall_mem_cons.1 hword
    cases t with
    | nil => rfl
    | cons c t =>
      by_cases hc : c = '\''
      · subst hc
        have hne : (foldLetter w == foldLetter '\'') = false := beq_false_of_ne hw
        rw [maskLiterals_apostrophe, keyword?, keyword?, hne]
        rfl
      · rw [maskLiterals_cons hc, keyword?, keyword?, ih hword]
        split <;> rfl

theorem atWordEnd_maskLiterals (t : Text) : atWordEnd (maskLiterals t) = atWordEnd t := by
  rw [atWordEnd, head?_maskLiterals, atWordEnd]

theorem isSome_oneWord_maskLiterals {words : List Text}
    (hwords : ∀ word ∈ words, ∀ c ∈ word, foldLetter c ≠ '\'') (before t : Text) :
    (oneWord words before (maskLiterals t)).isSome = (oneWord words before t).isSome := by
  simp only [oneWord]
  split
  · rw [List.isSome_findSome?, List.isSome_findSome?, Bool.eq_iff_iff, List.any_eq_true,
      List.any_eq_true]
    refine exists_congr fun word => and_congr_right fun hword => ?_
    rw [keyword?_maskLiterals (hwords word hword)]
    cases keyword? word t with
    | none => exact Iff.rfl
    | some rest =>
      simp only [Option.map_some, atWordEnd_maskLiterals]
      split <;> simp only [Option.isSome_some, Option.isSome_none]
  · rfl

theorem isSelect_maskLiterals (sql : Text) : isSelect (maskLiterals sql) = isSelect sql := by
  rw [isSelect, skipBlanks_maskLiterals, keyword?_maskLiterals (by decide), isSelect]
  cases keyword? "SELECT" (skipBlanks sql) with
  | none => rfl
  | some rest => exact atWordEnd_maskLiterals rest

end QueryGate
