import Mathlib.Data.List.TakeWhile
import QueryGate.Sql.Identifier
import QueryGate.Text.Digit
import QueryGate.Text.Keyword

/-!
# Classes of characters

Which classes of characters overlap. Below 128 a fact about all characters is checked character by
character (`forall_ascii`); above it the tables of ranges decide (`has_eq_false_of_disjoint`), and
no character beyond ASCII has an ASCII case. A letter that is read as part of a keyword is a word
character (`isWordChar_of_isLower_foldLetter`), and no blank is one.
-/

namespace QueryGate

/-! ## The characters of a text -/

/-- A property of all characters of a text, or of some, is decided by the text, not by running
through all characters that there are. -/
instance decidableForallMemText (t : Text) (p : Char → Prop) [DecidablePred p] :
    Decidable (∀ c ∈ t, p c) := List.decidableBAll p t

instance decidableExistsMemText (t : Text) (p : Char → Prop) [DecidablePred p] :
    Decidable (∃ c ∈ t, p c) := List.decidableBEx p t

/-! ## ASCII -/

/-- A property that the first 128 characters have, one by one, all ASCII characters have. -/
theorem forall_ascii {p : Char → Bool} (h : (List.range 128).all (fun n => p (Char.ofNat n)) = true)
    {c : Char} (hc : c.toNat < 128) : p c = true := by
  have hn := List.all_eq_true.1 h c.toNat (List.mem_range.2 hc)
  rwa [Char.ofNat_toNat] at hn

theorem isUpper_eq_false_of_ascii_lt {c : Char} (hc : 128 ≤ c.toNat) : c.isUpper = false := by
  have hv : 128 ≤ c.val.toNat := hc
  have hZ : ('Z'.val).toNat = 90 := rfl
  refine decide_eq_false ?_
  simp only [ge_iff_le, UInt32.le_iff_toNat_le]
  omega

theorem isLower_eq_false_of_ascii_lt {c : Char} (hc : 128 ≤ c.toNat) : c.isLower = false := by
  have hv : 128 ≤ c.val.toNat := hc
  have hz : ('z'.val).toNat = 122 := rfl
  refine Bool.and_eq_false_iff.2 (.inr (decide_eq_false ?_))
  rw [UInt32.le_iff_toNat_le]
  omega

theorem toLower_eq_self_of_ascii_lt {c : Char} (hc : 128 ≤ c.toNat) : c.toLower = c := by
  have hv : 128 ≤ c.val.toNat := hc
  have hZ : ('Z'.val).toNat = 90 := rfl
  unfold Char.toLower
  rw [dif_neg]
  simp only [ge_iff_le, UInt32.le_iff_toNat_le]
  omega

/-! ## Letters read regardless of case -/

/-- A character is ASCII, one of the four that count as another letter, or its own. -/
theorem foldLetter_cases (c : Char) :
    c.toNat < 128 ∨ c ∈ ['ſ', '\u212A', 'İ', 'ı'] ∨ 128 ≤ c.toNat ∧ foldLetter c = c := by
  by_cases hc : c.toNat < 128
  · exact .inl hc
  by_cases hmem : c ∈ ['ſ', '\u212A', 'İ', 'ı']
  · exact .inr (.inl hmem)
  have hge : 128 ≤ c.toNat := Nat.le_of_not_lt hc
  simp only [List.mem_cons, List.not_mem_nil, or_false, not_or] at hmem
  obtain ⟨hs, hk, hI, hi⟩ := hmem
  exact .inr (.inr ⟨hge, by simp [foldLetter, hs, hk, hI, hi, toLower_eq_self_of_ascii_lt hge]⟩)

/-- What is read as a letter of a keyword is in ASCII, or it is one of four others. -/
theorem ascii_or_mem_of_isLower_foldLetter {c : Char} (h : (foldLetter c).isLower = true) :
    c.toNat < 128 ∨ c ∈ ['ſ', '\u212A', 'İ', 'ı'] := by
  rcases foldLetter_cases c with hc | hc | ⟨hc, hself⟩
  · exact .inl hc
  · exact .inr hc
  · rw [hself, isLower_eq_false_of_ascii_lt hc] at h
    cases h

/-- A character that is read as a letter of a keyword is a word character. -/
theorem isWordChar_of_isLower_foldLetter {c : Char} (h : (foldLetter c).isLower = true) :
    isWordChar c = true := by
  rcases ascii_or_mem_of_isLower_foldLetter h with hc | hc
  · have := forall_ascii (p := fun c => !(foldLetter c).isLower || isWordChar c)
      (by decide) hc
    simpa [h] using this
  · have hall : ∀ c ∈ ['ſ', '\u212A', 'İ', 'ı'], isWordChar c = true := by decide +kernel
    exact hall c hc

theorem isDecimalDigit_eq_false_of_isLower_foldLetter {c : Char}
    (h : (foldLetter c).isLower = true) : isDecimalDigit c = false := by
  rcases ascii_or_mem_of_isLower_foldLetter h with hc | hc
  · have := forall_ascii (p := fun c => !(foldLetter c).isLower || !isDecimalDigit c)
      (by decide) hc
    simpa [h] using this
  · have hall : ∀ c ∈ ['ſ', '\u212A', 'İ', 'ı'], isDecimalDigit c = false := by decide
    exact hall c hc

/-- A letter that no character beyond ASCII counts as. -/
theorem ascii_of_foldLetter {c x : Char} (h : foldLetter c = x) (hx : x.toNat < 128)
    (hmem : x ∉ ['s', 'k', 'i']) : c.toNat < 128 := by
  rcases foldLetter_cases c with hc | hc | ⟨hc, hself⟩
  · exact hc
  · have hall : ∀ c ∈ ['ſ', '\u212A', 'İ', 'ı'], foldLetter c ∈ ['s', 'k', 'i'] := by decide
    exact absurd (h ▸ hall c hc) hmem
  · rw [hself] at h
    subst h
    exact absurd hx (Nat.not_lt.2 hc)

/-- The capital of such a letter, as it is read in a keyword. -/
theorem capitalLetter_of_foldLetter {c x : Char} (h : foldLetter c = x) (hx : x.toNat < 128)
    (hmem : x ∉ ['s', 'k', 'i']) : capitalLetter c = capitalLetter x := by
  have := forall_ascii (p := fun c => capitalLetter c == capitalLetter (foldLetter c))
    (by decide) (ascii_of_foldLetter h hx hmem)
  rw [h] at this
  exact eq_of_beq this

/-! ## Characters that begin names -/

theorem ascii_of_isNameStart {c : Char} (h : isNameStart c = true) : c.toNat < 128 := by
  by_contra hc
  have hge : 128 ≤ c.toNat := Nat.le_of_not_lt hc
  have halpha : c.isAlpha = false :=
    Bool.or_eq_false_iff.2 ⟨isUpper_eq_false_of_ascii_lt hge, isLower_eq_false_of_ascii_lt hge⟩
  rw [isNameStart, halpha] at h
  obtain rfl : c = '_' := by simpa using h
  exact absurd hge (by decide)

theorem ascii_of_isDigit {c : Char} (h : c.isDigit = true) : c.toNat < 128 := by
  have h9 : ('9'.val).toNat = 57 := rfl
  simp only [Char.isDigit, Bool.and_eq_true, decide_eq_true_eq, ge_iff_le, UInt32.le_iff_toNat_le,
    h9] at h
  exact Nat.lt_of_le_of_lt h.2 (by decide)

theorem isWordChar_of_isDigit {c : Char} (h : c.isDigit = true) : isWordChar c = true := by
  rw [isWordChar_ascii (ascii_of_isDigit h), Char.isAlphanum, h, Bool.or_true, Bool.true_or]

theorem isWordChar_of_isFoldedNameStart {c : Char} (h : isFoldedNameStart c = true) :
    isWordChar c = true := by
  rcases foldLetter_cases c with hc | hc | ⟨hc, hself⟩
  · have := forall_ascii (p := fun c => !isFoldedNameStart c || isWordChar c)
      (by decide) hc
    simpa [h] using this
  · have hall : ∀ c ∈ ['ſ', '\u212A', 'İ', 'ı'], isWordChar c = true := by decide +kernel
    exact hall c hc
  · rw [isFoldedNameStart, hself] at h
    exact absurd (ascii_of_isNameStart h) (Nat.not_lt.2 hc)

theorem isFoldedNameStart_of_isNameStart {c : Char} (h : isNameStart c = true) :
    isFoldedNameStart c = true := by
  have := forall_ascii (p := fun c => !isNameStart c || isFoldedNameStart c) (by decide)
    (ascii_of_isNameStart h)
  simpa [h] using this

/-! ## Blanks and word characters -/

namespace CharRanges

theorem has_eq_true_iff {ranges : CharRanges} {c : Char} :
    ranges.has c = true ↔ ∃ r ∈ ranges, r.1 ≤ c.toNat ∧ c.toNat ≤ r.2 := by
  simp [has]

/-- Whether two tables share no code point. -/
def disjoint (rs ss : CharRanges) : Bool :=
  rs.all fun r => ss.all fun s => Nat.blt r.2 s.1 || Nat.blt s.2 r.1

/-- No character lies in two tables that share no code point. -/
theorem has_eq_false_of_disjoint {rs ss : CharRanges} {c : Char} (hd : rs.disjoint ss = true)
    (h : rs.has c = true) : ss.has c = false := by
  obtain ⟨r, hr, hrc⟩ := has_eq_true_iff.1 h
  rw [Bool.eq_false_iff]
  intro hs
  obtain ⟨s, hs, hsc⟩ := has_eq_true_iff.1 hs
  have hapart := List.all_eq_true.1 (List.all_eq_true.1 hd r hr) s hs
  simp only [Bool.or_eq_true, Nat.blt_eq] at hapart
  omega

end CharRanges

theorem isWordChar_eq_false_of_isBlank {c : Char} (h : isBlank c = true) :
    isWordChar c = false := by
  by_cases hc : c.toNat < 128
  · have := forall_ascii (p := fun c => !isBlank c || !isWordChar c) (by decide) hc
    simpa [h] using this
  · rw [isWordChar, if_neg hc]
    have hdisjoint : blankRanges.disjoint wordRanges = true := by decide +kernel
    exact CharRanges.has_eq_false_of_disjoint hdisjoint h

theorem isBlank_eq_false_of_isWordChar {c : Char} (h : isWordChar c = true) :
    isBlank c = false := by
  cases hb : isBlank c
  · rfl
  · rw [isWordChar_eq_false_of_isBlank hb] at h
    cases h

theorem isDecimalDigit_eq_false_of_isBlank {c : Char} (h : isBlank c = true) :
    isDecimalDigit c = false := by
  by_cases hc : c.toNat < 128
  · have := forall_ascii (p := fun c => !isBlank c || !isDecimalDigit c) (by decide) hc
    simpa [h] using this
  · obtain ⟨r, hr, hrc⟩ := CharRanges.has_eq_true_iff.1 h
    have hd : ∀ r ∈ blankRanges, ∀ z ∈ zeroDigits, r.2 < z ∨ z + 10 ≤ r.1 := by decide
    rw [isDecimalDigit, digitValue?, if_neg hc, Option.isSome_map, Bool.eq_false_iff, ne_eq,
      List.find?_isSome]
    simp only [Bool.and_eq_true, decide_eq_true_eq, not_exists, not_and]
    intro z hz hzc
    have := hd r hr z hz
    omega

theorem isBlank_eq_false_of_isDecimalDigit {c : Char} (h : isDecimalDigit c = true) :
    isBlank c = false := by
  cases hb : isBlank c
  · rfl
  · rw [isDecimalDigit_eq_false_of_isBlank hb] at h
    cases h

end QueryGate
