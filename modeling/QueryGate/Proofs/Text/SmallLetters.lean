import QueryGate.Proofs.Text.Ascii

/-!
# Small letters

The small letters of a text are their own small letters (`lower_lower`): the letters that a run of
capitals is mapped to are capitals of no run, and what the two letters with a rule of their own are
mapped to, the sigma at the end of a word and the dotted I, has no small letter either. So a name
and the form in which it is folded agree regardless of case.
-/

namespace QueryGate

/-! ## Runs of capitals -/

namespace CaseRun

/-- No small letter of the first run is a capital of the second: they lie apart, or every other
code point is a capital and the small letters lie in between. -/
def misses (r s : CaseRun) : Bool :=
  Nat.blt (r.small + (r.last - r.first)) s.first || Nat.blt s.last r.small ||
    (Nat.beq r.step 2 || Nat.beq r.first r.last) && Nat.beq s.step 2 &&
      Nat.beq ((r.small + s.first) % 2) 1

theorem has_iff {r : CaseRun} {n : Nat} :
    r.has n = true ↔ r.first ≤ n ∧ n ≤ r.last ∧ (n - r.first) % r.step = 0 := by
  simp [has, and_assoc]

theorem has_eq_false_of_misses {r s : CaseRun} (h : r.misses s = true) {n : Nat}
    (hn : r.has n = true) : s.has (n - r.first + r.small) = false := by
  obtain ⟨hfirst, hlast, hstep⟩ := has_iff.1 hn
  rw [Bool.eq_false_iff]
  intro hs
  obtain ⟨hsfirst, hslast, hsstep⟩ := has_iff.1 hs
  simp only [misses, Bool.or_eq_true, Bool.and_eq_true, Nat.blt_eq, Nat.beq_eq] at h
  obtain (hbelow | habove) | ⟨⟨hr, htwo⟩, hodd⟩ := h
  · omega
  · omega
  · rw [htwo] at hsstep
    obtain hr | hr := hr
    · rw [hr] at hstep
      omega
    · omega

/-- The small letters of a run are characters, and those in ASCII have no small letter. -/
def Sound (r : CaseRun) : Prop :=
  (r.small + (r.last - r.first) < 0xD800 ∨ 0xDFFF < r.small ∧
      r.small + (r.last - r.first) < 0x110000) ∧
    (128 ≤ r.small ∨ r.first = r.last ∧ smallLetter (Char.ofNat r.small) = Char.ofNat r.small)

instance (r : CaseRun) : Decidable r.Sound := inferInstanceAs (Decidable (_ ∧ _))

theorem toNat_small {r : CaseRun} (h : r.Sound) {n : Nat} (hn : r.has n = true) :
    (Char.ofNat (n - r.first + r.small)).toNat = n - r.first + r.small := by
  obtain ⟨hfirst, hlast, -⟩ := has_iff.1 hn
  obtain ⟨hvalid, -⟩ := h
  have hvalid : (n - r.first + r.small).isValidChar := by
    unfold Nat.isValidChar
    omega
  rw [Char.ofNat, dif_pos hvalid]
  rfl

end CaseRun

theorem misses_of_mem_caseRuns {r s : CaseRun} (hr : r ∈ caseRuns) (hs : s ∈ caseRuns) :
    r.misses s = true := by
  have hall : (caseRuns.all fun r => caseRuns.all r.misses) = true := by decide +kernel
  exact List.all_eq_true.1 (List.all_eq_true.1 hall r hr) s hs

theorem sound_of_mem_caseRuns : ∀ r ∈ caseRuns, r.Sound := by decide +kernel

/-! ## Letters -/

/-- A small letter has no other. -/
theorem smallLetter_smallLetter (c : Char) : smallLetter (smallLetter c) = smallLetter c := by
  by_cases hc : c.toNat < 128
  · have := forall_ascii (p := fun c => smallLetter (smallLetter c) == smallLetter c)
      (by decide) hc
    exact eq_of_beq this
  cases hfind : caseRuns.find? (·.has c.toNat) with
  | none =>
    have hself : smallLetter c = c := by rw [smallLetter, if_neg hc, hfind]
    rw [hself, hself]
  | some r =>
    have hmem := List.mem_of_find?_eq_some hfind
    have hhas : r.has c.toNat = true := by simpa using List.find?_some hfind
    have hsound := sound_of_mem_caseRuns r hmem
    have hnat := CaseRun.toNat_small hsound hhas
    have hletter : smallLetter c = Char.ofNat (c.toNat - r.first + r.small) := by
      rw [smallLetter, if_neg hc, hfind]
    obtain hlarge | ⟨hsingle, hsmall⟩ := hsound.2
    · have hnone : caseRuns.find? (·.has (c.toNat - r.first + r.small)) = none := by
        refine List.find?_eq_none.2 fun s hs => ?_
        rw [CaseRun.has_eq_false_of_misses (misses_of_mem_caseRuns hmem hs) hhas]
        exact Bool.false_ne_true
      rw [hletter, smallLetter, hnat, if_neg (by omega), hnone]
    · obtain ⟨hfirst, hlast, -⟩ := CaseRun.has_iff.1 hhas
      have hzero : c.toNat - r.first = 0 := by omega
      rw [hletter, hzero, Nat.zero_add, hsmall]

/-! ## Texts -/

theorem smallLetter_of_mem_lowerFrom {before t : Text} :
    ∀ c ∈ lowerFrom before t, smallLetter c = c := by
  induction t generalizing before with
  | nil => exact nofun
  | cons d t ih =>
    intro c hc
    rcases List.mem_append.1 hc with hc | hc
    · have hspecial : ∀ c ∈ ['ς', 'σ', 'i', '\u0307'], smallLetter c = c := by decide
      unfold lowerAt at hc
      split at hc
      · refine hspecial c ?_
        split at hc <;> simp [List.mem_singleton.1 hc]
      split at hc
      · refine hspecial c ?_
        simp only [List.mem_cons, List.not_mem_nil, or_false] at hc
        rcases hc with rfl | rfl <;> simp
      · rw [List.mem_singleton.1 hc, smallLetter_smallLetter]
    · exact ih c hc

theorem lowerFrom_of_small {before t : Text} (h : ∀ c ∈ t, smallLetter c = c) :
    lowerFrom before t = t := by
  induction t generalizing before with
  | nil => rfl
  | cons c t ih =>
    have hc := h c List.mem_cons_self
    have hcapitals : smallLetter 'Σ' ≠ 'Σ' ∧ smallLetter 'İ' ≠ 'İ' := by decide
    have hsigma : c ≠ 'Σ' := by
      rintro rfl
      exact hcapitals.1 hc
    have hdot : c ≠ 'İ' := by
      rintro rfl
      exact hcapitals.2 hc
    rw [lowerFrom, ih fun d hd => h d (List.mem_cons_of_mem c hd)]
    simp [lowerAt, hsigma, hdot, hc]

theorem lower_lower (t : Text) : lower (lower t) = lower t :=
  lowerFrom_of_small smallLetter_of_mem_lowerFrom

theorem lower_eq_nil_iff {t : Text} : lower t = [] ↔ t = [] := by
  cases t with
  | nil => exact iff_of_true rfl rfl
  | cons c t =>
    refine iff_of_false (fun h => ?_) (List.cons_ne_nil c t)
    have hhead : lowerAt [] c t = [] := (List.append_eq_nil_iff.1 h).1
    unfold lowerAt at hhead
    split at hhead
    · split at hhead <;> cases hhead
    · split at hhead <;> cases hhead

/-! ## Names that are not quoted -/

theorem ascii_of_isPlainNameChar {c : Char} (h : isPlainNameChar c = true) : c.toNat < 128 := by
  simp only [isPlainNameChar, Bool.or_eq_true, beq_iff_eq] at h
  rcases h with (hlower | hdigit) | rfl
  · by_contra hc
    rw [isLower_eq_false_of_ascii_lt (Nat.le_of_not_lt hc)] at hlower
    cases hlower
  · exact ascii_of_isDigit hdigit
  · decide

theorem isPlainNameChar_of_not_needsQuotes {name : Text} (h : needsQuotes name = false) :
    ∀ c ∈ name, isPlainNameChar c = true := by
  unfold needsQuotes at h
  simpa using (Bool.or_eq_false_iff.1 h).1

/-- A name that need not be quoted is folded to itself. -/
theorem lower_of_not_needsQuotes {name : Text} (h : needsQuotes name = false) :
    lower name = name := by
  refine lowerFrom_of_small fun c hc => ?_
  have hplain := isPlainNameChar_of_not_needsQuotes h c hc
  have := forall_ascii (p := fun c => !isPlainNameChar c || smallLetter c == c) (by decide)
    (ascii_of_isPlainNameChar hplain)
  simpa [hplain] using this

theorem isWordChar_of_isPlainNameChar {c : Char} (h : isPlainNameChar c = true) :
    isWordChar c = true := by
  have := forall_ascii (p := fun c => !isPlainNameChar c || isWordChar c) (by decide)
    (ascii_of_isPlainNameChar h)
  simpa [h] using this

theorem isNameStart_of_isPlainNameChar {c : Char} (h : isPlainNameChar c = true)
    (hdigit : c.isDigit = false) : isNameStart c = true := by
  have := forall_ascii (p := fun c => !isPlainNameChar c || c.isDigit || isNameStart c)
    (by decide) (ascii_of_isPlainNameChar h)
  simpa [h, hdigit] using this

end QueryGate
