import QueryGate.Matching.Match
import QueryGate.Proofs.Number.Order
import QueryGate.Proofs.Text.SmallLetters

/-!
# What a match is

A name is only taken for a known one, and for one of the five reasons that there are, each with a
score of its own (`matchName_foundBy`). None of the reasons holds of the empty name, which shares no
letter with any other (`ne_nil_of_matchName`).
-/

namespace QueryGate

namespace Matching

/-! ## Reasons for a match -/

/-- A name is the candidate itself, or has its small letters, or its normal form unless that is
empty. -/
def Identical (candidate name : Text) : Prop :=
  name = candidate ∨ lower name = lower candidate ∨
    normalForm candidate ≠ [] ∧ normalForm name = normalForm candidate

/-- Why a strategy takes a known name for a candidate. -/
def Reason (candidate context name : Text) : Strategy → Prop
  | .exact => Identical candidate name
  | .plural => isPluralPair candidate name = true
  | .part => normalForm name ≠ [] ∧ Score.partThreshold < similarity candidate name
  | .synonym => normalForm name ∈ synonyms candidate
  | .similar => Score.threshold ≤ rating candidate context name

/-- What a match of a strategy is worth. -/
def worth (candidate context name : Text) : Strategy → Score
  | .exact => Score.exact
  | .plural => Score.plural
  | .part => Score.part
  | .synonym => Score.synonym
  | .similar => (rating candidate context name).toPlaces

/-- A match is what a strategy finds among known names. -/
structure FoundBy (s : Strategy) (candidate : Text) (known : List Text) (context : Text)
    (m : NameMatch) : Prop where
  strategy : m.strategy = s
  mem : m.name ∈ known
  reason : Reason candidate context m.name s
  score : m.score = worth candidate context m.name s

section Searches

variable {candidate context : Text} {known : List Text} {m : NameMatch}

theorem foundBy_of_identical? (context : Text) (h : identical? candidate known = some m) :
    FoundBy .exact candidate known context m := by
  unfold identical? at h
  simp only at h
  obtain ⟨n, hn, rfl⟩ := Option.map_eq_some_iff.1 h
  split at hn
  · rename_i hmem
    obtain rfl := Option.some.inj hn
    exact ⟨rfl, List.contains_iff_mem.1 hmem, .inl rfl, rfl⟩
  · have hsame := List.find?_some hn
    simp only [Bool.or_eq_true, Bool.and_eq_true, beq_iff_eq, Bool.not_eq_true',
      List.isEmpty_eq_false_iff] at hsame
    exact ⟨rfl, List.mem_of_find?_eq_some hn, .inr hsame, rfl⟩

theorem foundBy_of_plural? (context : Text) (h : plural? candidate known = some m) :
    FoundBy .plural candidate known context m := by
  obtain ⟨n, hn, rfl⟩ := Option.map_eq_some_iff.1 h
  exact ⟨rfl, List.mem_of_find?_eq_some hn, List.find?_some hn, rfl⟩

theorem foundBy_of_part? (context : Text) (h : part? candidate known = some m) :
    FoundBy .part candidate known context m := by
  unfold part? at h
  simp only at h
  split at h
  · cases h
  obtain ⟨n, hn, hsome⟩ := List.exists_of_findSome?_eq_some h
  split at hsome
  · cases hsome
  rename_i hform
  split at hsome
  · rename_i hsimilar
    obtain rfl := Option.some.inj hsome
    simp only [Bool.or_eq_true, not_or, List.isEmpty_iff] at hform
    exact ⟨rfl, hn, ⟨hform.1, hsimilar⟩, rfl⟩
  · cases hsome

theorem foundBy_of_synonym? (context : Text) (h : synonym? candidate known = some m) :
    FoundBy .synonym candidate known context m := by
  obtain ⟨n, hn, rfl⟩ := Option.map_eq_some_iff.1 h
  have hgroup := List.find?_some hn
  exact ⟨rfl, List.mem_of_find?_eq_some hn, List.contains_iff_mem.1 hgroup, rfl⟩

/-- The best name is one of the list at its rating, or else the best before it. -/
theorem bestFrom_eq_some {n : Text} {s : Score} {best : Option (Text × Score)}
    (h : bestFrom candidate context best known = some (n, s)) :
    n ∈ known ∧ s = rating candidate context n ∨ best = some (n, s) := by
  induction known generalizing best with
  | nil => exact .inr h
  | cons m known ih =>
    rcases ih h with ⟨hmem, hs⟩ | hbest
    · exact .inl ⟨List.mem_cons_of_mem m hmem, hs⟩
    · split at hbest
      · obtain ⟨rfl, rfl⟩ := Prod.mk.inj (Option.some.inj hbest)
        exact .inl ⟨List.mem_cons_self, rfl⟩
      · exact .inr hbest

theorem foundBy_of_similar? (h : similar? candidate known context = some m) :
    FoundBy .similar candidate known (lower context) m := by
  unfold similar? at h
  split at h
  · rename_i n s hbest
    split at h
    · rename_i hthreshold
      obtain rfl := Option.some.inj h
      obtain ⟨hmem, rfl⟩ := (bestFrom_eq_some hbest).resolve_right nofun
      exact ⟨rfl, hmem, hthreshold, rfl⟩
    · cases h
  · cases h

end Searches

end Matching

section Found

open Matching

variable {candidate context : Text} {known : List Text} {m : NameMatch}

/-- A match is what its strategy finds, for a candidate that is not empty. -/
theorem matchName_foundBy (h : matchName candidate known context = some m) :
    candidate ≠ [] ∧ FoundBy m.strategy candidate known (lower context) m := by
  unfold matchName at h
  split at h
  · cases h
  rename_i hne
  refine ⟨fun hnil => hne (List.isEmpty_iff.2 hnil), ?_⟩
  have hown {s : Strategy} (hfound : FoundBy s candidate known (lower context) m) :
      FoundBy m.strategy candidate known (lower context) m := hfound.strategy ▸ hfound
  simp only [Option.orElse_eq_orElse, Option.orElse_eq_or, Option.or_eq_some_iff] at h
  rcases h with h | ⟨-, h | ⟨-, h | ⟨-, h | ⟨-, h⟩⟩⟩⟩
  · exact hown (foundBy_of_identical? (lower context) h)
  · exact hown (foundBy_of_plural? (lower context) h)
  · exact hown (foundBy_of_part? (lower context) h)
  · exact hown (foundBy_of_synonym? (lower context) h)
  · exact hown (foundBy_of_similar? h)

theorem mem_of_matchName (h : matchName candidate known context = some m) : m.name ∈ known :=
  (matchName_foundBy h).2.mem

/-! ## The empty name -/

theorem length_lower_bounds (t : Text) :
    t.length ≤ (lower t).length ∧ (lower t).length ≤ 2 * t.length := by
  have hall (before t : Text) : t.length ≤ (lowerFrom before t).length ∧
      (lowerFrom before t).length ≤ 2 * t.length := by
    induction t generalizing before with
    | nil => exact ⟨Nat.le_refl 0, Nat.le_refl 0⟩
    | cons c t ih =>
      have hone : 1 ≤ (lowerAt before c t).length ∧ (lowerAt before c t).length ≤ 2 := by
        unfold lowerAt
        split
        · split <;> decide
        · split
          · decide
          · exact ⟨Nat.le_refl 1, Nat.le_succ 1⟩
      have := ih (c :: before)
      rw [lowerFrom, List.length_append, List.length_cons]
      omega
  exact hall [] t

theorem similarity_nil_right (h : candidate ≠ []) : similarity candidate [] ≤ 0 := by
  have hpos := List.length_pos_iff.2 h
  obtain ⟨hle, hle'⟩ := length_lower_bounds candidate
  have hlength : (0 : Rat) < candidate.length := by exact_mod_cast hpos
  have hshare : (1 : Rat) ≤ mkRat (lower candidate).length candidate.length := by
    rw [Rat.mkRat_eq_div, le_div_iff₀ (by exact_mod_cast hlength), one_mul]
    exact_mod_cast hle
  have hshare' : mkRat (lower candidate).length candidate.length ≤ (2 : Rat) := by
    rw [Rat.mkRat_eq_div, div_le_iff₀ (by exact_mod_cast hlength)]
    exact_mod_cast hle'
  have hround : 1 ≤ Binary64.round (mkRat (lower candidate).length candidate.length) :=
    calc (1 : Rat) = Binary64.round 1 := by decide
      _ ≤ _ := Binary64.round_mono hshare (zero_le_one.trans hshare)
        (hshare'.trans_lt Binary64.two_lt_overflow)
  unfold similarity
  simp only [List.length_nil, Nat.max_zero, if_neg (Nat.ne_of_gt hpos)]
  refine Binary64.round_nonpos ?_
  have hlower : lower ([] : Text) = [] := rfl
  rw [hlower, editDistance_nil_right]
  linarith

/-- The empty name is rated below what is similar enough, mentioned or not. -/
theorem rating_nil_lt (h : candidate ≠ []) : rating candidate context [] < Score.threshold := by
  have hbonus : Binary64.round Score.mentionBonus < Score.threshold := by decide
  have hpositive : 0 ≤ Score.mentionBonus := by decide
  have hsmall : Score.mentionBonus ≤ 2 := by decide
  have hsimilarity := similarity_nil_right h
  refine lt_of_le_of_lt (min_le_left _ _) ?_
  split
  · refine lt_of_le_of_lt ?_ hbonus
    refine Binary64.round_mono ?_ hpositive (hsmall.trans_lt Binary64.two_lt_overflow)
    linarith
  · exact hsimilarity.trans_lt (by decide)

theorem ne_nil_of_mem_synonyms {name w : Text} (h : w ∈ synonyms name) : w ≠ [] := by
  have hgroups : ∀ g ∈ synonymGroups, ∀ w ∈ g, w ≠ [] := by decide
  obtain ⟨g, hg, hw⟩ := List.mem_flatten.1 h
  exact hgroups g (List.mem_filter.1 hg).1 w hw

/-- No name is taken for the empty one. -/
theorem ne_nil_of_matchName (h : matchName candidate known context = some m) : m.name ≠ [] := by
  intro hnil
  obtain ⟨hne, hfound⟩ := matchName_foundBy h
  have hreason := hfound.reason
  rw [hnil] at hreason
  cases hs : m.strategy with
  | exact =>
    rw [hs] at hreason
    obtain hself | hletters | ⟨hform, hforms⟩ := hreason
    · exact hne hself.symm
    · exact hne (lower_eq_nil_iff.1 hletters.symm)
    · exact hform hforms.symm
  | plural =>
    rw [hs] at hreason
    simp only [Reason, isPluralPair, Bool.and_eq_true, Bool.not_eq_true',
      List.isEmpty_eq_false_iff] at hreason
    exact hreason.1.1.2 rfl
  | part =>
    rw [hs] at hreason
    exact hreason.1 rfl
  | synonym =>
    rw [hs] at hreason
    exact ne_nil_of_mem_synonyms hreason rfl
  | similar =>
    rw [hs] at hreason
    exact absurd hreason (not_le.2 (rating_nil_lt hne))

end Found

/-! ## Known names -/

theorem identical?_of_mem {candidate : Text} {known : List Text} (h : candidate ∈ known) :
    Matching.identical? candidate known = some ⟨candidate, .exact, Score.exact, none⟩ := by
  unfold Matching.identical?
  simp only [List.contains_iff_mem.2 h, if_true, Option.map_some]

theorem matchName_of_identical? {candidate context : Text} {known : List Text} {m : NameMatch}
    (hne : candidate ≠ []) (h : Matching.identical? candidate known = some m) :
    matchName candidate known context = some m := by
  unfold matchName
  rw [if_neg (by simpa using hne), h]
  rfl

/-- A name that is known is taken for itself. -/
theorem matchName_of_mem {candidate context : Text} {known : List Text} (hne : candidate ≠ [])
    (h : candidate ∈ known) :
    matchName candidate known context = some ⟨candidate, .exact, Score.exact, none⟩ :=
  matchName_of_identical? hne (identical?_of_mem h)

end QueryGate
