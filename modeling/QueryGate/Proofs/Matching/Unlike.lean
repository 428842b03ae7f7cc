import QueryGate.Proofs.Matching.ScoreBands

/-!
# Names that are taken for nothing

A name is taken for no known one exactly if it is empty or each known name is unlike it
(`matchName_eq_none_iff`). The strategies ask about one known name at a time, so that whether all of
them fail is a question about each known name alone (`Matching.Unlike`), while which name they take
depends on the order.
-/

namespace QueryGate

namespace Matching

/-- A name contains the candidate or is contained in it, and is similar enough. -/
structure PartOf (candidate name : Text) : Prop where
  form : normalForm candidate ≠ []
  otherForm : normalForm name ≠ []
  contains : Text.hasPart (normalForm candidate) (normalForm name) = true ∨
    Text.hasPart (normalForm name) (normalForm candidate) = true
  similar : Score.partThreshold < similarity candidate name

/-- No strategy takes a known name for the candidate. -/
structure Unlike (candidate context name : Text) : Prop where
  notIdentical : ¬ Identical candidate name
  notPlural : isPluralPair candidate name = false
  notPart : ¬ PartOf candidate name
  notSynonym : normalForm name ∉ synonyms candidate
  notSimilar : rating candidate context name < Score.threshold

section Unlike

variable {candidate context : Text} {known : List Text}

theorem part?_eq_none_iff :
    part? candidate known = none ↔ ∀ n ∈ known, ¬ PartOf candidate n := by
  unfold part?
  simp only
  split
  · rename_i hempty
    exact iff_of_true rfl fun n _ hpart => hpart.form (List.isEmpty_iff.1 hempty)
  rename_i hform
  rw [List.findSome?_eq_none_iff]
  refine forall₂_congr fun n _ => ?_
  split
  · rename_i hskip
    refine iff_of_true rfl fun hpart => ?_
    simp only [Bool.or_eq_true, List.isEmpty_iff, Bool.not_eq_true', Bool.or_eq_false_iff] at hskip
    rcases hskip with hnil | ⟨hno, hno'⟩
    · exact hpart.otherForm hnil
    · rcases hpart.contains with h | h
      · rw [hno] at h
        cases h
      · rw [hno'] at h
        cases h
  rename_i hskip
  simp only [Bool.or_eq_true, List.isEmpty_iff, Bool.not_eq_true', Bool.or_eq_false_iff,
    not_or, not_and_or, Bool.not_eq_false] at hskip
  split
  · rename_i hsimilar
    exact iff_of_false nofun fun hno =>
      hno ⟨fun hnil => hform (List.isEmpty_iff.2 hnil), hskip.1, hskip.2, hsimilar⟩
  · rename_i hsimilar
    exact iff_of_true rfl fun hpart => hsimilar hpart.similar

/-- The best rating stays below a bound exactly if all ratings do. -/
theorem bestFrom_lt_iff {best : Option (Text × Score)} {bound : Score} (hbound : 0 < bound) :
    (∀ b ∈ bestFrom candidate context best known, b.2 < bound) ↔
      (∀ b ∈ best, b.2 < bound) ∧ ∀ n ∈ known, rating candidate context n < bound := by
  induction known generalizing best with
  | nil => exact ⟨fun h => ⟨h, nofun⟩, fun h => h.1⟩
  | cons n known ih =>
    rw [bestFrom, ih, List.forall_mem_cons, ← and_assoc]
    refine and_congr_left fun _ => ?_
    cases best with
    | none =>
      simp only [Option.map_none, Option.getD_none, Option.mem_def, reduceCtorEq, false_implies,
        implies_true, true_and]
      split
      · simp
      · rename_i hle
        exact iff_of_true nofun ((not_lt.1 hle).trans_lt hbound)
    | some b =>
      simp only [Option.map_some, Option.getD_some, Option.mem_def, Option.some.injEq]
      split
      · rename_i hlt
        simp only [Option.some.injEq, forall_eq']
        exact ⟨fun h => ⟨hlt.trans h, h⟩, fun h => h.2⟩
      · rename_i hle
        simp only [Option.some.injEq, forall_eq']
        exact ⟨fun h => ⟨h, (not_lt.1 hle).trans_lt h⟩, fun h => h.1⟩

theorem threshold_pos : 0 < Score.threshold := by decide

theorem similar?_eq_none_iff :
    similar? candidate known context = none ↔
      ∀ n ∈ known, rating candidate (lower context) n < Score.threshold := by
  have hbest := @bestFrom_lt_iff candidate (lower context) known none _ threshold_pos
  simp only [Option.mem_def, reduceCtorEq, false_implies, implies_true, true_and] at hbest
  rw [← hbest]
  unfold similar?
  split
  · rename_i n s hsome
    rw [hsome]
    split
    · rename_i hle
      exact iff_of_false nofun fun h => absurd (h _ rfl) (not_lt.2 hle)
    · rename_i hlt
      refine iff_of_true rfl ?_
      rintro _ ⟨⟩
      exact not_le.1 hlt
  · rename_i hnone
    rw [hnone]
    exact iff_of_true rfl nofun

end Unlike

end Matching

open Matching in
/-- A name is taken for no known one exactly if it is empty or unlike all of them. -/
theorem matchName_eq_none_iff {candidate context : Text} {known : List Text} :
    matchName candidate known context = none ↔
      candidate = [] ∨ ∀ n ∈ known, Unlike candidate (lower context) n := by
  unfold matchName
  split
  · rename_i hnil
    exact iff_of_true rfl (.inl (List.isEmpty_iff.1 hnil))
  rename_i hne
  have hidentical : identical? candidate known = none ↔ ∀ n ∈ known, ¬ Identical candidate n := by
    rw [← Option.not_isSome_iff_eq_none, identical?_isSome_iff]
    simp
  have hplural : plural? candidate known = none ↔ ∀ n ∈ known, isPluralPair candidate n = false := by
    simp [plural?]
  have hsynonym : synonym? candidate known = none ↔
      ∀ n ∈ known, normalForm n ∉ synonyms candidate := by
    simp [synonym?]
  simp only [Option.orElse_eq_orElse, Option.orElse_eq_or, Option.or_eq_none_iff, hidentical,
    hplural, part?_eq_none_iff, hsynonym, similar?_eq_none_iff]
  rw [or_iff_right fun hnil => hne (List.isEmpty_iff.2 hnil)]
  constructor
  · rintro ⟨hidentical, hplural, hpart, hsynonym, hsimilar⟩ n hn
    exact ⟨hidentical n hn, hplural n hn, hpart n hn, hsynonym n hn, hsimilar n hn⟩
  · intro h
    exact ⟨fun n hn => (h n hn).notIdentical, fun n hn => (h n hn).notPlural,
      fun n hn => (h n hn).notPart, fun n hn => (h n hn).notSynonym,
      fun n hn => (h n hn).notSimilar⟩

/-- A name is taken for no known name but itself exactly if it is one of them or is taken for none. -/
theorem forall_matchName_iff {candidate context : Text} {known : List Text} (hne : candidate ≠ []) :
    (∀ m, matchName candidate known context = some m → m.name = candidate) ↔
      candidate ∈ known ∨ ∀ n ∈ known, Matching.Unlike candidate (lower context) n := by
  constructor
  · intro h
    cases hmatch : matchName candidate known context with
    | none => exact .inr ((matchName_eq_none_iff.1 hmatch).resolve_left hne)
    | some m => exact .inl (h m hmatch ▸ mem_of_matchName hmatch)
  · rintro (hmem | hunlike) m hm
    · rw [matchName_of_mem hne hmem] at hm
      exact (congrArg NameMatch.name (Option.some.inj hm)).symm
    · rw [matchName_eq_none_iff.2 (.inr hunlike)] at hm
      cases hm

end QueryGate
