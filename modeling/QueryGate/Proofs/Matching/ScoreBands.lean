import QueryGate.Proofs.Matching.Matches

/-!
# The scores of matches

The score of a match tells how it was found: it is one exactly if the name is the candidate's, in
other letters at most, and a name that was found in any other way scores between 0.6 and 0.99
(`matchName_score_bands`). The similarity of two names may lie outside of these bounds, since a name
may have more small letters than letters; the ratings that count do not, and writing a score with
four places keeps the order of scores (`Score.toPlaces_mono`).
-/

namespace QueryGate

namespace Score

/-- Four places keep the order of scores. -/
theorem toPlaces_mono {s t : Score} (hs : 0 ≤ s) (h : s ≤ t) (ht : t ≤ 1) :
    s.toPlaces ≤ t.toPlaces := by
  have hnum {x : Score} (hx : 0 ≤ x) : (x.num.toNat : Int) = x.num :=
    Int.toNat_of_nonneg (Rat.num_nonneg.2 hx)
  have hcross : s.num.toNat * t.den ≤ t.num.toNat * s.den := by
    have := (Rat.le_iff s t).1 h
    rw [← hnum hs, ← hnum (hs.trans h)] at this
    exact_mod_cast this
  have hunits : roundDiv (s.num.toNat * 10000) s.den ≤ roundDiv (t.num.toNat * 10000) t.den := by
    refine roundDiv_mono s.den_pos t.den_pos ?_
    rw [Nat.mul_right_comm, Nat.mul_right_comm t.num.toNat]
    exact Nat.mul_le_mul_right _ hcross
  have hone : roundDiv (t.num.toNat * 10000) t.den ≤ roundDiv 10000 1 := by
    have hle : t.num.toNat ≤ t.den := by
      have := (Rat.le_iff t 1).1 ht
      rw [← hnum (hs.trans h), Rat.num_one, Rat.den_one] at this
      omega
    refine roundDiv_mono t.den_pos one_pos ?_
    rw [Nat.mul_one, Nat.mul_comm]
    exact Nat.mul_le_mul_left _ hle
  have hplaces : (0 : Rat) < 10000 := by norm_num
  have hsmall : (roundDiv (t.num.toNat * 10000) t.den : Rat) / 10000 ≤ 2 := by
    have hwhole : roundDiv 10000 1 = 10000 := by decide
    have hle : (roundDiv (t.num.toNat * 10000) t.den : Rat) ≤ (10000 : Nat) :=
      Nat.cast_le.2 (hwhole ▸ hone)
    rw [div_le_iff₀ hplaces]
    exact hle.trans (by norm_num)
  unfold toPlaces ofRatio
  rw [Rat.mkRat_eq_div, Rat.mkRat_eq_div]
  refine Binary64.round_mono ?_ ?_ (hsmall.trans_lt Binary64.two_lt_overflow)
  · exact div_le_div_of_nonneg_right (by exact_mod_cast hunits) hplaces.le
  · exact div_nonneg (by exact_mod_cast Nat.zero_le _) hplaces.le

end Score

namespace Matching

variable {candidate context name : Text}

/-! ## What a strategy is worth -/

theorem rating_le (candidate context name : Text) :
    rating candidate context name ≤ Score.greatestInexact := min_le_right _ _

/-- What is not the candidate's own name is worth between 0.6 and 0.99. -/
theorem worth_bounds {s : Strategy} (hs : s ≠ .exact) (h : Reason candidate context name s) :
    Score.ofRatio 6 10 ≤ worth candidate context name s ∧
      worth candidate context name s ≤ Score.ofRatio 99 100 := by
  have hfixed : ∀ x ∈ [Score.plural, Score.part, Score.synonym],
      Score.ofRatio 6 10 ≤ x ∧ x ≤ Score.ofRatio 99 100 := by decide
  cases s with
  | exact => exact absurd rfl hs
  | plural => exact hfixed _ (by simp [worth])
  | part => exact hfixed _ (by simp [worth])
  | synonym => exact hfixed _ (by simp [worth])
  | similar =>
    have hleast : Score.threshold.toPlaces = Score.ofRatio 6 10 := by decide +kernel
    have hgreatest : Score.greatestInexact.toPlaces = Score.ofRatio 99 100 := by decide
    have hpositive : 0 ≤ Score.threshold := by decide
    have hone : Score.greatestInexact ≤ 1 := by decide
    have hrating := rating_le candidate context name
    rw [← hleast, ← hgreatest]
    exact ⟨Score.toPlaces_mono hpositive h (hrating.trans hone),
      Score.toPlaces_mono (hpositive.trans h) hrating hone⟩

/-- Only the candidate's own name is worth one. -/
theorem worth_eq_one_iff {s : Strategy} (h : Reason candidate context name s) :
    worth candidate context name s = 1 ↔ s = .exact := by
  refine ⟨fun hone => ?_, fun hs => hs ▸ rfl⟩
  by_contra hs
  have hgreatest : Score.ofRatio 99 100 < 1 := by decide
  exact absurd hone ((worth_bounds hs h).2.trans_lt hgreatest).ne

theorem worth_pos {s : Strategy} (h : Reason candidate context name s) :
    0 < worth candidate context name s := by
  by_cases hs : s = .exact
  · subst hs
    exact one_pos
  · have hleast : 0 < Score.ofRatio 6 10 := by decide
    exact hleast.trans_le (worth_bounds hs h).1

/-! ## The candidate's own name -/

theorem identical?_isSome_iff {known : List Text} :
    (identical? candidate known).isSome = true ↔ ∃ name ∈ known, Identical candidate name := by
  constructor
  · intro h
    obtain ⟨m, hm⟩ := Option.isSome_iff_exists.1 h
    have hfound := foundBy_of_identical? [] hm
    exact ⟨m.name, hfound.mem, hfound.reason⟩
  · rintro ⟨n, hn, hidentical⟩
    unfold identical?
    simp only [Option.isSome_map]
    split
    · rfl
    rename_i hnot
    obtain hself | hsame := hidentical
    · exact absurd (List.contains_iff_mem.2 (hself ▸ hn)) hnot
    · refine List.find?_isSome.2 ⟨n, hn, ?_⟩
      simpa using hsame

end Matching

/-! ## The bands -/

open Matching in
/-- A match is one of the known names. It has a score and a strategy exactly if there is one; the
score is one exactly if the name is the candidate's own, and between 0.6 and 0.99 otherwise. -/
theorem matchName_score_bands (candidate : Text) (known : List Text) (context : Text) :
    let found := matchName candidate known context
    let score := (found.map (·.score)).getD 0
    (found.map (·.name) = none ↔ score = 0) ∧
      (score = 0 ↔ found.map (·.strategy) = none) ∧
      (∀ name, found.map (·.name) = some name → name ∈ known) ∧
      (score = 1 ↔ found.map (·.strategy) = some .exact) ∧
      (found.map (·.strategy) = some .exact ↔
        candidate ≠ [] ∧ known ≠ [] ∧ ∃ name ∈ known, Identical candidate name) ∧
      ∀ s, found.map (·.strategy) = some s → s ≠ .exact →
        Score.ofRatio 6 10 ≤ score ∧ score ≤ Score.ofRatio 99 100 := by
  intro found score
  have hown : candidate ≠ [] → (∃ name ∈ known, Identical candidate name) →
      found.map (·.strategy) = some .exact := by
    intro hne hexists
    obtain ⟨m, hm⟩ := Option.isSome_iff_exists.1 (identical?_isSome_iff.2 hexists)
    have hfound : found = some m := by simp [found, matchName, hne, hm]
    rw [hfound, Option.map_some, (foundBy_of_identical? context hm).strategy]
  cases hfound : found with
  | none =>
    have hscore : score = 0 := by simp [score, hfound]
    rw [hfound] at hown
    refine ⟨by simp [hscore], by simp [hscore], nofun, by simp [hscore], ?_, nofun⟩
    exact iff_of_false nofun fun ⟨hne, _, hexists⟩ => nomatch hown hne hexists
  | some m =>
    obtain ⟨hne, hby⟩ := matchName_foundBy hfound
    have hscore : score = worth candidate (lower context) m.name m.strategy := by
      simp [score, hfound, hby.score]
    have hpos : score ≠ 0 := hscore ▸ (worth_pos hby.reason).ne'
    rw [hfound] at hown
    simp only [Option.map_some, Option.some.injEq, reduceCtorEq] at hown ⊢
    refine ⟨iff_of_false id hpos, iff_of_false hpos id, ?_, ?_, ?_, ?_⟩
    · rintro name rfl
      exact hby.mem
    · rw [hscore]
      exact worth_eq_one_iff hby.reason
    · refine ⟨fun hs => ⟨hne, List.ne_nil_of_mem hby.mem, m.name, hby.mem, ?_⟩, ?_⟩
      · exact (hs ▸ hby.reason : Reason candidate (lower context) m.name .exact)
      · rintro ⟨-, -, hexists⟩
        exact hown hne hexists
    · rintro s rfl hs
      rw [hscore]
      exact worth_bounds hs hby.reason

end QueryGate
