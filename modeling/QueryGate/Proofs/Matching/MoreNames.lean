import QueryGate.Proofs.Matching.Matches

/-!
# Matching among more names

Known names that come to the end of the list never take a match away. The match stays what it was,
or it is one of the new names, found by a strategy that is tried no later (`matchName_append`). Each
of the searches has this property (`Matching.Grows`), and searches that are tried in the order of
their strategies have it together (`Matching.Grows.orElse`).
-/

namespace QueryGate

/-- The place of a strategy in the order in which they are tried. -/
def Strategy.rank : Strategy → Nat
  | .exact => 0
  | .plural => 1
  | .part => 2
  | .synonym => 3
  | .similar => 4

namespace Matching

/-! ## Searches that more names leave or better -/

/-- A search by a strategy and later ones. What it finds among more names it found before, or it is
a new name; and where it found a name before it finds one by a strategy that is tried no later. -/
structure Grows (s : Strategy) (search : List Text → Option NameMatch) : Prop where
  old_or_new : ∀ known extra m, search (known ++ extra) = some m →
    search known = some m ∨ m.name ∈ extra
  no_later : ∀ known extra m, search known = some m →
    ∃ m', search (known ++ extra) = some m' ∧ m'.strategy.rank ≤ m.strategy.rank
  rank_le : ∀ known m, search known = some m → s.rank ≤ m.strategy.rank

namespace Grows

variable {s s' : Strategy} {search first second : List Text → Option NameMatch}

theorem none (s : Strategy) : Grows s fun _ => Option.none := ⟨nofun, nofun, nofun⟩

/-- A search that comes to nothing came to nothing among fewer names. -/
theorem eq_none (h : Grows s search) {known extra : List Text}
    (hnone : search (known ++ extra) = .none) : search known = .none := by
  refine Option.eq_none_iff_forall_ne_some.2 fun m hm => ?_
  obtain ⟨m', hm', -⟩ := h.no_later known extra m hm
  rw [hnone] at hm'
  cases hm'

/-- More names leave what a search finds, or are what it finds. -/
theorem kept_or_new (h : Grows s search) (known extra : List Text) :
    search (known ++ extra) = search known ∨
      ∃ m, search (known ++ extra) = some m ∧ m.name ∈ extra := by
  cases hnew : search (known ++ extra) with
  | none => exact .inl (h.eq_none hnew).symm
  | some m => exact (h.old_or_new known extra m hnew).imp Eq.symm fun hmem => ⟨m, rfl, hmem⟩

/-- A search by one strategy, and others by later strategies where it comes to nothing. -/
theorem orElse (hfirst : Grows s first) (hsecond : Grows s' second) (hrank : s.rank ≤ s'.rank)
    (hby : ∀ known m, first known = some m → m.strategy = s) :
    Grows s fun known => first known <|> second known := by
  simp only [Option.orElse_eq_orElse, Option.orElse_eq_or]
  refine ⟨fun known extra m hm => ?_, fun known extra m hm => ?_, fun known m hm => ?_⟩
  · rcases Option.or_eq_some_iff.1 hm with hm | ⟨hnone, hm⟩
    · exact (hfirst.old_or_new known extra m hm).imp_left fun hold => by rw [hold, Option.some_or]
    · rw [hfirst.eq_none hnone, Option.none_or]
      exact hsecond.old_or_new known extra m hm
  · rcases Option.or_eq_some_iff.1 hm with hm | ⟨-, hm⟩
    · obtain ⟨m', hm', hle⟩ := hfirst.no_later known extra m hm
      exact ⟨m', by rw [hm', Option.some_or], hle⟩
    · obtain ⟨m', hm', hle⟩ := hsecond.no_later known extra m hm
      cases hnew : first (known ++ extra) with
      | some n =>
        rw [Option.some_or]
        exact ⟨n, rfl, hby _ n hnew ▸ hrank.trans (hsecond.rank_le known m hm)⟩
      | none => exact ⟨m', by rw [Option.none_or, hm'], hle⟩
  · rcases Option.or_eq_some_iff.1 hm with hm | ⟨-, hm⟩
    · exact hfirst.rank_le known m hm
    · exact hrank.trans (hsecond.rank_le known m hm)

/-- A search that takes the first name that it can. -/
theorem of_findSome? {take : Text → Option NameMatch}
    (htake : ∀ name m, take name = some m → m.name = name ∧ m.strategy = s) :
    Grows s fun known => known.findSome? take := by
  refine ⟨fun known extra m hm => ?_, fun known extra m hm => ?_, fun known m hm => ?_⟩
  · rw [List.findSome?_append] at hm
    rcases Option.or_eq_some_iff.1 hm with hm | ⟨-, hm⟩
    · exact .inl hm
    · obtain ⟨n, hn, hm⟩ := List.exists_of_findSome?_eq_some hm
      exact .inr ((htake n m hm).1 ▸ hn)
  · exact ⟨m, by rw [List.findSome?_append, hm, Option.some_or], Nat.le_refl _⟩
  · obtain ⟨n, -, hm⟩ := List.exists_of_findSome?_eq_some hm
    rw [(htake n m hm).2]

/-- A search for the first name with a property. -/
theorem of_find? (p : Text → Bool) {asMatch : Text → NameMatch}
    (hmatch : ∀ name, (asMatch name).name = name ∧ (asMatch name).strategy = s) :
    Grows s fun known => (known.find? p).map asMatch := by
  simp only [List.find?_eq_findSome?_guard, List.map_findSome?]
  refine of_findSome? fun name m hm => ?_
  obtain ⟨n, hn, rfl⟩ := Option.map_eq_some_iff.1 hm
  obtain ⟨rfl, -⟩ := Option.guard_eq_some_iff.1 hn
  exact hmatch _

end Grows

/-! ## The five searches -/

section Searches

variable {candidate context : Text}

/-- The candidate is found among known names as the first name that is equal to it. -/
theorem find?_beq_self (known : List Text) : known.find? (· == candidate) =
    if known.contains candidate then some candidate else none := by
  cases hfind : known.find? (· == candidate) with
  | none =>
    have hnot : candidate ∉ known := fun hmem =>
      List.find?_eq_none.1 hfind candidate hmem (beq_self_eq_true candidate)
    rw [if_neg (mt List.contains_iff_mem.1 hnot)]
  | some n =>
    have hn := List.find?_some hfind
    obtain rfl : n = candidate := eq_of_beq hn
    rw [if_pos (List.contains_iff_mem.2 (List.mem_of_find?_eq_some hfind))]

theorem grows_identical? (candidate : Text) : Grows .exact (identical? candidate) := by
  have hsearches : identical? candidate = fun known =>
      (known.find? (· == candidate)).map (fun name => ⟨name, .exact, Score.exact, none⟩) <|>
        (known.find? fun name => lower name == lower candidate ||
          (!(normalForm candidate).isEmpty && normalForm name == normalForm candidate)).map
            fun name => ⟨name, .exact, Score.exact, none⟩ := by
    funext known
    rw [identical?, find?_beq_self]
    cases known.contains candidate <;> rfl
  rw [hsearches]
  refine Grows.orElse (Grows.of_find? _ fun _ => ⟨rfl, rfl⟩)
    (@Grows.of_find? .exact _ _ fun _ => ⟨rfl, rfl⟩) (Nat.le_refl _) fun known m hm => ?_
  obtain ⟨n, -, rfl⟩ := Option.map_eq_some_iff.1 hm
  rfl

theorem grows_plural? (candidate : Text) : Grows .plural (plural? candidate) :=
  Grows.of_find? _ fun _ => ⟨rfl, rfl⟩

theorem grows_part? (candidate : Text) : Grows .part (part? candidate) := by
  unfold part?
  simp only
  split
  · exact Grows.none _
  refine Grows.of_findSome? fun name m hm => ?_
  split at hm
  · cases hm
  split at hm
  · obtain rfl := Option.some.inj hm
    exact ⟨rfl, rfl⟩
  · cases hm

theorem grows_synonym? (candidate : Text) : Grows .synonym (synonym? candidate) :=
  Grows.of_find? _ fun _ => ⟨rfl, rfl⟩

theorem bestFrom_append (best : Option (Text × Score)) (known extra : List Text) :
    bestFrom candidate context best (known ++ extra) =
      bestFrom candidate context (bestFrom candidate context best known) extra := by
  induction known generalizing best with
  | nil => rfl
  | cons name known ih => exact ih _

/-- The best name so far only makes room for a better one. -/
theorem exists_bestFrom_some (n : Text) (s : Score) (known : List Text) :
    ∃ n' s', bestFrom candidate context (some (n, s)) known = some (n', s') ∧ s ≤ s' := by
  induction known generalizing n s with
  | nil => exact ⟨n, s, rfl, le_rfl⟩
  | cons name known ih =>
    rw [bestFrom]
    simp only [Option.map_some, Option.getD_some]
    split
    · rename_i hlt
      obtain ⟨n', s', hbest, hle⟩ := ih name (rating candidate context name)
      exact ⟨n', s', hbest, hlt.le.trans hle⟩
    · exact ih n s

theorem similar?_eq_some_iff {known : List Text} {m : NameMatch} :
    similar? candidate known context = some m ↔
      ∃ n s, bestFrom candidate (lower context) none known = some (n, s) ∧ Score.threshold ≤ s ∧
        m = ⟨n, .similar, s.toPlaces, some s.percent⟩ := by
  unfold similar?
  cases bestFrom candidate (lower context) none known with
  | none => simp
  | some best =>
    obtain ⟨n, s⟩ := best
    by_cases hs : Score.threshold ≤ s
    · simp [hs, eq_comm]
    · simp [hs]

theorem grows_similar? (candidate context : Text) :
    Grows .similar fun known => similar? candidate known context := by
  refine ⟨fun known extra m hm => ?_, fun known extra m hm => ?_, fun known m hm => ?_⟩
  · obtain ⟨n, s, hbest, hs, rfl⟩ := similar?_eq_some_iff.1 hm
    rw [bestFrom_append] at hbest
    rcases bestFrom_eq_some hbest with ⟨hmem, -⟩ | hold
    · exact .inr hmem
    · exact .inl (similar?_eq_some_iff.2 ⟨n, s, hold, hs, rfl⟩)
  · obtain ⟨n, s, hbest, hs, rfl⟩ := similar?_eq_some_iff.1 hm
    obtain ⟨n', s', hbetter, hle⟩ := exists_bestFrom_some n s extra
    refine ⟨⟨n', .similar, s'.toPlaces, some s'.percent⟩, ?_, Nat.le_refl _⟩
    refine similar?_eq_some_iff.2 ⟨n', s', ?_, hs.trans hle, rfl⟩
    rw [bestFrom_append, hbest, hbetter]
  · rw [(foundBy_of_similar? hm).strategy]

end Searches

/-- The five searches, tried in their order. -/
theorem grows_matchName (candidate context : Text) :
    Grows .exact fun known => matchName candidate known context := by
  unfold matchName
  split
  · exact Grows.none _
  have hsynonym := (grows_synonym? candidate).orElse (grows_similar? candidate context) (by decide)
    fun _ _ h => (foundBy_of_synonym? context h).strategy
  have hpart := (grows_part? candidate).orElse hsynonym (by decide)
    fun _ _ h => (foundBy_of_part? context h).strategy
  have hplural := (grows_plural? candidate).orElse hpart (by decide)
    fun _ _ h => (foundBy_of_plural? context h).strategy
  exact (grows_identical? candidate).orElse hplural (by decide)
    fun _ _ h => (foundBy_of_identical? context h).strategy

end Matching

open Matching in
/-- Known names that are added leave a match or are the match; no match is lost or found by a later
strategy. -/
theorem matchName_append (candidate : Text) (known extra : List Text) (context : Text) :
    (matchName candidate (known ++ extra) context = matchName candidate known context ∨
      ∃ m, matchName candidate (known ++ extra) context = some m ∧ m.name ∈ extra) ∧
      ∀ m, matchName candidate known context = some m →
        ∃ m', matchName candidate (known ++ extra) context = some m' ∧
          m'.strategy.rank ≤ m.strategy.rank :=
  ⟨(grows_matchName candidate context).kept_or_new known extra,
    (grows_matchName candidate context).no_later known extra⟩

end QueryGate
