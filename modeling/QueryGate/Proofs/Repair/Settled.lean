import QueryGate.Proofs.Repair.Lookups

/-!
# Texts that the repair leaves

A text in which no name that is looked up is corrected stays as it is, and nothing is told of it
(`repair_eq_self_iff`): its passes all look at the text as it came.
-/

namespace QueryGate

/-- The names that are looked up in a text while no pass changes it. -/
def lookups (k : KnownNames) (sql : Text) : List Lookup :=
  if allBlank sql then []
  else
    let refs := tableRefs sql
    let bound := Repair.bindings k sql refs
    let columns := k.candidateColumns (distinct (refs.map (Repair.resolvedTable k sql)))
    Lookup.tables k refs ++ (qualifiedRefs (maskLiterals sql)).flatMap (Lookup.qualified k sql bound)
      ++ Lookup.quoted k (maskLiterals sql) bound columns ++ Lookup.selected sql bound columns

theorem Pass.corrections_eq_nil_iff {context : Text} {p : Pass} :
    p.corrections context = [] ↔ ∀ l ∈ p.lookups, l.correction? context = none :=
  List.filterMap_eq_nil_iff

/-- Passes correct nothing exactly if they have nothing to correct in the text as it came. -/
theorem passesFrom_corrections_eq_nil_iff {context text : Text} {looks : List (Text → List Lookup)} :
    (∀ p ∈ passesFrom context text looks, p.corrections context = []) ↔
      ∀ look ∈ looks, ∀ l ∈ look text, l.correction? context = none := by
  induction looks with
  | nil => exact ⟨nofun, nofun⟩
  | cons look looks ih =>
    rw [passesFrom, List.forall_mem_cons, List.forall_mem_cons, Pass.corrections_eq_nil_iff]
    refine and_congr_right fun hnone => ?_
    have hcorrections := Pass.corrections_eq_nil_iff (p := ⟨text, look text⟩).2 hnone
    have houtput : Pass.output context ⟨text, look text⟩ = text := by
      rw [Pass.output, hcorrections]
      rfl
    rw [houtput]
    exact ih

theorem passes_corrections_eq_nil_iff {k : KnownNames} {sql : Text} :
    (∀ p ∈ passes k sql, p.corrections sql = []) ↔
      ∀ l ∈ lookups k sql, l.correction? sql = none := by
  unfold passes lookups
  split
  · exact ⟨nofun, nofun⟩
  · rw [passesFrom_corrections_eq_nil_iff]
    simp only [List.forall_mem_cons, List.forall_mem_append, List.not_mem_nil, false_implies,
      implies_true, and_true, and_assoc]

theorem getLast?_passesFrom {context text : Text} {looks : List (Text → List Lookup)}
    (h : ∀ p ∈ passesFrom context text looks, p.corrections context = []) :
    ((passesFrom context text looks).getLast?.map (Pass.output context)).getD text = text := by
  induction looks generalizing text with
  | nil => rfl
  | cons look looks ih =>
    rw [passesFrom] at h ⊢
    obtain ⟨hfirst, hrest⟩ := List.forall_mem_cons.1 h
    have houtput : Pass.output context ⟨text, look text⟩ = text := by
      rw [Pass.output, hfirst]
      rfl
    rw [houtput] at hrest ⊢
    cases looks with
    | nil => simpa [passesFrom] using houtput
    | cons look' looks => exact ih hrest

/-- The repair leaves a text and tells nothing exactly if none of the names it looks up is
corrected. -/
theorem repair_eq_self_iff {k : KnownNames} {sql : Text} :
    repair k sql = ⟨sql, []⟩ ↔ ∀ l ∈ lookups k sql, l.correction? sql = none := by
  rw [← passes_corrections_eq_nil_iff, repair_eq_passes, Repaired.mk.injEq, List.map_eq_nil_iff,
    List.flatMap_eq_nil_iff]
  refine ⟨fun h => h.2, fun h => ⟨?_, h⟩⟩
  cases hblank : allBlank sql with
  | true =>
    unfold passes
    rw [if_pos hblank]
    rfl
  | false =>
    unfold passes at h ⊢
    rw [hblank] at h ⊢
    exact getLast?_passesFrom h

end QueryGate
