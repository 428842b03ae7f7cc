import QueryGate.Proofs.Repair.Settled

/-!
# Repairing once more

The repair of a repaired text looks names up again: some that the first run put in, some that it
left, and some that it never looked up. A name that was put in is settled wherever its list of known
names is asked again (`Lookup.Settled.of_put`), and a name that was like none of its known names is
so again unless the text mentions other ones than before. So a second run changes nothing exactly if
the names that are new to it are like none of theirs (`repair_again_eq_self_iff`).

There are such names. What a misspelt table was called no longer stands for the table once its
reference is corrected, so that a qualifier with that spelling is now looked up.
-/

namespace QueryGate

/-! ## What a match owes to the context -/

/-- Two contexts mention the same of the known names: a mention is all that a match takes from its
context. -/
def SameMentions (known : List Text) (context context' : Text) : Prop :=
  ∀ n ∈ known, (context ≠ [] ∧ Text.hasPart (lower n) (lower context) = true ↔
    context' ≠ [] ∧ Text.hasPart (lower n) (lower context') = true)

section Mentions

variable {candidate context context' n : Text} {known : List Text}

theorem SameMentions.rating_eq (h : SameMentions known context context') (hn : n ∈ known) :
    Matching.rating candidate (lower context) n = Matching.rating candidate (lower context') n := by
  have hmention (c : Text) : (!(lower c).isEmpty && Text.hasPart (lower n) (lower c)) = true ↔
      c ≠ [] ∧ Text.hasPart (lower n) (lower c) = true := by
    simp [lower_eq_nil_iff]
  unfold Matching.rating
  simp only [hmention, h n hn]

theorem bestFrom_congr {best : Option (Text × Score)}
    (h : ∀ n ∈ known, Matching.rating candidate context n = Matching.rating candidate context' n) :
    Matching.bestFrom candidate context best known =
      Matching.bestFrom candidate context' best known := by
  induction known generalizing best with
  | nil => rfl
  | cons n known ih =>
    obtain ⟨hn, hknown⟩ := List.forall_mem_cons.1 h
    rw [Matching.bestFrom, Matching.bestFrom, hn]
    exact ih hknown

theorem SameMentions.matchName_eq (h : SameMentions known context context') :
    matchName candidate known context = matchName candidate known context' := by
  have hsimilar : Matching.similar? candidate known context =
      Matching.similar? candidate known context' := by
    unfold Matching.similar?
    rw [bestFrom_congr fun n hn => h.rating_eq hn]
  rw [matchName, matchName, hsimilar]

end Mentions

/-! ## Names that a second run leaves -/

namespace Lookup

/-- A known name that has been put in is settled where it is looked up among names that it is one
of. -/
theorem Settled.of_put {l : Lookup} {name : Text} {forceQuotes : Bool}
    (h : l.identifier = .rendered name forceQuotes) (hname : name ∈ l.known) : l.Settled where
  known := by rwa [h, Identifier.effective_rendered]
  undisputed := by
    cases hquoted : l.identifier.quoted with
    | true => exact .inl hquoted
    | false =>
      -- Bare, it needs no quotes, so its letters are small.
      refine .inr (.inl ?_)
      have heffective := Identifier.effective_rendered name forceQuotes
      rw [← h, Identifier.effective, hquoted] at heffective
      rw [h]
      rw [h] at heffective
      exact heffective

/-- A name that is like no known one is so in any text that mentions the same of them. -/
theorem Strange.of_sameMentions {l l' : Lookup} {context context' : Text}
    (hidentifier : l'.identifier = l.identifier) (hknown : l'.known = l.known)
    (hmentions : SameMentions l.known context context') (h : l'.Strange context) :
    l.Strange context' := by
  rw [strange_iff, hidentifier, hknown, hmentions.matchName_eq] at h
  exact strange_iff.2 h

/-- The repair of a text looked up the same name among the same known names and found it like none,
and the other text mentions the same of them. -/
def Left (k : KnownNames) (sql other : Text) (l : Lookup) : Prop :=
  SameMentions l.known sql other ∧ ∃ p ∈ passes k sql, ∃ l' ∈ p.lookups,
    l'.identifier = l.identifier ∧ l'.known = l.known ∧ l'.Strange sql

theorem Left.strange {k : KnownNames} {sql other : Text} {l : Lookup} (h : l.Left k sql other) :
    l.Strange other := by
  obtain ⟨hmentions, -, -, l', -, hidentifier, hknown, hstrange⟩ := h
  exact hstrange.of_sameMentions hidentifier hknown hmentions

end Lookup

/-- A second run of the repair changes nothing exactly if every name that is new to it is like none
of its known names: one that is not settled and that the first run did not find so. What the first
run puts in is never new where it is looked up among names that it is one of. -/
theorem repair_again_eq_self_iff (k : KnownNames) (sql : Text) :
    (repair k (repair k sql).sql = ⟨(repair k sql).sql, []⟩ ↔
      ∀ l ∈ lookups k (repair k sql).sql, ¬ l.Settled → ¬ l.Left k sql (repair k sql).sql →
        l.Strange (repair k sql).sql) ∧
      (∀ l : Lookup, l.Left k sql (repair k sql).sql → l.Strange (repair k sql).sql) ∧
      ∀ p ∈ passes k sql, ∀ l ∈ p.lookups, ∀ c, l.correction? sql = some c →
        ∃ name ∈ l.known, c.edit.text = (Identifier.rendered name l.identifier.quoted).token.text ∧
          ∀ l' : Lookup, l'.identifier = .rendered name l.identifier.quoted → name ∈ l'.known →
            l'.Settled := by
  refine ⟨?_, fun l => Lookup.Left.strange, fun p _ l _ c hc => ?_⟩
  · rw [repair_eq_self_iff]
    refine ⟨fun h l hl hnot _ => ?_, fun h l hl => ?_⟩
    · exact (Lookup.correction?_eq_none_iff.1 (h l hl)).resolve_left hnot
    by_cases hsettled : l.Settled
    · exact hsettled.correction? _
    by_cases hleft : l.Left k sql (repair k sql).sql
    · exact hleft.strange.correction?
    · exact (h l hl hsettled hleft).correction?
  · obtain ⟨m, hm, htext⟩ := Lookup.exists_match_of_correction? hc
    refine ⟨m.name, mem_of_matchName hm, ?_, fun l' => .of_put⟩
    rw [htext, Identifier.token_rendered, Token.text_rendered]

/-- A column and its table are corrected, and the second run finds both settled. -/
theorem repair_again_corrected_column :
    let k : KnownNames := ⟨["cities"], [("cities", ["City", "State"])]⟩
    (repair k "SELECT city, stat FROM citys").sql = "SELECT \"City\", \"State\" FROM cities" ∧
      repair k "SELECT \"City\", \"State\" FROM cities" =
        ⟨"SELECT \"City\", \"State\" FROM cities", []⟩ := by
  intro k
  have hfirst : (repair k "SELECT city, stat FROM citys").sql =
      "SELECT \"City\", \"State\" FROM cities" := by decide +kernel
  refine ⟨hfirst, ?_⟩
  have hsettled : ∀ l ∈ lookups k "SELECT \"City\", \"State\" FROM cities", l.Settled := by
    have hwritten : ∀ l ∈ lookups k "SELECT \"City\", \"State\" FROM cities",
        l.identifier.effective ∈ l.known ∧
          (l.identifier.quoted = true ∨ lower l.identifier.name = l.identifier.name) := by
      decide +kernel
    exact fun l hl => ⟨(hwritten l hl).1, (hwritten l hl).2.imp_right .inl⟩
  have hagain := (repair_again_eq_self_iff k "SELECT city, stat FROM citys").1
  rw [hfirst] at hagain
  exact hagain.2 fun l hl hnot => absurd (hsettled l hl) hnot

/-- The qualifier is bound to the misspelt table in the first run; in the second it is bound to
nothing, and is corrected. -/
theorem repair_again_former_name :
    let k : KnownNames := ⟨["city"], [("city", ["name"])]⟩
    (repair k "SELECT citys.name FROM citys").sql = "SELECT citys.name FROM city" ∧
      (repair k "SELECT citys.name FROM city").sql = "SELECT city.name FROM city" ∧
      (repair k "SELECT citys.name FROM city").notes ≠ [] := by
  decide +kernel

end QueryGate
