import QueryGate.Proofs.Sort.CastKeys
import QueryGate.Proofs.Sort.PlainQuotes

/-!
# What casting sort keys changes

Casting changes sort items only, each once, exactly if the keys that it finds are sort items and no
two of them overlap (`castSortKeys_casts_items`). A name in quotes that holds the words `ORDER BY`
shows it keys that are none, and a list that runs into the next shows it a key twice.
-/

namespace QueryGate

/-- The keys that are found are sort items, and no two of them overlap. -/
structure FindsSortItems (columns : List Column) (sql : Text) : Prop where
  items : ∀ c ∈ casts columns sql, c.edit.span ∈ sortItems sql
  apart : (casts columns sql).Pairwise fun c d => c.edit.span.Apart d.edit.span

/-- Plain names in quotes, and lists that do not run into each other, mislead nothing. -/
theorem FindsSortItems.of_plainQuotes {sql : Text} (columns : List Column)
    (hquotes : PlainQuotes (maskLiterals sql))
    (hlists : (sortLists (maskLiterals sql)).Pairwise Span.Before) :
    FindsSortItems columns sql where
  items c hc := by
    obtain ⟨list, hlist, s, hs, hcast⟩ := exists_of_mem_casts hc
    rw [hcast.span]
    exact mem_sortItems_of_plainQuotes hquotes hlist hs
  apart := by
    -- Items of one list stand one behind the other, and those of a later list behind them.
    have hitems : (uncastItems (maskLiterals sql)).Pairwise Span.Before := by
      refine List.pairwise_flatMap.2 ⟨fun list _ => pairwise_topLevelItems.1, ?_⟩
      refine (hlists.filter _).imp fun {x y} hxy s hs r hr => ?_
      have hs := (pairwise_topLevelItems.2 s hs).le_stop
      have hr := (pairwise_topLevelItems.2 r hr).start_le
      simp only [Span.Before] at hxy ⊢
      omega
    rw [casts_eq]
    refine List.pairwise_filterMap.2 (hitems.imp fun {s r} hsr c hc d hd => .inl ?_)
    rwa [(castAt?_eq_some hc).span, (castAt?_eq_some hd).span]

/-- Casting changes nothing but sort items, each of them once and by a cast around its column,
exactly if nothing is cast or the keys that are found are sort items that do not overlap. -/
theorem castSortKeys_casts_items (columns : List Column) (question sql : Text) :
    ((∃ keys, (∀ s ∈ keys, s ∈ sortItems sql ∧ ∃ c ∈ casts columns sql, c.edit.span = s) ∧
        CastIn keys sql (castSortKeys columns question sql)) ↔
      isRefusal sql = true ∨ asksForExtreme question = false ∨ FindsSortItems columns sql) ∧
    (PlainQuotes (maskLiterals sql) → (sortLists (maskLiterals sql)).Pairwise Span.Before →
      FindsSortItems columns sql) := by
  refine ⟨⟨?_, ?_⟩, .of_plainQuotes columns⟩
  · rintro ⟨keys, hkeys, hcast⟩
    by_cases hnone : (isRefusal sql || !asksForExtreme question) = true
    · rcases Bool.or_eq_true_iff.1 hnone with hrefusal | hquestion
      · exact .inl hrefusal
      · exact .inr (.inl (by simpa using hquestion))
    · rw [castSortKeys, if_neg hnone] at hcast
      -- The text grows with every cast, so that all keys that were found are among the items.
      have hcount : keys.length = ((casts columns sql).map (·.edit.span)).length := by
        have hgrown := hcast.length_eq
        rw [length_applyEdits castsKey_of_mem_edits, List.length_map] at hgrown
        rw [List.length_map]
        omega
      have hsub : keys ⊆ (casts columns sql).map (·.edit.span) := fun s hs => by
        obtain ⟨-, c, hc, rfl⟩ := hkeys s hs
        exact List.mem_map_of_mem hc
      have hperm : keys.Perm ((casts columns sql).map (·.edit.span)) :=
        (List.subperm_of_subset hcast.nodup hsub).perm_of_length_le hcount.ge
      refine .inr (.inr ⟨fun c hc => ?_, ?_⟩)
      · exact (hkeys _ (hperm.mem_iff.2 (List.mem_map_of_mem hc))).1
      · have hapart : keys.Pairwise Span.Apart := hcast.pairwise.imp fun h => .inr h
        exact List.pairwise_map.1 (hapart.perm hperm fun h => h.symm)
  · intro h
    by_cases hnone : (isRefusal sql || !asksForExtreme question) = true
    · refine ⟨[], ⟨fun s hs => (nomatch hs), ?_⟩⟩
      rw [castSortKeys, if_pos hnone]
      exact .nil sql
    · have hfinds : FindsSortItems columns sql := by
        rcases h with hrefusal | hquestion | hfinds
        · simp [hrefusal] at hnone
        · simp [hquestion] at hnone
        · exact hfinds
      obtain ⟨keys, hperm, hcast⟩ := castIn_applyEdits castsKey_of_mem_edits
        (List.pairwise_map.2 hfinds.apart)
      refine ⟨keys, fun s hs => ?_, by rwa [castSortKeys, if_neg hnone]⟩
      obtain ⟨e, he, rfl⟩ := List.mem_map.1 (hperm.mem_iff.1 hs)
      obtain ⟨c, hc, rfl⟩ := List.mem_map.1 he
      exact ⟨hfinds.items c hc, c, hc, rfl⟩

/-- A name in quotes may hold blanks and words that only begin like those of the clause. -/
theorem castSortKeys_casts_quoted_items :
    let sql : Text := "SELECT ' ORDER BY ' FROM t ORDER BY \"Order price\" DESC, total LIMIT 9"
    PlainQuotes (maskLiterals sql) ∧ FindsSortItems [] sql ∧
      ∃ keys, keys.length = 2 ∧ (∀ s ∈ keys, s ∈ sortItems sql) ∧
        CastIn keys sql (castSortKeys [] "top 9" sql) := by
  intro sql
  have hquotes : PlainQuotes (maskLiterals sql) := by decide +kernel
  have hlists : (sortLists (maskLiterals sql)).Pairwise Span.Before := by decide +kernel
  have hgrown : (castSortKeys [] "top 9" sql).length = sql.length + 26 * 2 := by decide +kernel
  have hfinds := (castSortKeys_casts_items [] "top 9" sql).2 hquotes hlists
  obtain ⟨keys, hkeys, hcast⟩ :=
    (castSortKeys_casts_items [] "top 9" sql).1.2 (.inr (.inr hfinds))
  have hcount : keys.length = 2 := by
    have := hcast.length_eq
    omega
  exact ⟨hquotes, hfinds, keys, hcount, fun s hs => (hkeys s hs).1, hcast⟩

/-- The words `ORDER BY` in a name in quotes make sort keys of what follows there. -/
theorem castSortKeys_casts_in_quotes :
    let sql : Text := "SELECT \"a ORDER BY b, price, c\" FROM t"
    sortItems sql = [] ∧ ¬ ∃ keys, (∀ s ∈ keys, s ∈ sortItems sql) ∧
      CastIn keys sql (castSortKeys [] "top 5" sql) := by
  intro sql
  have hitems : sortItems sql = [] := by decide +kernel
  refine ⟨hitems, ?_⟩
  rintro ⟨keys, hkeys, hcast⟩
  obtain rfl : keys = [] := List.eq_nil_iff_forall_not_mem.2 fun s hs => by
    have := hkeys s hs
    rw [hitems] at this
    cases this
  have hlen := hcast.length_eq
  have hgrown : (castSortKeys [] "top 5" sql).length ≠ sql.length := by decide +kernel
  exact hgrown hlen

end QueryGate
