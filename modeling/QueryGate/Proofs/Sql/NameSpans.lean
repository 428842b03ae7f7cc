import QueryGate.Proofs.Sql.ColumnTokens
import QueryGate.Proofs.Sql.ListItems
import QueryGate.Proofs.Sql.SelectTokens
import QueryGate.Proofs.Sql.TablePlaces

/-!
# Where names are read

The readers of names find them inside the text, whatever it holds, and none of them is empty. One
qualified name ends before the next begins, and so does one name in quotes. Table references may
overlap: a comma leads into a name in quotes, and another reading may begin inside it. So may bare
names, of which one list may hold a part.
-/

namespace QueryGate

section Hits

variable {α : Type} {read : Reading α} {before t : Text} {n : Nat}

/-- What a reading finds is not empty, if it never reads nothing, and it lies in the text. -/
theorem within_of_mem_hitsFrom
    (hread : ∀ before t v rest, read before t = some (v, rest) → rest.length < t.length)
    {h : Hit α} (hh : h ∈ hitsFrom read before n t) :
    Span.Within ⟨h.start, h.stop⟩ 0 (before.length + t.length) := by
  obtain ⟨a, b, rest, rfl, hb, hstart, hstop, -⟩ := span_of_mem_hitsFrom hh
  have hlt := hread _ b _ rest hb
  rw [List.length_append]
  exact ⟨Nat.zero_le _, by simp only; omega, by simp only; omega⟩

end Hits

/-! ## Tables -/

theorem within_of_mem_tableRefs {sql : Text} {r : TableRef} (hr : r ∈ tableRefs sql) :
    Span.Within ⟨r.start, r.stop⟩ 0 sql.length := by
  obtain ⟨h, hh, hr⟩ := List.mem_flatMap.1 hr
  obtain ⟨a, b, rest, hab, hread, -⟩ := span_of_mem_hitsFrom hh
  obtain ⟨rest', ⟨u, rfl, -⟩, -, hne, hstart, hstop⟩ := TableRef.StandsIn.of_mem_refs hread hr
  have hwritten := List.length_pos_iff.2 (@Identifier.written_ne_nil r.identifier hne)
  have hlength := congrArg List.length hab
  rw [length_maskLiterals] at hlength hstart hstop
  simp only [List.length_append] at hlength hstart
  exact ⟨Nat.zero_le _, by simp only; omega, by simp only; omega⟩

/-! ## Qualified names -/

/-- Behind its qualifier a name goes on. -/
theorem QualifiedName.length_onward_of_qualifier {isStart : Char → Bool} {t r : Text}
    {n : QualifiedName} {first q : Identifier} (h : QualifiedName.read? isStart t = some n)
    (hfirst : Identifier.read? isStart t = some (first, r)) (hq : n.qualifier = some q) :
    n.onward.length ≤ r.length := by
  obtain ⟨⟨first', r'⟩, hfirst', h⟩ := Option.bind_eq_some_iff.1 h
  obtain ⟨rfl, rfl⟩ := Prod.mk.inj (Option.some.inj (hfirst.symm.trans hfirst'))
  simp only at h
  split at h
  · obtain rfl := Option.some.inj h
    cases hq
  · rename_i s hdot
    split at h
    · obtain rfl := Option.some.inj h
      cases hq
    · obtain rfl := Option.some.inj h
      exact length_of_dot? hdot

/-- The spans of a qualified name that is read from `start` to `stop`: the qualifier, and behind it
the column. -/
structure QualifiedRef.Spans (q : QualifiedRef) (start stop : Nat) : Prop where
  starts : start = q.qualifierSpan.start
  qualifier : q.qualifierSpan.start < q.qualifierSpan.stop
  before : q.qualifierSpan.Before q.columnSpan
  column : q.columnSpan.start < q.columnSpan.stop
  stops : q.columnSpan.stop = stop

theorem spans_of_mem_hits {masked : Text} {h : Hit QualifiedRef}
    (hh : h ∈ hits qualifiedRef masked) :
    h.value.Spans h.start h.stop ∧ h.stop ≤ masked.length := by
  obtain ⟨a, b, rest, rfl, hread, hstart, hstop, -⟩ := span_of_mem_hitsFrom hh
  obtain ⟨-, n, first, r, hn, hq, hfirst, rfl, -, hqualifier, hcolumn⟩ :=
    qualifiedRef_eq_some hread
  have hr := Identifier.length_of_read? hfirst
  have honward := QualifiedName.length_onward_of_qualifier hn hfirst hq
  obtain ⟨hrest, -⟩ := QualifiedName.length_of_read? hn
  simp only [List.append_nil, offsetOf, List.length_reverse] at hqualifier hcolumn
  rw [List.length_nil, Nat.zero_add] at hstart
  rw [List.length_append]
  constructor
  · constructor
    · rw [hqualifier, hstart]
    · rw [hqualifier]
      simp only
      omega
    · rw [hqualifier, hcolumn, Span.Before]
      simp only
      omega
    · rw [hcolumn]
      simp only
      omega
    · rw [hcolumn, hstop, hstart]
  · omega

theorem exists_spans_of_mem_qualifiedRefs {masked : Text} {q : QualifiedRef}
    (hq : q ∈ qualifiedRefs masked) : ∃ start stop, q.Spans start stop ∧ stop ≤ masked.length := by
  obtain ⟨h, hh, rfl⟩ := List.mem_map.1 (List.mem_of_mem_filter hq)
  exact ⟨_, _, spans_of_mem_hits hh⟩

/-- A qualified name ends before the next begins. -/
theorem pairwise_qualifiedRefs_apart (masked : Text) :
    (qualifiedRefs masked).Pairwise fun q r => q.columnSpan.Before r.qualifierSpan := by
  refine .filter _ (List.pairwise_map.2 (pairwise_hitsFrom.imp_of_mem fun {h k} hh hk hlt => ?_))
  rw [Span.Before, (spans_of_mem_hits hh).1.stops, ← (spans_of_mem_hits hk).1.starts]
  exact hlt.2

/-! ## Names in quotes -/

theorem length_of_quotedName {before t rest : Text} {v : Text × Bool}
    (h : quotedName before t = some (v, rest)) : rest.length < t.length := by
  unfold quotedName at h
  split at h
  case h_2 => cases h
  split at h
  · cases h
  · rename_i hread
    obtain ⟨-, rfl⟩ := Prod.mk.inj (Option.some.inj h)
    exact Identifier.length_of_read? hread

theorem within_of_mem_quotedNames {masked : Text} {h : Hit Text} (hh : h ∈ quotedNames masked) :
    Span.Within ⟨h.start, h.stop⟩ 0 masked.length := by
  obtain ⟨k, hk, hsome⟩ := List.mem_filterMap.1 hh
  have hwithin := within_of_mem_hitsFrom (fun _ _ _ _ => length_of_quotedName) hk
  rw [List.length_nil, Nat.zero_add] at hwithin
  split at hsome
  · obtain rfl := Option.some.inj hsome
    exact hwithin
  · cases hsome

/-! ## Bare names -/

theorem within_of_mem_selectedNames {masked : Text} {h : Hit Text}
    (hh : h ∈ selectedNames masked) : Span.Within ⟨h.start, h.stop⟩ 0 masked.length := by
  obtain ⟨s, -, hh⟩ := List.mem_flatMap.1 hh
  obtain ⟨k, hk, hsome⟩ := List.mem_filterMap.1 hh
  have hwithin := within_of_mem_hitsFrom (fun before t v rest hread => by
    obtain ⟨-, c, u, rfl, -, -, rfl, -⟩ := bareName_eq_some hread
    exact Nat.lt_succ_of_le (List.length_dropWhile_le _ u)) hk
  have hle : (masked.take s.start).reverse.length +
      (Text.slice masked s.start (expressionEnd masked s.start s.stop)).length ≤ masked.length := by
    simp only [List.length_reverse, Text.slice, List.length_drop, List.length_take]
    omega
  split at hsome
  · obtain rfl := Option.some.inj hsome
    exact ⟨hwithin.start_le, hwithin.lt, hwithin.le_stop.trans hle⟩
  · cases hsome

end QueryGate
