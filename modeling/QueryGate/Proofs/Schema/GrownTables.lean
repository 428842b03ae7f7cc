import Mathlib.Data.List.Forall2
import QueryGate.ColumnCheck
import QueryGate.Proofs.Repair.Renames

/-!
# Tables that have grown

A query whose columns all exist is not refused after the schema has grown: tables that have further
columns still have those they had, and a table under a new name takes no name away from another
(`checkColumns_isValid_of_grown`). The check is told by what it asks of each reference, each name
and each qualified column (`ColumnCheck.Accepts`), and each of these is kept on its own. Tables that
differ in case only do no harm: the last of them counts, before and after.
-/

namespace QueryGate

/-! ## Further columns and tables -/

/-- A table under the same name, with further columns behind those that it had. -/
structure Table.Extends (t u : Table) : Prop where
  name : u.name = t.name
  columns : t.columns <+: u.columns

namespace Table.Extends

variable {t u : Table} (h : t.Extends u)

include h

theorem mem_columnNames {name : Text} (hname : name ∈ t.columnNames) : name ∈ u.columnNames :=
  (h.columns.map (·.name)).subset hname

theorem column?_isSome {name : Text} (hsome : (t.column? name).isSome = true) :
    (u.column? name).isSome = true := by
  obtain ⟨c, hc, hsame⟩ := List.find?_isSome.1 hsome
  exact List.find?_isSome.2 ⟨c, h.columns.subset hc, hsame⟩

end Table.Extends

theorem exists_mem_of_forall₂ {α β : Type} {R : α → β → Prop} {xs : List α} {ys : List β}
    (h : List.Forall₂ R xs ys) {a : α} (ha : a ∈ xs) : ∃ b ∈ ys, R a b := by
  induction h with
  | nil => cases ha
  | cons hxy _ ih =>
    rcases List.mem_cons.1 ha with rfl | ha
    · exact ⟨_, List.mem_cons_self, hxy⟩
    · obtain ⟨b, hb, hab⟩ := ih ha
      exact ⟨b, List.mem_cons_of_mem _ hb, hab⟩

/-- Where two lists agree on a test, the first hits correspond. -/
theorem exists_find?_of_forall₂ {α β : Type} {R : α → β → Prop} {p : α → Bool} {q : β → Bool}
    (hagree : ∀ a b, R a b → q b = p a) {xs : List α} {ys : List β} (h : List.Forall₂ R xs ys)
    {a : α} (ha : xs.find? p = some a) : ∃ b, ys.find? q = some b ∧ R a b := by
  induction h with
  | nil => cases ha
  | @cons x y xs ys hxy h ih =>
    rw [List.find?_cons] at ha ⊢
    rw [hagree x y hxy]
    split at ha
    · exact ⟨y, rfl, Option.some.inj ha ▸ hxy⟩
    · exact ih ha

section Grown

variable {tables grown added : List Table} (hgrown : List.Forall₂ Table.Extends tables grown)
  (hadded : ∀ u ∈ added, ∀ t ∈ tables, sameName t.name u.name = false)

include hgrown hadded

/-- A name still stands for the table that it stood for. -/
theorem exists_findTable?_of_grown {name : Text} {t : Table}
    (ht : findTable? tables name = some t) :
    ∃ u, findTable? (grown ++ added) name = some u ∧ t.Extends u := by
  have hnone : added.reverse.find? (fun u => sameName u.name name) = none := by
    refine List.find?_eq_none.2 fun u hu hsame => ?_
    have hmem := List.mem_reverse.1 (List.mem_of_find?_eq_some ht)
    have hname := List.find?_some ht
    have := hadded u (List.mem_reverse.1 hu) t hmem
    simp only [sameName, beq_iff_eq, beq_eq_false_iff_ne] at hsame hname this
    exact this (hname.trans hsame.symm)
  rw [findTable?, List.reverse_append, List.find?_append, hnone, Option.none_or]
  exact exists_find?_of_forall₂ (fun a b hab => by rw [hab.name]) (List.rel_reverse hgrown) ht

end Grown

/-! ## What the check asks -/

namespace ColumnCheck

/-- A column without a qualifier is looked for in a table that the query names, or in every table if
it names none that is known. -/
def IsSearched (tables : List Table) (refs : List TableRef) (t : Table) : Prop :=
  (∃ r ∈ refs, findTable? tables r.name = some t) ∨
    (∀ r ∈ refs, findTable? tables r.name = none) ∧ t ∈ tables

/-- Every table that a query names is known, every name that has to be a column is one of a table
that is searched, and every qualified column one of the table that its qualifier stands for. -/
structure Accepts (tables : List Table) (sql : Text) : Prop where
  tables_known : ∀ r ∈ tableRefs sql, ∃ t, findTable? tables r.name = some t
  names_known : ∀ name ∈ candidates (maskLiterals sql) (maskQuoted (maskLiterals sql)),
    lower name ∈ declaredNames (maskLiterals sql) (maskQuoted (maskLiterals sql)) ++
        Dictionary.keys (bindings tables (tableRefs sql)) ∨
      isReserved name = true ∨ name.length < 2 ∨
      ∃ t, IsSearched tables (tableRefs sql) t ∧ lower name ∈ t.columnNames.map lower
  qualified_known : ∀ q ∈ qualifiedRefs (maskLiterals sql), ∀ t,
    Dictionary.find? (lower q.qualifier.name) (bindings tables (tableRefs sql)) = some (some t) →
      (t.column? q.column.name).isSome = true

theorem distinct_eq_nil_iff {α : Type} [DecidableEq α] {xs : List α} :
    distinct xs = [] ↔ xs = [] := by
  simp only [List.eq_nil_iff_forall_not_mem]
  exact forall_congr' fun x => not_congr ⟨mem_distinct x, mem_distinct_of_mem⟩

theorem mem_columnNamesOf_map {tables : List Table} {name : Text} :
    name ∈ (columnNamesOf tables).map lower ↔ ∃ t ∈ tables, name ∈ t.columnNames.map lower := by
  simp only [List.mem_map]
  constructor
  · rintro ⟨c, hc, rfl⟩
    obtain ⟨t, ht, hc⟩ := List.mem_flatMap.1 (mem_distinct c hc)
    exact ⟨t, ht, c, hc, rfl⟩
  · rintro ⟨t, ht, c, hc, rfl⟩
    exact ⟨c, mem_distinct_of_mem (List.mem_flatMap.2 ⟨t, ht, hc⟩), rfl⟩

/-- The columns without a qualifier that there are. -/
theorem mem_available_iff {tables : List Table} {refs : List TableRef} {name : Text} :
    name ∈ (columnNamesOf (if (distinct (refs.filterMap fun r => findTable? tables r.name)).isEmpty
        then tables else distinct (refs.filterMap fun r => findTable? tables r.name))).map lower ↔
      ∃ t, IsSearched tables refs t ∧ name ∈ t.columnNames.map lower := by
  rw [mem_columnNamesOf_map]
  refine exists_congr fun t => and_congr_left fun _ => ?_
  simp only [List.isEmpty_iff, distinct_eq_nil_iff, List.filterMap_eq_nil_iff]
  split
  · rename_i hnone
    refine ⟨fun ht => .inr ⟨hnone, ht⟩, fun h => h.elim ?_ And.right⟩
    rintro ⟨r, hr, ht⟩
    rw [hnone r hr] at ht
    cases ht
  · rename_i hsome
    rw [IsSearched, or_iff_left (fun h => hsome h.1), ← List.mem_filterMap]
    exact ⟨mem_distinct t, mem_distinct_of_mem⟩

theorem qualifiedMisses_eq_nil_iff {masked : Text} {bound : Bindings} :
    qualifiedMisses masked bound = [] ↔ ∀ q ∈ qualifiedRefs masked, ∀ t,
      Dictionary.find? (lower q.qualifier.name) bound = some (some t) →
        (t.column? q.column.name).isSome = true := by
  rw [qualifiedMisses, List.filterMap_eq_nil_iff]
  refine forall₂_congr fun q _ => ?_
  split
  · rename_i t ht
    rw [ht]
    simp [Option.isSome_iff_ne_none]
  · rename_i hother
    exact iff_of_true rfl fun t ht => absurd ht (hother t)

/-- The check accepts a query exactly if it finds all that it asks for. -/
theorem checkColumns_isValid_iff {tables : List Table} {sql : Text} :
    (checkColumns tables sql).isValid = true ↔ allBlank sql = true ∨ Accepts tables sql := by
  unfold checkColumns
  split
  · rename_i h
    exact iff_of_true rfl (.inl h)
  rename_i hblank
  rw [or_iff_right hblank]
  simp only [ColumnReport.isValid]
  rw [Bool.and_eq_true, List.isEmpty_iff, List.isEmpty_iff, distinct_eq_nil_iff,
    distinct_eq_nil_iff, List.map_eq_nil_iff, List.append_eq_nil_iff, List.filter_eq_nil_iff,
    List.filter_eq_nil_iff, qualifiedMisses_eq_nil_iff]
  simp only [← Bool.not_or, Bool.not_eq_true', Bool.not_eq_false, Bool.or_eq_true, or_assoc,
    List.contains_iff_mem, decide_eq_true_eq, mem_available_iff, Option.isNone_iff_eq_none,
    Option.ne_none_iff_exists']
  exact ⟨fun ⟨htables, hnames, hqualified⟩ => ⟨htables, hnames, hqualified⟩,
    fun h => ⟨h.tables_known, h.names_known, h.qualified_known⟩⟩

/-! ## What the check asks after the schema has grown -/

/-- A name stands for a table, and then for that table as it has grown. -/
structure Corresponds (b c : Text × Option Table) : Prop where
  key : c.1 = b.1
  table : ∃ t u, b.2 = some t ∧ c.2 = some u ∧ t.Extends u

section Bound

variable {bound bound' : Bindings} (h : List.Forall₂ Corresponds bound bound')

include h

theorem keys_eq_of_corresponds : Dictionary.keys bound' = Dictionary.keys bound := by
  induction h with
  | nil => rfl
  | cons hbc _ ih => exact congrArg₂ List.cons hbc.key ih

theorem exists_find?_of_corresponds {key : Text} {u : Table}
    (hu : Dictionary.find? key bound' = some (some u)) :
    ∃ t, Dictionary.find? key bound = some (some t) ∧ t.Extends u := by
  induction h with
  | nil => cases hu
  | @cons b c _ _ hbc _ ih =>
    obtain ⟨k, table⟩ := b
    obtain ⟨k', table'⟩ := c
    obtain ⟨rfl, t, u', rfl, rfl, hext⟩ := hbc
    by_cases hkey : k' = key
    · rw [Dictionary.find?, if_pos hkey] at hu
      obtain rfl := Option.some.inj (Option.some.inj hu)
      exact ⟨t, by rw [Dictionary.find?, if_pos hkey], hext⟩
    · rw [Dictionary.find?, if_neg hkey] at hu ⊢
      exact ih hu

end Bound

/-- What a further reference binds. -/
theorem bindings_concat (tables : List Table) (refs : List TableRef) (r : TableRef) :
    bindings tables (refs ++ [r]) =
      (r.aliasName.map fun a => (lower a, findTable? tables r.name)).toList ++
        (lower r.name, findTable? tables r.name) :: bindings tables refs := by
  rw [bindings, List.foldl_append, List.foldl_cons, List.foldl_nil]
  cases r.aliasName <;> rfl

section Grown

variable {tables grown added : List Table} {refs : List TableRef}
  (hgrown : List.Forall₂ Table.Extends tables grown)
  (hadded : ∀ u ∈ added, ∀ t ∈ tables, sameName t.name u.name = false)
  (hknown : ∀ r ∈ refs, ∃ t, findTable? tables r.name = some t)

include hgrown hadded hknown

/-- The same names are bound, each to the table that it was bound to. -/
theorem forall₂_bindings_of_grown :
    List.Forall₂ Corresponds (bindings tables refs) (bindings (grown ++ added) refs) := by
  induction refs using List.reverseRecOn with
  | nil => exact .nil
  | append_singleton refs r ih =>
    obtain ⟨t, ht⟩ := hknown r List.mem_concat_self
    obtain ⟨u, hu, hext⟩ := exists_findTable?_of_grown hgrown hadded ht
    have hpair (key : Text) : Corresponds (key, some t) (key, some u) :=
      ⟨rfl, t, u, rfl, rfl, hext⟩
    have hbefore := ih fun r hr => hknown r (List.mem_append_left _ hr)
    rw [bindings_concat, bindings_concat, ht, hu]
    cases r.aliasName with
    | none => exact .cons (hpair _) hbefore
    | some a => exact .cons (hpair _) (.cons (hpair _) hbefore)

/-- Each table that was searched is searched as it has grown. -/
theorem exists_isSearched_of_grown {t : Table} (ht : IsSearched tables refs t) :
    ∃ u, IsSearched (grown ++ added) refs u ∧ t.Extends u := by
  rcases ht with ⟨r, hr, ht⟩ | ⟨hnone, ht⟩
  · obtain ⟨u, hu, hext⟩ := exists_findTable?_of_grown hgrown hadded ht
    exact ⟨u, .inl ⟨r, hr, hu⟩, hext⟩
  · obtain ⟨u, hu, hext⟩ := exists_mem_of_forall₂ hgrown ht
    refine ⟨u, .inr ⟨fun r hr => ?_, List.mem_append_left added hu⟩, hext⟩
    obtain ⟨t', ht'⟩ := hknown r hr
    rw [hnone r hr] at ht'
    cases ht'

end Grown

theorem Accepts.of_grown {tables grown added : List Table} {sql : Text}
    (hgrown : List.Forall₂ Table.Extends tables grown)
    (hadded : ∀ u ∈ added, ∀ t ∈ tables, sameName t.name u.name = false)
    (h : Accepts tables sql) : Accepts (grown ++ added) sql := by
  have hbound := forall₂_bindings_of_grown hgrown hadded h.tables_known
  refine ⟨fun r hr => ?_, fun name hname => ?_, fun q hq u hu => ?_⟩
  · obtain ⟨t, ht⟩ := h.tables_known r hr
    obtain ⟨u, hu, -⟩ := exists_findTable?_of_grown hgrown hadded ht
    exact ⟨u, hu⟩
  · rw [keys_eq_of_corresponds hbound]
    refine (h.names_known name hname).imp_right (.imp_right (.imp_right ?_))
    rintro ⟨t, ht, hcolumn⟩
    obtain ⟨u, hu, hext⟩ := exists_isSearched_of_grown hgrown hadded h.tables_known ht
    obtain ⟨c, hc, hlower⟩ := List.mem_map.1 hcolumn
    exact ⟨u, hu, List.mem_map.2 ⟨c, hext.mem_columnNames hc, hlower⟩⟩
  · obtain ⟨t, ht, hext⟩ := exists_find?_of_corresponds hbound hu
    exact hext.column?_isSome (h.qualified_known q hq t ht)

end ColumnCheck

/-- A query that is accepted is accepted after columns have come to the end of tables, and tables
under new names to the end of the schema. -/
theorem checkColumns_isValid_of_grown {tables grown added : List Table} {sql : Text}
    (hgrown : List.Forall₂ Table.Extends tables grown)
    (hadded : ∀ u ∈ added, ∀ t ∈ tables, sameName t.name u.name = false)
    (h : (checkColumns tables sql).isValid = true) :
    (checkColumns (grown ++ added) sql).isValid = true := by
  rw [ColumnCheck.checkColumns_isValid_iff] at h ⊢
  exact h.imp_right (ColumnCheck.Accepts.of_grown hgrown hadded)

/-- A new table that is called like an alias does not change what the alias stands for. -/
theorem checkColumns_isValid_new_table_like_alias :
    let orders : Table := ⟨"orders", [{ name := "id" }, { name := "total" }]⟩
    let users : Table := ⟨"Users", [{ name := "id" }, { name := "Name" }]⟩
    let orders' : Table := ⟨"orders", [{ name := "id" }, { name := "total" }, { name := "note" }]⟩
    let o : Table := ⟨"o", [{ name := "note" }]⟩
    let sql : Text :=
      "SELECT o.total, \"Name\" FROM orders o JOIN users ON o.id = users.id ORDER BY total"
    List.Forall₂ Table.Extends [orders, users] [orders', users] ∧
      (∀ u ∈ [o], ∀ t ∈ [orders, users], sameName t.name u.name = false) ∧
      (checkColumns [orders, users] sql).isValid = true ∧
      (checkColumns ([orders', users] ++ [o]) sql).isValid = true := by
  intro orders users orders' o sql
  have hgrown : List.Forall₂ Table.Extends [orders, users] [orders', users] :=
    .cons ⟨rfl, List.prefix_append orders.columns [{ name := "note" }]⟩
      (.cons ⟨rfl, List.prefix_refl _⟩ .nil)
  have hadded : ∀ u ∈ [o], ∀ t ∈ [orders, users], sameName t.name u.name = false := by
    decide +kernel
  have hvalid : (checkColumns [orders, users] sql).isValid = true := by decide +kernel
  exact ⟨hgrown, hadded, hvalid, checkColumns_isValid_of_grown hgrown hadded hvalid⟩

end QueryGate
