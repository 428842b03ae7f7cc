import QueryGate.Proofs.Repair.Bindings
import QueryGate.Proofs.Sql.Tokenizer

/-!
# Columns behind a qualifier

The second pass looks the column of a qualified name up among the columns of the table that the
qualifier means. The third pass looks no part of a qualified name up, and neither does the last,
but for a column with blanks between it and its dot: to the last pass it is a bare name. So a column
behind a qualifier is left, or it is one of the table that the qualifier names, or it has blanks in
front of it and is taken for a column of any table of the query (`qualified_column_of_table`).
-/

namespace QueryGate

/-! ## Columns of a table -/

/-- The columns of a table do not depend on the case that its name is written in. -/
theorem KnownNames.columnsOf_congr (k : KnownNames) {s t : Text} (h : lower s = lower t) :
    k.columnsOf [s] = k.columnsOf [t] := by
  simp only [KnownNames.columnsOf, List.flatMap_cons, List.flatMap_nil, h]

/-- The columns of a table that the query refers to are some that the last two passes look among. -/
theorem mem_candidates {k : KnownNames} {sql : Text} {r : TableRef} (hr : r ∈ tableRefs sql)
    {n : Text} (hn : n ∈ k.columnsOf [Repair.resolvedTable k sql r]) :
    n ∈ Repair.candidates k sql := by
  have hmem : n ∈ k.columnsOf (distinct ((tableRefs sql).map (Repair.resolvedTable k sql))) := by
    obtain ⟨t, ht, hn⟩ := List.mem_flatMap.1 (mem_distinct n hn)
    obtain rfl := List.mem_singleton.1 ht
    refine mem_distinct_of_mem (List.mem_flatMap.2 ⟨_, ?_, hn⟩)
    exact mem_distinct_of_mem (List.mem_map_of_mem hr)
  have hne := List.isEmpty_eq_false_iff.2 (List.ne_nil_of_mem hmem)
  simp only [Repair.candidates, KnownNames.candidateColumns, hne, Bool.false_eq_true, if_false, hmem]

/-! ## What the second pass looks up at a qualified name -/

section Lookups

variable {k : KnownNames} {sql text : Text} {ts : List Token} {p : Nat × Nat} {x : Identifier}
  {l : Lookup} (h : LexedAs text ts) (hdots : QuotesLackDots ts) (hp : p ∈ qualifiedPlaces ts)
  (hx : ts[p.1]? = some x.token) (hl : l ∈ Lookup.inQualified k sql text)

include h hdots hp hx hl

/-- The column is looked up among those of the table that the qualifier is bound to, or of the one
that a qualifier bound to nothing is taken for. -/
theorem exists_table_of_lookup (hplace : l.span.start = placeOf ts p.2) :
    ∃ table, l.known = k.columnsOf [table] ∧
      (Dictionary.find? (lower x.name) (Repair.bindings k sql (tableRefs sql)) = some table ∨
        Dictionary.find? (lower x.name) (Repair.bindings k sql (tableRefs sql)) = none ∧
          (matchName x.name k.tables sql).map (·.name) = some table) := by
  have hordered := ordered_qualifiedPlaces ts
  obtain ⟨q, hpair, -⟩ := exists_mem_qualifiedRefs_of_pair h.lexed hdots hp
  obtain ⟨q', -, p', hp', hpair', ⟨hsnd, htable⟩ | ⟨hfst, -⟩⟩ :=
    exists_pair_of_inQualified h hdots hl hpair.column hplace
  · obtain rfl : p' = p := by
      refine Prod.ext (hordered.fst_unique (j := p.2) ?_ hp) hsnd
      rw [← hsnd]
      exact hp'
    rwa [Identifier.token_injective (Option.some.inj (hx.symm.trans hpair'.qualifier))]
  · refine (hordered.fst_ne_snd (i := p'.1) (j := p'.2) (m := p.1) hp' ?_).elim
    rw [hfst]
    exact hp

/-- The qualifier is looked up among the tables, and only if it is bound to nothing. -/
theorem unbound_of_lookup (hplace : l.span.start = placeOf ts p.1) :
    l.known = k.tables ∧
      Dictionary.find? (lower x.name) (Repair.bindings k sql (tableRefs sql)) = none := by
  obtain ⟨q, -, p', hp', hpair, ⟨hsnd, -⟩ | ⟨hfst, hknown, hnone⟩⟩ :=
    exists_pair_of_inQualified h hdots hl hx hplace
  · refine ((ordered_qualifiedPlaces ts).fst_ne_snd (i := p.1) (j := p.2) (m := p'.1) hp ?_).elim
    rw [← hsnd]
    exact hp'
  · have hqualifier := hpair.qualifier
    rw [hfst, hx] at hqualifier
    rw [Identifier.token_injective (Option.some.inj hqualifier)]
    exact ⟨hknown, hnone⟩

end Lookups

/-! ## Qualified names back through the passes -/

section Repair

variable {k : KnownNames} {sql : Text} {ts a b d us : List Token} {p : Nat × Nat}
  {x y i : Identifier} {r : TableRef} {l : Lookup}

/-- All references that go by a name mean one table. -/
def OneTable (k : KnownNames) (sql : Text) (key : Text) (r : TableRef) : Prop :=
  ∀ s ∈ tableRefs sql, s.GoesBy k sql key →
    lower (Repair.resolvedTable k sql s) = lower (Repair.resolvedTable k sql r)

instance (key : Text) : Decidable (OneTable k sql key r) :=
  inferInstanceAs (Decidable (∀ s ∈ tableRefs sql, _ → _))

namespace Traced

variable (h : Traced k sql ts a b d us) (hp : p ∈ QueryGate.qualifiedPlaces a)

include h hp

/-- The third pass leaves both parts of a qualified name. -/
theorem part_of_quoted (hbdots : QuotesLackDots b) {n : Nat} (hn : n = p.1 ∨ n = p.2)
    (hi : d[n]? = some i.token) : b[n]? = some i.token := by
  obtain ⟨hb, -⟩ := h.qualifiedPlaces
  rw [← hb] at hp
  obtain ⟨q, hpair, -⟩ := exists_mem_qualifiedRefs_of_pair h.quoted.source.lexed hbdots hp
  refine (h.quoted.exists_origin hi).resolve_right ?_
  rintro ⟨l, hl, hplace, hn', -⟩
  obtain ⟨hbefore, hbehind⟩ := beside_of_inQuoted h.quoted.source hn' hplace hl
  rcases hn with rfl | rfl
  · rw [hpair.dotBehind] at hbehind
    cases hbehind
  · rw [hpair.dotBefore] at hbefore
    cases hbefore

/-- Behind the second pass a qualifier is left. -/
theorem qualifier_of_selected (hbdots : QuotesLackDots b) (hddots : QuotesLackDots d)
    (hx : us[p.1]? = some x.token) : b[p.1]? = some x.token := by
  have hpc := hp
  obtain ⟨-, hc, -⟩ := h.qualifiedPlaces
  rw [← hc] at hpc
  obtain ⟨q, hpair, -⟩ := exists_mem_qualifiedRefs_of_pair h.selected.source.lexed hddots hpc
  refine h.part_of_quoted hp hbdots (.inl rfl) ((h.selected.exists_origin hx).resolve_right ?_)
  rintro ⟨l, hl, hplace, hn, -⟩
  obtain ⟨-, hbehind, -⟩ := beside_of_inSelected h.selected.source hn hplace hl
  rw [hpair.dotBehind] at hbehind
  cases hbehind

/-- The second pass looks a column up among those of the table that its qualifier names behind
it. -/
theorem table_of_column (hadots : QuotesLackDots a) (hx : b[p.1]? = some x.token)
    (hr : r ∈ tableRefs sql) (hgoes : r.GoesBy k sql (lower x.name))
    (hone : OneTable k sql (lower x.name) r)
    (hqualifier : a[p.1]? = some x.token ∨ lower x.name = lower (Repair.resolvedTable k sql r))
    (hl : l ∈ Lookup.inQualified k sql (textOf a)) (hplace : l.span.start = placeOf a p.2) :
    l.known = k.columnsOf [Repair.resolvedTable k sql r] := by
  have hlexed := h.qualified.source
  obtain ⟨q, hpair, -⟩ := exists_mem_qualifiedRefs_of_pair hlexed.lexed hadots hp
  have hz := hpair.qualifier
  obtain ⟨table, hknown, hfound | ⟨hnone, hmatch⟩⟩ :=
    exists_table_of_lookup hlexed hadots hp hz hl hplace
  · -- A bound qualifier is left, and its name is bound to a reference that goes by it.
    have hkept : b[p.1]? = some q.qualifier.token := by
      refine (h.qualified.exists_lookup hz).resolve_right ?_
      rintro ⟨l', hl', -, hplace', -⟩
      obtain ⟨-, hnone⟩ := unbound_of_lookup hlexed hadots hp hz hl' hplace'
      rw [hnone] at hfound
      cases hfound
    obtain rfl := Identifier.token_injective (Option.some.inj (hx.symm.trans hkept))
    obtain ⟨s, hs, hsgoes, rfl⟩ := exists_ref_of_bound hfound
    rw [hknown, k.columnsOf_congr (hone s hs hsgoes)]
  · -- A qualifier that is bound to nothing is corrected to the name of the table.
    have hunbound : a[p.1]? ≠ some x.token := by
      intro hsame
      obtain rfl := Identifier.token_injective (Option.some.inj (hsame.symm.trans hz))
      have hbound := isSome_bound hr hgoes
      rw [hnone] at hbound
      cases hbound
    obtain ⟨l', hl', hplace', hi, m, hm, rfl⟩ := (h.qualified.exists_origin hx).resolve_left hunbound
    obtain ⟨hknown', -⟩ := unbound_of_lookup hlexed hadots hp hz hl' hplace'
    rw [Identifier.token_injective (Option.some.inj (hi.symm.trans hz)), hknown'] at hm
    rw [hm] at hmatch
    obtain rfl : m.name = table := Option.some.inj hmatch
    rw [hknown, ← k.columnsOf_congr (hqualifier.resolve_left hunbound)]
    rfl

/-- In front of the last pass a column is as in the query or one of the table that its qualifier
names in the end. -/
theorem column_of_quoted (hadots : QuotesLackDots a) (hbdots : QuotesLackDots b)
    (hx : b[p.1]? = some x.token) (hr : r ∈ tableRefs sql) (hgoes : r.GoesBy k sql (lower x.name))
    (hone : OneTable k sql (lower x.name) r)
    (hqualifier : a[p.1]? = some x.token ∨ lower x.name = lower (Repair.resolvedTable k sql r))
    (hno : ∀ s ∈ tableRefs sql, s.start ≠ placeOf ts p.2) (hy : d[p.2]? = some y.token) :
    ts[p.2]? = some y.token ∨
      y.effective = y.name ∧ y.name ∈ k.columnsOf [Repair.resolvedTable k sql r] := by
  rcases h.qualified.exists_origin (h.part_of_quoted hp hbdots (.inr rfl) hy) with
    ha | ⟨l, hl, hplace, hi, m, hm, rfl⟩
  · refine .inl ((h.tables.exists_origin ha).resolve_right ?_)
    rintro ⟨l, hl, hplace, -⟩
    obtain ⟨s, hs, rfl⟩ := List.mem_map.1 hl
    exact hno s hs hplace
  · refine .inr ⟨Identifier.effective_rendered _ _, ?_⟩
    rw [← h.table_of_column hp hadots hx hr hgoes hone hqualifier hl hplace]
    exact mem_of_matchName hm

end Traced

end Repair

/-- A column behind a qualifier that names a table reference is left, or it is a column of the table,
or there are blanks in front of it and it is taken for a column of any table of the query. Neither
part is the name of a table reference itself, the references of the name mean one table, and a
corrected qualifier is no alias. -/
theorem qualified_column_of_table {k : KnownNames} (hk : k.Writable) {sql : Text}
    {ts : List Token} (h : ReadAs sql ts) :
    ∃ us : List Token, LexedAs (repair k sql).sql us ∧ us.length = ts.length ∧
      ∀ q ∈ qualifiedRefs (maskLiterals (repair k sql).sql), ∃ i j : Nat,
        (us[i]? = some q.qualifier.token ∧ placeOf us i = q.qualifierSpan.start) ∧
        (us[j]? = some q.column.token ∧ placeOf us j = q.columnSpan.start) ∧
        ∀ r ∈ tableRefs sql, r.GoesBy k sql (lower q.qualifier.name) →
          OneTable k sql (lower q.qualifier.name) r →
          (ts[i]? = us[i]? ∨
            lower q.qualifier.name = lower (Repair.resolvedTable k sql r)) →
          (∀ s ∈ tableRefs sql, s.start ≠ placeOf ts i ∧ s.start ≠ placeOf ts j) →
          ts[j]? = us[j]? ∨
            q.column.effective ∈ k.columnsOf [Repair.resolvedTable k sql r] ∨
            ∃ w, ts[j]? = some (.word w) ∧
              ((maskLiterals (repair k sql).sql).take q.columnSpan.start).getLast? ≠ some '.' ∧
              (matchName w (Repair.candidates k sql) sql).map (·.name) =
                some q.column.effective := by
  obtain ⟨a, b, d, us, htraced⟩ := exists_traced hk h
  obtain ⟨hadots, hbdots, hddots, hudots⟩ := htraced.dots hk h.dots
  have hus := htraced.selected.target
  have hlexed := hus.lexed
  refine ⟨us, htraced.output ▸ hus, ?_, fun q hq => ?_⟩
  · rw [htraced.selected.length_eq, htraced.quoted.length_eq, htraced.qualified.length_eq,
      htraced.tables.length_eq]
  rw [← htraced.output, ← hus.mask] at hq
  obtain ⟨p, hp, hpair, -⟩ := exists_pair_of_mem_qualifiedRefs hlexed hudots hq
  rw [htraced.qualifiedPlaces.2.2] at hp
  refine ⟨p.1, p.2, ⟨hpair.qualifier, hpair.qualifierPlace⟩, ⟨hpair.column, hpair.columnPlace⟩, ?_⟩
  intro r hr hgoes hone hqualifier hno
  have hx := htraced.qualifier_of_selected hp hbdots hddots hpair.qualifier
  have hqualifier' : a[p.1]? = some q.qualifier.token ∨
      lower q.qualifier.name = lower (Repair.resolvedTable k sql r) := by
    refine hqualifier.imp_left fun hsame => ?_
    rw [hpair.qualifier] at hsame
    refine (htraced.tables.exists_lookup hsame).resolve_right ?_
    rintro ⟨l, hl, -, hplace, -⟩
    obtain ⟨s, hs, rfl⟩ := List.mem_map.1 hl
    exact (hno s hs).1 hplace
  have hcolumn {y : Identifier} (hy : d[p.2]? = some y.token) :=
    htraced.column_of_quoted hp hadots hbdots hx hr hgoes hone hqualifier'
      (fun s hs => (hno s hs).2) hy
  rcases htraced.selected.exists_origin hpair.column with hc | ⟨l, hl, hplace, hy, m, hm, heq⟩
  · rcases hcolumn hc with hsame | ⟨heffective, hmem⟩
    · exact .inl (hsame.trans hpair.column.symm)
    · exact .inr (.inl (heffective ▸ hmem))
  obtain ⟨w, hw, hi, -, hknown, -⟩ := mem_inSelected hl
  rw [heq, Identifier.effective_rendered]
  rw [hknown] at hm
  rcases hcolumn hy with hsame | ⟨-, hmem⟩
  · refine .inr (.inr ⟨w.value, ?_, fun hdot => ?_, ?_⟩)
    · rw [hsame, hi]
      rfl
    · -- The character in front of the column is no dot behind the last pass if it is none before.
      obtain ⟨hbefore, -⟩ := beside_of_inSelected htraced.selected.source hy hplace hl
      have hshape := htraced.selected.map_shape fun l => shape_inSelected
      rw [← htraced.output, ← hus.mask, ← hpair.columnPlace, take_placeOf] at hdot
      refine hbefore (getLast?_congr (fun t ht => hlexed.fit t (List.mem_of_mem_take ht))
        (fun t ht => htraced.selected.source.lexed.fit t (List.mem_of_mem_take ht)) ?_ (by decide)
        hdot)
      rw [List.map_take, List.map_take, hshape]
    · rw [hi] at hm
      rw [hm]
      rfl
  · -- A column of the table is taken for itself.
    have hne : l.identifier.name ≠ [] := by
      have hfit := htraced.selected.source.lexed.fit _ (List.mem_of_getElem? hy)
      rw [hi] at hfit ⊢
      exact hfit.1
    rw [matchName_of_mem hne (mem_candidates hr hmem)] at hm
    exact .inr (.inl (Option.some.inj hm ▸ hmem))

/-- A column is corrected to one of its table, although another table has a column that is spelled
like it. -/
theorem qualified_column_corrected :
    let k : KnownNames := ⟨["city", "river"], [("city", ["name"]), ("river", ["nme"])]⟩
    let sql : Text := "SELECT c .nme FROM city c, river"
    let q : QualifiedRef := ⟨⟨"c", false⟩, ⟨"name", false⟩, ⟨7, 8⟩, ⟨10, 14⟩, false⟩
    let r : TableRef := ⟨"city", none, some "c", false, 19, 23, "FROM"⟩
    (repair k sql).sql = "SELECT c .name FROM city c, river" ∧ r ∈ tableRefs sql ∧
      q ∈ qualifiedRefs (maskLiterals (repair k sql).sql) ∧
      q.column.effective ∈ k.columnsOf [Repair.resolvedTable k sql r] := by
  intro k sql q r
  have hk : k.Writable := KnownNames.forall_knows_iff.2 (by decide)
  have h : ReadAs sql (tokens sql) := (tokensOf_of_unmarked (by decide +kernel)).readAs
  have hout : (repair k sql).sql = "SELECT c .name FROM city c, river" := by decide +kernel
  have hr : r ∈ tableRefs sql := by decide +kernel
  have hq : q ∈ qualifiedRefs (maskLiterals (repair k sql).sql) := by
    rw [hout]
    decide +kernel
  obtain ⟨us, hus, -, hall⟩ := qualified_column_of_table hk h
  obtain ⟨i, j, ⟨hi, hi'⟩, ⟨hj, hj'⟩, hcolumn⟩ := hall q hq
  -- The tokens of the output are these, and the parts of the name have the numbers 2 and 5.
  obtain rfl : us = tokens "SELECT c .name FROM city c, river" := by
    have hout' : LexedAs (repair k sql).sql (tokens "SELECT c .name FROM city c, river") := by
      rw [hout]
      exact (tokensOf_of_unmarked (by decide +kernel)).lexedAs
    exact hus.lexed.unique hout'.lexed (hus.text.trans hout'.text.symm)
      (hus.mask.trans hout'.mask.symm)
  obtain rfl : i = 2 := hus.lexed.placeOf_injective (u := .word "c") hi (by decide +kernel)
    (hi'.trans (by decide +kernel))
  obtain rfl : j = 5 := hus.lexed.placeOf_injective (u := .word "name") hj (by decide +kernel)
    (hj'.trans (by decide +kernel))
  refine ⟨hout, hr, hq, ?_⟩
  rcases hcolumn r hr (by decide +kernel) (by decide +kernel) (.inl (by decide +kernel))
    (by decide +kernel) with hsame | hmem | ⟨w, -, hdot, -⟩
  · exact absurd hsame (by decide +kernel)
  · exact hmem
  · exact absurd (by decide +kernel) hdot

/-- Behind a dot and a blank the last pass takes the column of `a` for a column of `b`. -/
theorem spaced_column_of_other_table :
    let k : KnownNames := ⟨["a", "b"], [("a", ["x"]), ("b", ["name"])]⟩
    let sql : Text := "SELECT a. nme FROM a, b"
    (repair k sql).sql = "SELECT a. name FROM a, b" ∧
      (qualifiedRefs (maskLiterals (repair k sql).sql)).map (fun q => (q.qualifier, q.column)) =
        [(⟨"a", false⟩, ⟨"name", false⟩)] ∧
      (tableRefs sql).map (fun r => (r.name, Repair.resolvedTable k sql r)) =
        [(("a" : Text), ("a" : Text)), ("b", "b")] ∧
      k.columnsOf ["a"] = ["x"] := by
  decide +kernel

end QueryGate
