import QueryGate.Proofs.Repair.Bindings
import QueryGate.Proofs.Sql.Tokenizer

/-!
# Qualifiers and the tables they name

A qualifier that has the name of a table reference is bound by it, so that no pass corrects it. The
table pass corrects the reference. So the two go on naming the same table exactly if the name of the
reference is left (`qualifier_names_source_iff`).
-/

namespace QueryGate

section Repair

variable {k : KnownNames} {sql : Text} {ts a b c us : List Token} {r : TableRef}

/-- Identifiers that the database sees as one are spelled alike, case aside. -/
theorem Identifier.lower_name_eq {i j : Identifier} (h : i.effective = j.effective) :
    lower i.name = lower j.name := by
  have hlower (i : Identifier) : lower i.effective = lower i.name := by
    unfold Identifier.effective
    split
    · rfl
    · exact lower_lower i.name
  rw [← hlower i, h, hlower]

/-- What the table pass makes of the name of a reference. -/
theorem Step.exists_table {names : Text → Prop}
    (h : Step names sql (Lookup.tables k (tableRefs sql)) ts a) (hr : r ∈ tableRefs sql) {j : Nat}
    (hj : ts[j]? = some r.identifier.token) (hplace : placeOf ts j = r.start) :
    ∃ x : Identifier, a[j]? = some x.token ∧ r.GoesBy k sql (lower x.name) ∧
      (x.effective = r.identifier.effective ↔
        Repair.correction? "Table" r.identifier ⟨r.start, r.stop⟩ k.tables sql = none) := by
  obtain ⟨l, hl⟩ : ∃ l : Lookup, l = ⟨"Table", r.identifier, ⟨r.start, r.stop⟩, k.tables⟩ := ⟨_, rfl⟩
  have hmem : l ∈ Lookup.tables k (tableRefs sql) := hl ▸ List.mem_map_of_mem hr
  have hcorrection : l.replacement? sql = none ↔
      Repair.correction? "Table" r.identifier ⟨r.start, r.stop⟩ k.tables sql = none := by
    rw [Lookup.replacement?_eq_none_iff, hl]
    rfl
  obtain ⟨u, hu, ⟨l', hl', hplace', hrep⟩ | ⟨rfl, hnone⟩⟩ := h.exists_becomes hj
  · have hstands := (h.fits l' hl').stands
    rw [hplace'] at hstands
    obtain ⟨hi, -⟩ := hstands.unique h.source.lexed (.of_number hj)
    obtain ⟨s, -, rfl⟩ := List.mem_map.1 hl'
    have hsame : l.replacement? sql = some u := by
      rw [← hrep, hl]
      simp only [Lookup.replacement?] at hi ⊢
      rw [hi]
    obtain ⟨m, hm, hne, rfl⟩ := Lookup.exists_name_of_replacement? hrep
    simp only at hm hne hi
    rw [hi] at hm hne hu
    refine ⟨.rendered m.name r.quoted, by rw [hu, Identifier.token_rendered]; rfl, .inl ?_, ?_⟩
    · rw [Repair.resolvedTable, show r.name = r.identifier.name from rfl, hm]
      rfl
    · rw [Identifier.effective_rendered, ← hcorrection, hsame]
      exact iff_of_false (Ne.symm hne) nofun
  · refine ⟨r.identifier, hu, .inr (.inl rfl), ?_⟩
    refine iff_of_true rfl (hcorrection.1 (hnone l hmem ?_))
    rw [hl, hplace]

/-- A token that is no part of a qualified name of the query is left by the second pass, and so is
a qualifier that is bound. -/
theorem Traced.kept_in_qualified (h : Traced k sql ts a b c us) (hts : PlainWords ts)
    (hdots : QuotesLackDots ts) (hadots : QuotesLackDots a)
    (hshape : a.map Token.shape = ts.map Token.shape) {n : Nat} {i : Identifier}
    (hn : a[n]? = some i.token)
    (hcolumn : ∀ q ∈ qualifiedRefs (maskOf ts), q.columnSpan.start ≠ placeOf ts n)
    (hqualifier : (Dictionary.find? (lower i.name)
        (Repair.bindings k sql (tableRefs sql))).isSome = true ∨
      ∀ q ∈ qualifiedRefs (maskOf ts), q.qualifierSpan.start ≠ placeOf ts n) :
    b[n]? = some i.token := by
  refine (h.qualified.exists_lookup hn).resolve_right ?_
  rintro ⟨l, hl, -, hplace, -⟩
  obtain ⟨q, hq, p, hp, hpair, hcase⟩ :=
    exists_pair_of_inQualified h.tables.target hadots hl hn hplace
  have hcall := (List.mem_filter.1 hq).2
  obtain ⟨q', hq', hpair'⟩ := h.tables.exists_qualifiedRef hts hdots hshape (by simpa using hcall) hp
    hpair
  rcases hcase with ⟨rfl, -⟩ | ⟨rfl, -, hnone⟩
  · exact hcolumn q' hq' hpair'.columnPlace.symm
  · rcases hqualifier with hbound | hno
    · have hi := Identifier.token_injective (Option.some.inj (hn.symm.trans hpair.qualifier))
      rw [hi, hnone] at hbound
      cases hbound
    · exact hno q' hq' hpair'.qualifierPlace.symm

end Repair

/-- A qualifier that has the name of a table reference is left, and it goes on naming the table of
the reference exactly if the reference is left as well. The qualifier is none itself that a table is
named by, and the reference is not read as a column with a qualifier. -/
theorem qualifier_names_source_iff {k : KnownNames} (hk : k.Writable) {sql : Text}
    {ts : List Token} (h : ReadAs sql ts) (hts : PlainWords ts) {q : QualifiedRef}
    (hq : q ∈ qualifiedRefs (maskLiterals sql)) {r : TableRef} (hr : r ∈ tableRefs sql)
    (hsame : q.qualifier.effective = r.identifier.effective)
    (hqualifier : ∀ s ∈ tableRefs sql, s.start ≠ q.qualifierSpan.start)
    (hsource : ∀ p ∈ qualifiedRefs (maskLiterals sql), p.columnSpan.start ≠ r.start) :
    ∃ (us : List Token) (i j : Nat) (x : Identifier),
      LexedAs (repair k sql).sql us ∧ us.length = ts.length ∧
      (ts[i]? = some q.qualifier.token ∧ placeOf ts i = q.qualifierSpan.start) ∧
      (ts[j]? = some r.identifier.token ∧ placeOf ts j = r.start) ∧
      us[i]? = some q.qualifier.token ∧ us[j]? = some x.token ∧
      (x.effective = q.qualifier.effective ↔
        Repair.correction? "Table" r.identifier ⟨r.start, r.stop⟩ k.tables sql = none) := by
  obtain ⟨a, b, c, us, htraced⟩ := exists_traced hk h
  have hrefs := h.toLexedAs.tableRefs h.sources
  obtain ⟨hadots, -⟩ := htraced.dots hk h.dots
  have hshape := htraced.tables.map_shape fun l => shape_tables hrefs hts
  rw [← h.mask] at hq hsource
  obtain ⟨p, hp, hpair, -⟩ := exists_pair_of_mem_qualifiedRefs h.lexed h.dots hq
  obtain ⟨j, hj, hplace⟩ := (hrefs.refIn r hr).stands.exists_number
  -- The qualifier and the name of the reference are bound, whatever the table pass makes of it.
  have hbound {i : Identifier} (hi : r.GoesBy k sql (lower i.name)) :
      (Dictionary.find? (lower i.name) (Repair.bindings k sql (tableRefs sql))).isSome = true :=
    isSome_bound hr hi
  have hgoes : r.GoesBy k sql (lower q.qualifier.name) :=
    .inr (.inl (Identifier.lower_name_eq hsame).symm)
  have hlater {n : Nat} {i : Identifier} (hn : b[n]? = some i.token)
      (hi : r.GoesBy k sql (lower i.name)) : us[n]? = some i.token :=
    htraced.selected.selected_kept_of_bound
      (htraced.quoted.quoted_kept_of_bound hn (hbound hi)) (hbound hi)
  have hqualifierKept : us[p.1]? = some q.qualifier.token := by
    have ha : a[p.1]? = some q.qualifier.token := by
      refine (htraced.tables.exists_lookup hpair.qualifier).resolve_right ?_
      rintro ⟨l, hl, -, hstart, -⟩
      obtain ⟨s, hs, rfl⟩ := List.mem_map.1 hl
      exact hqualifier s hs (hstart.trans hpair.qualifierPlace)
    refine hlater (htraced.kept_in_qualified hts h.dots hadots hshape ha ?_ (.inl (hbound hgoes)))
      hgoes
    intro q' hq' hstart
    obtain ⟨p', hp', hpair', -⟩ := exists_pair_of_mem_qualifiedRefs h.lexed h.dots hq'
    have hnumber := h.lexed.placeOf_injective hpair'.column hpair.qualifier
      (hpair'.columnPlace.trans hstart)
    refine (ordered_qualifiedPlaces ts).fst_ne_snd (i := p.1) (j := p.2) (m := p'.1) hp ?_
    rw [← hnumber]
    exact hp'
  obtain ⟨x, hx, hxgoes, hxsame⟩ := htraced.tables.exists_table hr hj hplace
  refine ⟨us, p.1, j, x, ?_, ?_, ⟨hpair.qualifier, hpair.qualifierPlace⟩, ⟨hj, hplace⟩,
    hqualifierKept, ?_, ?_⟩
  · exact htraced.output ▸ htraced.selected.target
  · rw [htraced.selected.length_eq, htraced.quoted.length_eq, htraced.qualified.length_eq,
      htraced.tables.length_eq]
  · refine hlater (htraced.kept_in_qualified hts h.dots hadots hshape hx ?_ (.inl (hbound hxgoes)))
      hxgoes
    rw [hplace]
    exact hsource
  · rw [hsame]
    exact hxsame

/-- A table and its qualifier are written differently, and both are left. -/
theorem qualifier_names_source_left :
    let k : KnownNames := ⟨["city"], [("city", ["name"])]⟩
    let sql : Text := "SELECT \"city\".nme FROM City"
    let q : QualifiedRef := ⟨⟨"city", true⟩, ⟨"nme", false⟩, ⟨7, 13⟩, ⟨14, 17⟩, false⟩
    let r : TableRef := ⟨"City", none, none, false, 23, 27, "FROM"⟩
    q ∈ qualifiedRefs (maskLiterals sql) ∧ r ∈ tableRefs sql ∧
      (repair k sql).sql = "SELECT \"city\".name FROM City" ∧
      ∃ (us : List Token) (i j : Nat) (x : Identifier), LexedAs (repair k sql).sql us ∧
        us[i]? = some q.qualifier.token ∧ placeOf (tokens sql) j = r.start ∧
        us[j]? = some x.token ∧ x.effective = "city" := by
  intro k sql q r
  have hk : k.Writable := KnownNames.forall_knows_iff.2 (by decide)
  have h : ReadAs sql (tokens sql) := (tokensOf_of_unmarked (by decide +kernel)).readAs
  have hq : q ∈ qualifiedRefs (maskLiterals sql) := by decide +kernel
  have hr : r ∈ tableRefs sql := by decide +kernel
  have hleft : Repair.correction? "Table" r.identifier ⟨r.start, r.stop⟩ k.tables sql = none := by
    decide +kernel
  obtain ⟨us, i, j, x, hus, -, -, ⟨-, hplace⟩, hi, hj, hiff⟩ :=
    qualifier_names_source_iff hk h (by decide +kernel) hq hr (by decide +kernel)
      (by decide +kernel) (by decide +kernel)
  exact ⟨hq, hr, by decide +kernel, us, i, j, x, hus, hi, hplace, hj, (hiff.2 hleft).trans rfl⟩

/-- The table pass corrects the table and leaves its qualifier, which then names no table. -/
theorem qualifier_loses_source :
    let k : KnownNames := ⟨["city"], [("city", ["name"])]⟩
    let sql : Text := "SELECT citys.name FROM citys"
    let q : QualifiedRef := ⟨⟨"citys", false⟩, ⟨"name", false⟩, ⟨7, 12⟩, ⟨13, 17⟩, false⟩
    let r : TableRef := ⟨"citys", none, none, false, 23, 28, "FROM"⟩
    qualifiedRefs (maskLiterals sql) = [q] ∧ tableRefs sql = [r] ∧
      q.qualifier.effective = r.identifier.effective ∧
      (repair k sql).sql = "SELECT citys.name FROM city" ∧
      qualifiedRefs (maskLiterals (repair k sql).sql) = [q] ∧
      (tableRefs (repair k sql).sql).map (·.identifier.effective) = ["city"] := by
  decide +kernel

end QueryGate
