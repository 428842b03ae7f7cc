import QueryGate.Proofs.Gate.Corrected
import QueryGate.Proofs.Repair.Settled
import QueryGate.Proofs.Sql.SelectQuery

/-!
# Select queries at the gate

A select query keeps every rule of the first two tiers, whatever the row cap is
(`SelectQuery.acceptedAsWritten`). Its names are ordinary, so none of them is suspicious, and the
words and marks that the other rules look for do not stand in it. If its columns are columns of its
table the third tier leaves it as it is (`SelectQuery.checkQuery_text`).
-/

namespace QueryGate

open Wording

namespace SelectQuery

variable (q : SelectQuery)

/-! ## The ends of the text -/

theorem exists_text_eq : ∃ r, q.text = "SELECT" ++ ' ' :: r := ⟨_, rfl⟩

theorem head?_text : q.text.head?.any isBlank = false := rfl

theorem getLast?_text : ∃ c, q.text.getLast? = some c ∧ isInName c = true := by
  have htable := q.ordinary q.table List.mem_cons_self
  have hne := Token.mask_ne_nil htable.fit
  refine ⟨q.table.token.mask.getLast hne, ?_, ?_⟩
  · rw [text_eq, ← List.append_assoc, List.getLast?_append_of_ne_nil _ hne,
      List.getLast?_eq_some_getLast hne]
  · exact q.table.isInName_of_mem_mask htable (List.getLast_mem hne)

theorem getLast?_text_any {p : Char → Bool} (hp : OutsideNames p) :
    q.text.getLast?.any p = false := by
  obtain ⟨c, hlast, hc⟩ := q.getLast?_text
  rw [hlast, Option.any_some, hp c hc]

theorem trim_text : trim q.text = q.text :=
  trim_eq_self q.head?_text (q.getLast?_text_any outsideNames_isBlank)

/-! ## Conditions -/

theorem not_occurs_whereWord {a b : Text} (ht : q.text = a ++ b) : occurs whereWord a = false := by
  rw [occurs_eq_false_iff]
  intro c d hcd hd
  unfold whereWord
  split
  · rename_i hstart
    rw [Option.map_eq_none_iff, Option.eq_none_iff_forall_ne_some]
    intro r hr
    -- What is read before the end of the part is read in all of the text.
    obtain ⟨k, hk, -, hsplit⟩ := keyword?_bind_spaced?_eq_some_iff.1 hr
    obtain ⟨x, g, rfl, hx, hne, hg⟩ := hk.parts
    have htext : q.text = c ++ (x ++ (g ++ (r ++ b))) := by
      rw [ht, hcd, hsplit]
      simp only [List.append_assoc]
    have hword := q.lacksWord (by decide) _ _ _ htext hstart hx
    obtain ⟨y, g, rfl⟩ := List.exists_cons_of_ne_nil hne
    rw [atWordEnd, List.cons_append, List.head?_cons, Option.any_some,
      isWordChar_eq_false_of_isBlank (List.all_eq_true.1 hg y List.mem_cons_self)] at hword
    cases hword
  · rfl

theorem conditionEndsWith_eq_false {words : List Text} {back : Text}
    (h : endsWithWord words back = false) : conditionEndsWith words back = false := by
  rw [endsWithWord, List.any_eq_false] at h
  rw [conditionEndsWith, List.any_eq_false]
  intro w hw
  have hw := h w hw
  cases hread : keyword? w.reverse back with
  | none => exact Bool.false_ne_true
  | some rest =>
    rw [hread] at hw
    simp only [Bool.not_eq_true] at hw
    simp [hw]

/-- A select query has no condition to break off in. -/
theorem breaksOff_text : breaksOff q.text = false := by
  have hsemicolon : trimEndOf ';' q.text = q.text := by
    obtain ⟨c, hlast, hc⟩ := q.getLast?_text
    refine trimEndOf_eq_self fun h => ?_
    obtain rfl := Option.some.inj (hlast.symm.trans h)
    cases hc
  have hself : trimEnd (trimEndOf ';' (trim q.text)) = q.text := by
    rw [trim_text, hsemicolon, trimEnd_eq_self (q.getLast?_text_any outsideNames_isBlank)]
  have hall : q.text = q.text ++ [] := (List.append_nil _).symm
  have hwhere : occurs whereWord q.text = false := q.not_occurs_whereWord hall
  have hends {words : List Text} (hwords : ∀ w ∈ words, IsAbsent w) :
      endsWithWord words q.text.reverse = false := q.not_endsWithWord hwords hall rfl
  have hopen : conditionStaysOpen q.text = false := by
    have hnone : firstHit? (wholeWord "WHERE") q.text = none := by
      have hno : occurs (oneWord ["WHERE"]) q.text = false := q.not_occurs (by decide)
      rwa [occurs, Bool.not_eq_false', List.isEmpty_iff, ← List.head?_eq_none_iff] at hno
    rw [conditionStaysOpen, hnone]
  unfold breaksOff
  simp only [hself]
  rw [hends (by decide), hwhere, conditionEndsWith_eq_false (hends (by decide)), hopen,
    Bool.and_false]
  obtain ⟨c, hlast, hc⟩ := q.getLast?_text
  split
  · rename_i r hr
    rw [← List.head?_reverse, hr] at hlast
    obtain rfl := Option.some.inj hlast
    cases hc
  · rfl

/-! ## Suspicious names -/

/-- A run of word characters is part of a name of the query or of one of its two words. -/
theorem exists_name {a x b : Text} (hx : ∀ c ∈ x, isWordChar c = true) (hne : x ≠ [])
    (ht : q.text = a ++ (x ++ b)) :
    ∃ n l m, isSuspicious (n ++ ['.']) = false ∧ n = l ++ (x ++ m) ∧
      (a.getLast?.any isWordChar = false → l = []) := by
  have htokens : TokensOf q.text ([] ++ q.tokens) := q.tokensOf
  rcases htokens.exists_wordRun hx hne ht with
    ⟨p, t, r, l, m, hin⟩ | ⟨p, v, r, hlit⟩
  · refine ⟨l ++ (x ++ m), l, m, ?_, rfl, hin.eq_nil_of_start q.tokensOf.readable⟩
    have hmem : t ∈ q.tokens := by
      rw [hin.tokens]
      simp
    have hname := hin.name
    rcases q.mem_tokens hmem with rfl | rfl | ⟨i, hi, rfl⟩ | rfl | rfl
    · rw [← Option.some.inj hname]
      decide +kernel
    · rw [← Option.some.inj hname]
      decide +kernel
    · rw [Identifier.name?_token] at hname
      rw [← Option.some.inj hname]
      exact (q.ordinary i hi).not_suspicious
    · cases hname
    · cases hname
  · exfalso
    obtain ⟨c, x, rfl⟩ := List.exists_cons_of_ne_nil hne
    have hc : c ∈ textOf v := by
      rw [hlit.run]
      exact List.mem_cons_self
    obtain ⟨t, ht, hct⟩ := List.mem_flatMap.1 hc
    have hmem : t ∈ q.tokens := by
      rw [hlit.tokens]
      simp [ht]
    have hword := hx c List.mem_cons_self
    have hother := hlit.others t ht
    rcases q.mem_tokens hmem with rfl | rfl | ⟨i, hi, rfl⟩ | rfl | rfl
    · cases hother
    · cases hother
    · rw [Identifier.name?_token] at hother
      cases hother
    · rw [List.mem_singleton.1 hct] at hword
      exact absurd hword (by decide)
    · rw [List.mem_singleton.1 hct] at hword
      exact absurd hword (by decide)

theorem not_suspicious : isSuspicious q.text = false := by
  refine isSuspicious_eq_false_iff.2 ⟨?_, fun z hz => ?_, fun w hw => ?_, ?_⟩ <;>
    rw [Bool.eq_false_iff] <;> intro hyes
  · obtain ⟨a, g, x, b, hsplit, -⟩ := occurs_chainedWord_iff.1 hyes
    exact @not_mem_text q ';' (by decide) (by rw [hsplit]; simp)
  · have hmarks : ∀ z ∈ commentMarks, ∃ c ∈ z, (isInName c || c == ',' || c == ' ') = false := by
      decide
    obtain ⟨c, hc, hno⟩ := hmarks z hz
    exact q.not_mem_text hno ((Text.hasPart_eq_true_iff.1 hyes).subset hc)
  · have hne : ∀ w ∈ catalogueBeginnings, w ≠ [] := by decide
    obtain ⟨a, x, b, hsplit, hx, ha⟩ := (occurs_wordBeginning_iff (hne w hw)).1 hyes
    obtain ⟨y, z, rfl, hyne, hy, hz⟩ := exists_run_of_catalogueBeginning hw hx
    obtain rfl : z = [] := by
      refine hz.resolve_right fun hdot => ?_
      exact @not_mem_text q '.' (by decide) (by rw [hsplit, hdot]; simp)
    rw [List.append_nil] at hsplit hx
    obtain ⟨n, l, m, hno, rfl, hl⟩ := q.exists_name hy hyne hsplit
    obtain rfl := hl ha
    have hfound : occurs (wordBeginning w) (y ++ m ++ ['.']) = true :=
      (occurs_wordBeginning_iff (hne w hw)).2 ⟨[], y, m ++ ['.'], by simp, hx, rfl⟩
    have := (isSuspicious_eq_false_iff.1 hno).2.2.1 w hw
    rw [List.nil_append, hfound] at this
    cases this
  · obtain ⟨a, x, b, hsplit, hx⟩ := occurs_standardCatalogue_iff.1 hyes
    have hxne : x ≠ [] := by
      rintro rfl
      exact absurd hx (by decide)
    obtain ⟨n, l, m, hno, rfl, -⟩ := q.exists_name (isWordChar_of_spells hx (by decide)) hxne hsplit
    have hfound : occurs standardCatalogue (l ++ (x ++ m) ++ ['.']) = true :=
      occurs_standardCatalogue_iff.2 ⟨l, x, m ++ ['.'], by simp, hx⟩
    have := (isSuspicious_eq_false_iff.1 hno).2.2.2
    rw [hfound] at this
    cases this

/-! ## The first tier -/

theorem beginsStatement_text : beginsStatement q.text = true := by
  have hskip : skipBlanks q.text = q.text := skipBlanks_eq_self q.head?_text
  obtain ⟨r, hr⟩ := q.exists_text_eq
  rw [beginsStatement, hskip, hr]
  exact oneWord_isSome rfl (List.mem_cons_self (a := ("SELECT" : Text))) rfl rfl

theorem keepsWording : Wording.Kept q.text where
  notBlank := not_allBlank_of_beginsStatement q.beginsStatement_text
  noDoubleDot := by
    rw [maskLiterals_text, Bool.eq_false_iff]
    intro hpart
    have hdot : '.' ∈ q.text := (Text.hasPart_eq_true_iff.1 hpart).subset (by decide)
    exact q.not_mem_text (by decide) hdot
  whole := by
    rw [maskLiterals_text]
    exact q.breaksOff_text
  noForbiddenWord := by
    rw [maskLiterals_text]
    exact forbiddenWord?_eq_none_iff.2 (q.not_occurs (by decide +kernel))
  notSuspicious := q.not_suspicious
  begins := q.beginsStatement_text
  semicolons := by
    rw [maskLiterals_text, List.count_eq_zero_of_not_mem (q.not_mem_text (by decide))]
    exact Nat.zero_le 1
  noTransaction := by
    rw [maskLiterals_text]
    exact q.not_occurs (by decide)

/-! ## The second tier -/

theorem limits_text : Structure.limits q.text = [] := by
  have hnone : hits Structure.limitNumber q.text = [] := by
    refine hitsFrom_eq_nil_iff.2 fun a b hab _ => ?_
    rw [List.append_nil]
    unfold Structure.limitNumber
    split
    · rename_i hstart
      rw [(q.lacksWord (by decide)).keyword?_spaced hab hstart]
    · rfl
  rw [Structure.limits, maskLiterals_text, hnone]
  rfl

theorem not_namesSystemTable {n : Text} (h : OrdinaryName n) (r : TableRef) (hname : r.name = n)
    (hschema : r.schema = none) : Structure.namesSystemTable r = false := by
  subst hname
  have hsystem : Structure.systemSchemas.contains (lower r.name) = false := by
    rw [Bool.eq_false_iff]
    intro hmem
    have hschemas : ∀ s ∈ Structure.systemSchemas, s ∈ specialWords ∨
        "information_schema".toList <:+: s ∨ ∃ b ∈ systemBeginnings, b <+: s := by
      decide +kernel
    rcases hschemas _ (List.contains_iff_mem.1 hmem) with hspecial | hcatalogue | ⟨b, hb, hbegin⟩
    · exact h.notSpecial hspecial
    · exact h.notCatalogue hcatalogue
    · exact h.notSystem b hb hbegin
  have hprefix : ("pg_" : Text).isPrefixOf (lower r.name) = false := by
    rw [Bool.eq_false_iff]
    intro hprefix
    exact h.notSystem _ (by decide) (List.isPrefixOf_iff_prefix.1 hprefix)
  rw [Structure.namesSystemTable, hschema, hsystem, hprefix]
  rfl

theorem keepsStructure {parser : Parser} (hparser : parser.Lawful) (cap : RowCap)
    (hreads : parser.Reads q.text) : Structure.Kept parser cap q.text where
  limits := by
    rw [limits_text]
    exact nofun
  noForbiddenWord := by
    rw [hparser.found_eq_nil (q.not_mem_text (by decide))]
    exact nofun
  parsed := hreads
  grouped := ungroupedColumns_of_no_group q.tokensOf (by
    rw [maskLiterals_text]
    exact q.not_occurs (by decide))
  noSystemTable := by
    rw [tableRefs_text]
    intro r hr
    rw [List.mem_singleton.1 hr]
    exact not_namesSystemTable (q.ordinary q.table List.mem_cons_self) _ rfl rfl

/-- A select query passes the first two tiers. -/
theorem acceptedAsWritten {parser : Parser} (hparser : parser.Lawful) (cap : RowCap)
    (hreads : parser.Reads q.text) : AcceptedAsWritten parser cap q.text :=
  acceptedAsWritten_iff.2 ⟨q.keepsWording, q.keepsStructure hparser cap hreads⟩

/-! ## The third tier -/

/-- The table and the columns of a query are those of a table. -/
structure Fits (t : Table) : Prop where
  table : q.table.name = t.name
  columns : ∀ i ∈ q.columns, i.name ∈ t.columnNames
  effective : ∀ i ∈ q.table :: q.columns, i.effective = i.name

variable {q} {t : Table} {tables : List Table}

/-- The names that the third tier knows when a query names one table. -/
theorem knownNames_singleton (tables : List Table) (t : Table) :
    KnownNames.of (tables.map (·.name)) (columnsByTable [t]) =
      ⟨tables.map (·.name), [(lower t.name, t.columnNames)]⟩ := rfl

theorem mem_columnsOf {k : KnownNames} (hk : k.columns = [(lower t.name, t.columnNames)])
    {n : Text} (hn : n ∈ t.columnNames) : n ∈ k.columnsOf [t.name] := by
  refine mem_distinct_of_mem (List.mem_flatMap.2 ⟨t.name, List.mem_singleton_self _, ?_⟩)
  rw [hk, Dictionary.find?, if_pos rfl]
  exact hn

/-- A name that denotes a known one as it is spelled is left. -/
theorem correction?_of_effective {l : Lookup} {context : Text}
    (heffective : l.identifier.effective = l.identifier.name) (hknown : l.identifier.name ∈ l.known) :
    l.correction? context = none := by
  refine Lookup.correction?_of_undisputed (heffective.symm ▸ hknown) ?_
  cases hquoted : l.identifier.quoted with
  | true => exact .inl hquoted
  | false =>
    rw [Identifier.effective, hquoted] at heffective
    exact .inr (.inl heffective)

section Lookups

variable {k : KnownNames} {bound : Repair.Bindings} {columns : List Text} {l : Lookup}

/-- A name that is read in the query is one of its columns, unless it is the table's, under which
the table is bound. -/
theorem mem_columns_of_unbound
    (hbound : (Dictionary.find? (lower q.table.name) bound).isSome = true) {i : Identifier}
    (hi : i ∈ q.table :: q.columns)
    (hfree : (Dictionary.find? (lower i.name) bound).isSome = false) : i ∈ q.columns := by
  refine (List.mem_cons.1 hi).resolve_left ?_
  rintro rfl
  rw [hbound] at hfree
  cases hfree

theorem mem_columns_of_mem_quoted
    (hbound : (Dictionary.find? (lower q.table.name) bound).isSome = true)
    (hl : l ∈ Lookup.quoted k q.text bound columns) :
    l.identifier ∈ q.columns ∧ l.known = columns := by
  obtain ⟨n, hn, hsome⟩ := List.mem_filterMap.1 hl
  split at hsome
  · cases hsome
  rename_i hnot
  obtain rfl := Option.some.inj hsome
  refine ⟨mem_columns_of_unbound hbound (q.mem_quotedNames hn) ?_, rfl⟩
  simp only [Bool.or_eq_true, not_or, Bool.not_eq_true] at hnot
  exact hnot.1.1

theorem mem_columns_of_mem_selected
    (hbound : (Dictionary.find? (lower q.table.name) bound).isSome = true)
    (hl : l ∈ Lookup.selected q.text bound columns) :
    l.identifier ∈ q.columns ∧ l.known = columns := by
  unfold Lookup.selected at hl
  simp only [maskLiterals_text] at hl
  obtain ⟨n, hn, hsome⟩ := List.mem_filterMap.1 hl
  split at hsome
  · cases hsome
  rename_i hnot
  obtain rfl := Option.some.inj hsome
  simp only [Bool.or_eq_true, not_or, Bool.not_eq_true] at hnot
  obtain ⟨⟨⟨hreserved, hfree⟩, -⟩, -⟩ := hnot
  rcases q.mem_selectedNames (mem_distinct n hn) with hword | hmem
  · rw [hword] at hreserved
    cases hreserved
  · exact ⟨mem_columns_of_unbound hbound hmem hfree, rfl⟩

theorem Fits.resolvedTable_text (h : q.Fits t) (ht : t.name ∈ k.tables) :
    Repair.resolvedTable k q.text q.tableRef = t.name := by
  have hname : q.tableRef.name = t.name := h.table
  have hne : t.name ≠ [] := h.table ▸ (q.ordinary q.table List.mem_cons_self).isWord.1
  rw [Repair.resolvedTable, hname, matchName_of_mem hne ht]
  rfl

/-- The table is bound under its name. -/
theorem Fits.isSome_find?_bindings (h : q.Fits t) (ht : t.name ∈ k.tables) :
    (Dictionary.find? (lower q.table.name)
      (Repair.bindings k q.text [q.tableRef])).isSome = true := by
  rw [Repair.bindings, List.foldl_cons, List.foldl_nil]
  simp only [h.resolvedTable_text ht, h.table]
  change (Dictionary.find? (lower t.name) [(lower t.name, t.name), _]).isSome = true
  rw [Dictionary.find?, if_pos rfl]
  rfl

/-- What the columns are taken for holds each of them, so none is corrected. -/
theorem Fits.correction?_of_column (h : q.Fits t)
    (hk : k.columns = [(lower t.name, t.columnNames)]) (context : Text)
    (hl : l.identifier ∈ q.columns ∧ l.known = k.candidateColumns [t.name]) :
    l.correction? context = none := by
  refine correction?_of_effective (h.effective _ (List.mem_cons_of_mem _ hl.1)) ?_
  have hmem := mem_columnsOf hk (h.columns _ hl.1)
  rw [hl.2, KnownNames.candidateColumns]
  rw [if_neg (by simpa using List.ne_nil_of_mem hmem)]
  exact hmem

end Lookups

/-- The repair finds every name of a query that fits a table. -/
theorem Fits.repair_text (h : q.Fits t) {k : KnownNames} (ht : t.name ∈ k.tables)
    (hk : k.columns = [(lower t.name, t.columnNames)]) : repair k q.text = ⟨q.text, []⟩ := by
  rw [repair_eq_self_iff]
  unfold lookups
  rw [q.tableRefs_text, q.maskLiterals_text, q.qualifiedRefs_text]
  split
  · exact nofun
  simp only [List.map_cons, List.map_nil, List.flatMap_nil, List.append_nil,
    h.resolvedTable_text ht]
  have hbound := h.isSome_find?_bindings ht
  intro l hl
  rcases List.mem_append.1 hl with hl | hl
  · rcases List.mem_append.1 hl with hl | hl
    · rw [List.mem_singleton.1 hl]
      exact correction?_of_effective (h.effective q.table List.mem_cons_self) (h.table ▸ ht)
    · exact h.correction?_of_column hk q.text (mem_columns_of_mem_quoted hbound hl)
  · exact h.correction?_of_column hk q.text (mem_columns_of_mem_selected hbound hl)

theorem Fits.naming_text (h : q.Fits t) (ht : findTable? tables t.name = some t) (masked : Text) :
    Existence.naming tables masked (tableRefs q.text) = .ok ⟨[t], [], []⟩ := by
  have hname : q.tableRef.name = t.name := h.table
  rw [tableRefs_text, Existence.naming]
  simp only [Existence.resolve, hname, ht]
  rfl

/-- A query that fits a table of the schema passes the gate as it is, if the parser can read it. -/
theorem Fits.checkQuery_text (h : q.Fits t) {parser : Parser} (hparser : parser.Lawful)
    (cap : RowCap) (hreads : parser.Reads q.text) (hmem : t ∈ tables)
    (ht : findTable? tables t.name = some t) :
    checkQuery parser cap tables q.text = .ok (.accepted .schema none []) := by
  have hrepair := h.repair_text (k := ⟨tables.map (·.name), [(lower t.name, t.columnNames)]⟩)
    (List.mem_map_of_mem hmem) rfl
  have hexistence : checkExistence tables q.text = .accepted .schema none [] := by
    unfold checkExistence
    rw [h.naming_text ht]
    have hdistinct : distinct [t] = [t] := rfl
    simp only [Existence.oncePerSpan, List.foldl_nil, applyEdits_nil, hdistinct,
      knownNames_singleton, hrepair, q.keepsWording.noDoubleDot, Bool.false_eq_true, if_false,
      if_true, List.append_nil]
  obtain ⟨hwording, structural, hstructure, hvalid⟩ := q.acceptedAsWritten hparser cap hreads
  unfold checkQuery
  simp only [hwording, hstructure, Bool.not_true, Bool.false_eq_true, if_false]
  change (if !structural.isValid then _ else _) = _
  rw [hvalid, hexistence]
  rfl

end SelectQuery

end QueryGate
