import QueryGate.Proofs.Repair.Qualifiers
import QueryGate.Proofs.Sql.AliasPlaces

/-!
# Aliases through the passes

The first two passes leave every alias: no table is named there, and no column with a qualifier. The
third looks it up if it is in quotes and the fourth if it is bare, unless the pass takes it for a
name that the query declares (`Repair.AsksQuoted`, `Repair.AsksBare`). It always does so behind `AS`
and where a table reference goes by the name. So an alias is left exactly if it is one of these, or
is not looked up, or is a column's name already (`alias_kept_iff`).
-/

namespace QueryGate

/-! ## What the last two passes look up -/

namespace Repair

/-- The third pass, over the tokens `ts`, does not take a name in quotes for a declared one. -/
structure AsksQuoted (k : KnownNames) (ts : List Token) (n : Nat) (name : Text) : Prop where
  noWord : ¬ LeadBy ["FROM", "JOIN", "AS"] (ts.take n)
  undeclared : name ∉ declaredAliases (maskOf ts)
  noTable : ∀ t ∈ k.tables, lower t ≠ lower name

/-- The last pass, over the tokens `ts`, finds a bare name in the expressions of a select list and
does not take it for a declared one. -/
structure AsksBare (k : KnownNames) (sql : Text) (ts : List Token) (n : Nat) (name : Text) :
    Prop where
  selected : ∃ h ∈ selectedNames (maskQuoted (maskOf ts)), h.start = placeOf ts n
  unreserved : isReserved name = false
  long : 2 ≤ name.length
  noOutput : lower name ∈ outputNames (maskOf ts) (maskQuoted (maskOf ts)) →
    lower name ∈ (candidates k sql).map lower

/-- The pass that looks up names of its kind, over `b` or over `c`, looks the name up. -/
def Asks (k : KnownNames) (sql : Text) (b c : List Token) (n : Nat) (i : Identifier) : Prop :=
  if i.quoted then AsksQuoted k b n i.name else AsksBare k sql c n i.name

/-- A name is looked up as a column only if no table reference goes by it. -/
theorem bindings_eq_none_iff {k : KnownNames} {context key : Text} {refs : List TableRef} :
    Dictionary.find? key (bindings k context refs) = none ↔
      ∀ r ∈ refs, ¬ r.GoesBy k context key := by
  constructor
  · intro hnone r hr hgoes
    have hbound := isSome_bound hr hgoes
    rw [hnone] at hbound
    cases hbound
  · intro hno
    rw [Option.eq_none_iff_forall_ne_some]
    intro table hsome
    obtain ⟨r, hr, hgoes, -⟩ := exists_ref_of_bound hsome
    exact hno r hr hgoes

end Repair

section Lookups

variable {k : KnownNames} {sql text : Text} {ts : List Token} {n : Nat}

/-- A name in quotes is looked up unless the query declares it. -/
theorem exists_inQuoted_of_mem {m : Hit Text} (hm : m ∈ quotedNames (maskLiterals text))
    (hnone : Dictionary.find? (lower m.value) (Repair.bindings k sql (tableRefs sql)) = none)
    (hundeclared : m.value ∉ declaredAliases (maskLiterals text))
    (htable : ∀ t ∈ k.tables, lower t ≠ lower m.value) :
    ∃ l ∈ Lookup.inQuoted k sql text, l.span.start = m.start := by
  refine ⟨⟨"Column", ⟨m.value, true⟩, ⟨m.start, m.stop⟩, Repair.candidates k sql⟩,
    List.mem_filterMap.2 ⟨m, hm, if_neg ?_⟩, rfl⟩
  simpa [hnone, hundeclared] using htable

/-- A bare name in a select list is looked up unless the query declares it. -/
theorem exists_inSelected_of_mem {m : Hit Text}
    (hm : m ∈ selectedNames (maskQuoted (maskLiterals text)))
    (hnone : Dictionary.find? (lower m.value) (Repair.bindings k sql (tableRefs sql)) = none)
    (hreserved : isReserved m.value = false) (hlong : 2 ≤ m.value.length)
    (hout : lower m.value ∈
        Repair.outputNames (maskLiterals text) (maskQuoted (maskLiterals text)) →
      lower m.value ∈ (Repair.candidates k sql).map lower) :
    ∃ l ∈ Lookup.inSelected k sql text, l.span.start = m.start := by
  refine ⟨⟨"Column", ⟨m.value, false⟩, ⟨m.start, m.stop⟩, Repair.candidates k sql⟩,
    List.mem_filterMap.2 ⟨m, mem_distinct_of_mem hm, if_neg ?_⟩, rfl⟩
  simpa [hnone, hreserved, Nat.not_lt.2 hlong] using hout

variable (h : LexedAs text ts)

include h

/-- The third pass looks up the names in quotes that it takes for none that the query declares. -/
theorem exists_inQuoted_iff {w : Text} (hn : ts[n]? = some (.quoted w))
    (hdot : besideDot (maskOf (ts.take n)).reverse (maskOf (ts.drop (n + 1))) = false) :
    (∃ l ∈ Lookup.inQuoted k sql text, l.span.start = placeOf ts n) ↔
      (∀ r ∈ tableRefs sql, ¬ r.GoesBy k sql (lower w)) ∧ Repair.AsksQuoted k ts n w := by
  rw [← Repair.bindings_eq_none_iff]
  obtain ⟨p, q, rfl, rfl⟩ := exists_split_of_getElem? hn
  rw [List.take_left, ← List.drop_drop, List.drop_left, List.drop_succ_cons, List.drop_zero] at hdot
  have hlead := @followsWord_iff p ["FROM", "JOIN", "AS"] (Lexed.of_append h.lexed).1 (by decide)
  rw [placeOf_append]
  constructor
  · rintro ⟨l, hl, hplace⟩
    obtain ⟨m, hm, -, hs, -, hnone, hundeclared, htable⟩ := mem_inQuoted hl
    rw [← h.mask] at hm hundeclared
    obtain ⟨p', q', hsplit, hstart, -, -, hword⟩ := (mem_quotedNames_iff h.lexed).1 hm
    rw [hs, hstart] at hplace
    obtain ⟨rfl, hrest⟩ := h.lexed.split_unique rfl hsplit hplace.symm
    obtain rfl : w = m.value := Token.quoted.inj (List.cons.inj hrest).1
    refine ⟨hnone, ?_, hundeclared, htable⟩
    rw [List.take_left, ← hlead, hword]
    exact Bool.false_ne_true
  · rintro ⟨hnone, hword, hundeclared, htable⟩
    rw [List.take_left, ← hlead, Bool.not_eq_true] at hword
    have hm : ⟨(maskOf p).length, (maskOf p).length + (inQuotes w).length, w⟩ ∈
        quotedNames (maskOf (p ++ .quoted w :: q)) :=
      (mem_quotedNames_iff h.lexed).2 ⟨p, q, rfl, rfl, rfl, hdot, hword⟩
    rw [h.mask] at hm hundeclared
    exact exists_inQuoted_of_mem hm hnone hundeclared htable

omit h in
/-- What is found at the place of a word is the word. -/
theorem Lexed.value_of_mem_selectedNames (h : Lexed ts) {w : Text} (hn : ts[n]? = some (.word w))
    {m : Hit Text} (hm : m ∈ selectedNames (maskQuoted (maskOf ts)))
    (hplace : m.start = placeOf ts n) : m.value = w := by
  have hstands := stand_of_mem_selectedNames h hm
  rw [hplace] at hstands
  exact congrArg Identifier.name (hstands.unique h (.of_number (i := ⟨w, false⟩) hn)).1

/-- The last pass looks up the bare names of the select lists that it takes for none that the query
declares. -/
theorem exists_inSelected_iff {w : Text} (hn : ts[n]? = some (.word w)) :
    (∃ l ∈ Lookup.inSelected k sql text, l.span.start = placeOf ts n) ↔
      (∀ r ∈ tableRefs sql, ¬ r.GoesBy k sql (lower w)) ∧ Repair.AsksBare k sql ts n w := by
  rw [← Repair.bindings_eq_none_iff]
  constructor
  · rintro ⟨l, hl, hplace⟩
    obtain ⟨m, hm, -, hs, -, hreserved, hnone, hlong, hout⟩ := mem_inSelected hl
    rw [← h.mask] at hm hout
    rw [hs] at hplace
    obtain rfl := h.lexed.value_of_mem_selectedNames hn hm hplace
    exact ⟨hnone, ⟨m, hm, hplace⟩, hreserved, hlong, hout⟩
  · rintro ⟨hnone, ⟨m, hm, hplace⟩, hreserved, hlong, hout⟩
    obtain rfl := h.lexed.value_of_mem_selectedNames hn hm hplace
    rw [h.mask] at hm hout
    rw [← hplace]
    exact exists_inSelected_of_mem hm hnone hreserved hlong hout

end Lookups

/-! ## What becomes of an alias -/

section Passes

variable {names : Text → Prop} {k : KnownNames} {sql context : Text} {lookups : List Lookup}
  {ts us a b c : List Token} {n : Nat} {i : Identifier} {w : Text}

/-- A pass that looks names up among the same known ones leaves a name exactly if it does not look
it up, or finds what the name denotes already. -/
theorem Step.kept_iff (h : Step names context lookups ts us) (hn : ts[n]? = some i.token)
    {known : List Text} (hknown : ∀ l ∈ lookups, l.known = known) :
    us[n]? = some i.token ↔
      ((∃ l ∈ lookups, l.span.start = placeOf ts n) →
        ∀ m, matchName i.name known context = some m → m.name = i.effective) := by
  have hidentifier {l : Lookup} (hl : l ∈ lookups) (hplace : l.span.start = placeOf ts n) :
      l.identifier = i := by
    have hstands := (h.fits l hl).stands
    rw [hplace] at hstands
    exact (hstands.unique h.source.lexed (.of_number hn)).1
  obtain ⟨u, hu, ⟨l, hl, hplace, hrep⟩ | ⟨rfl, hnone⟩⟩ := h.exists_becomes hn
  · obtain ⟨m, hm, hne, rfl⟩ := Lookup.exists_name_of_replacement? hrep
    rw [hidentifier hl hplace] at hm hne hu
    rw [hknown l hl] at hm
    refine iff_of_false (fun hkept => hne ?_) fun hsame => hne (hsame ⟨l, hl, hplace⟩ m hm).symm
    have htoken := Option.some.inj (hkept.symm.trans hu)
    rw [← Identifier.token_rendered] at htoken
    rw [Identifier.token_injective htoken, Identifier.effective_rendered]
  · refine iff_of_true hu ?_
    rintro ⟨l, hl, hplace⟩ m hm
    have hleft := hnone l hl hplace
    rw [← hidentifier hl hplace] at hm ⊢
    rw [← hknown l hl] at hm
    unfold Lookup.replacement? at hleft
    simp only [hm] at hleft
    split at hleft
    · rename_i hsame
      exact hsame.symm
    · cases hleft

/-- The third pass leaves bare names. -/
theorem Step.quoted_kept_word (h : Step names sql (Lookup.inQuoted k sql context) ts us)
    (hn : ts[n]? = some (.word w)) : us[n]? = some (.word w) := by
  refine (h.exists_lookup (i := ⟨w, false⟩) hn).resolve_right ?_
  rintro ⟨l, hl, hi, -⟩
  obtain ⟨m, -, hm, -⟩ := mem_inQuoted hl
  rw [hi] at hm
  cases hm

/-- The last pass leaves names in quotes. -/
theorem Step.selected_kept_quoted (h : Step names sql (Lookup.inSelected k sql context) ts us)
    (hn : ts[n]? = some (.quoted w)) : us[n]? = some (.quoted w) := by
  refine (h.exists_lookup (i := ⟨w, true⟩) hn).resolve_right ?_
  rintro ⟨l, hl, hi, -⟩
  obtain ⟨m, -, hm, -⟩ := mem_inSelected hl
  rw [hi] at hm
  cases hm

theorem Step.quoted_kept_iff (h : Step names sql (Lookup.inQuoted k sql (textOf ts)) ts us)
    (hn : ts[n]? = some (.quoted w))
    (hdot : besideDot (maskOf (ts.take n)).reverse (maskOf (ts.drop (n + 1))) = false) :
    us[n]? = some (.quoted w) ↔
      ((∀ r ∈ tableRefs sql, ¬ r.GoesBy k sql (lower w)) ∧ Repair.AsksQuoted k ts n w →
        ∀ m, matchName w (Repair.candidates k sql) sql = some m → m.name = w) := by
  rw [← exists_inQuoted_iff h.source hn hdot]
  refine h.kept_iff (i := ⟨w, true⟩) hn fun l hl => ?_
  obtain ⟨m, -, -, -, hknown, -⟩ := mem_inQuoted hl
  exact hknown

theorem Step.selected_kept_iff (h : Step names sql (Lookup.inSelected k sql (textOf ts)) ts us)
    (hn : ts[n]? = some (.word w)) :
    us[n]? = some (.word w) ↔
      ((∀ r ∈ tableRefs sql, ¬ r.GoesBy k sql (lower w)) ∧ Repair.AsksBare k sql ts n w →
        ∀ m, matchName w (Repair.candidates k sql) sql = some m → m.name = lower w) := by
  rw [← exists_inSelected_iff h.source hn]
  refine h.kept_iff (i := ⟨w, false⟩) hn fun l hl => ?_
  obtain ⟨m, -, -, -, hknown, -⟩ := mem_inSelected hl
  exact hknown

end Passes

namespace Traced

variable {k : KnownNames} {sql : Text} {ts a b c us : List Token} {n : Nat} {i : Identifier}
  (h : Traced k sql ts a b c us) (hts : PlainWords ts)

include h hts

/-- The first two passes leave an alias, and bring no dot beside it. -/
theorem alias_of_qualified (hk : k.Writable) (hread : ReadAs sql ts) (hn : ts[n]? = some i.token)
    (hplace : AliasPlace ts n) :
    b[n]? = some i.token ∧
      besideDot (maskOf (b.take n)).reverse (maskOf (b.drop (n + 1))) = false := by
  have hrefs := hread.toLexedAs.tableRefs hread.sources
  have hshape := h.tables.map_shape fun l => shape_tables hrefs hts
  have hshape' := h.qualified.map_shape fun l => shape_inQualified
  constructor
  · have ha : a[n]? = some i.token := by
      refine (h.tables.exists_lookup hn).resolve_right ?_
      rintro ⟨l, hl, -, hstart, -⟩
      obtain ⟨r, hr, rfl⟩ := List.mem_map.1 hl
      exact hplace.ne_table hread.toLexedAs hread.sources hn hr hstart
    have hapart {q : QualifiedRef} (hq : q ∈ qualifiedRefs (maskOf ts)) :=
      hplace.ne_qualified hread.lexed hread.dots hn hq
    exact h.kept_in_qualified hts hread.dots (h.dots hk hread.dots).1 hshape ha
      (fun q hq => (hapart hq).1) (.inr fun q hq => (hapart hq).2)
  · exact hplace.besideDot_of_shape hread.lexed h.quoted.source.lexed (hshape'.trans hshape)

/-- Neither of the last two passes looks up what stands behind `AS`. -/
theorem not_asks_of_as (hn : b[n]? = some i.token) (hlead : LeadBy ["AS"] (ts.take n)) :
    ¬ Repair.Asks k sql b c n i := by
  have ha := h.tables.leadBy hts (by decide) hlead
  have hb := h.qualified.leadBy (h.tables.plainWords hts) (by decide) ha
  have hc := h.quoted.leadBy (h.qualified.plainWords (h.tables.plainWords hts)) (by decide) hb
  obtain ⟨w, quoted⟩ := i
  cases quoted with
  | true =>
    intro hasks
    exact (show Repair.AsksQuoted k b n w from hasks).noWord (hb.mono (by decide))
  | false =>
    intro hasks
    obtain ⟨m, hm, hstart⟩ := (show Repair.AsksBare k sql c n w from hasks).selected
    have hkept := h.quoted.quoted_kept_word hn
    exact (beside_of_mem_selectedNames h.selected.source.lexed hm hkept hstart).2.2 hc

omit hts in
/-- What the last two passes make of a name that the first two leave. -/
theorem kept_iff (hn : b[n]? = some i.token)
    (hdot : besideDot (maskOf (b.take n)).reverse (maskOf (b.drop (n + 1))) = false) :
    us[n]? = some i.token ↔
      ((∀ r ∈ tableRefs sql, ¬ r.GoesBy k sql (lower i.name)) ∧ Repair.Asks k sql b c n i →
        ∀ m, matchName i.name (Repair.candidates k sql) sql = some m → m.name = i.effective) := by
  obtain ⟨w, quoted⟩ := i
  cases quoted with
  | true =>
    refine Iff.trans ⟨fun hkept => ?_, fun hkept => h.selected.selected_kept_quoted hkept⟩
      (h.quoted.quoted_kept_iff hn hdot)
    -- The third pass leaves a name in quotes, so that the last one leaves it too.
    rcases h.quoted.exists_lookup hn with hc | ⟨l, hl, -, -, m, -, -, hc⟩
    · exact hc
    · rw [Token.rendered, Bool.true_or, if_pos rfl] at hc
      exact hc.trans ((h.selected.selected_kept_quoted hc).symm.trans hkept)
  | false => exact h.selected.selected_kept_iff (h.quoted.quoted_kept_word hn)

end Traced

/-- An alias is left exactly if it stands behind `AS`, a table reference goes by it, no pass looks
it up as a column, or it is a column's name already. The third pass is over the tokens `b`, the last
over `c`. -/
theorem alias_kept_iff {k : KnownNames} (hk : k.Writable) {sql : Text} {ts : List Token}
    (h : ReadAs sql ts) (hts : PlainWords ts) :
    ∃ a b c us : List Token, Traced k sql ts a b c us ∧
      ∀ n i, ts[n]? = some (Identifier.token i) → AliasPlace ts n →
        (us[n]? = some i.token ↔
          LeadBy ["AS"] (ts.take n) ∨
          (∃ r ∈ tableRefs sql, r.GoesBy k sql (lower i.name)) ∨
          ¬ Repair.Asks k sql b c n i ∨
          ∀ m, matchName i.name (Repair.candidates k sql) sql = some m → m.name = i.effective) := by
  obtain ⟨a, b, c, us, htraced⟩ := exists_traced hk h
  refine ⟨a, b, c, us, htraced, fun n i hn hplace => ?_⟩
  obtain ⟨hb, hdot⟩ := htraced.alias_of_qualified hts hk h hn hplace
  rw [htraced.kept_iff hb hdot]
  constructor
  · intro hkept
    by_cases hbound : ∃ r ∈ tableRefs sql, r.GoesBy k sql (lower i.name)
    · exact .inr (.inl hbound)
    by_cases hasks : Repair.Asks k sql b c n i
    · exact .inr (.inr (.inr (hkept ⟨fun r hr hgoes => hbound ⟨r, hr, hgoes⟩, hasks⟩)))
    · exact .inr (.inr (.inl hasks))
  · rintro (hlead | ⟨r, hr, hgoes⟩ | hleft | hsame) ⟨hunbound, hasks⟩
    · exact absurd hasks (htraced.not_asks_of_as hts hb hlead)
    · exact absurd hgoes (hunbound r hr)
    · exact absurd hasks hleft
    · exact hsame

/-- A column is corrected, and the alias behind `AS` is left although it is spelled almost like
another. -/
theorem alias_kept_behind_as :
    let k : KnownNames := ⟨["cities"], [("cities", ["City", "State", "population"])]⟩
    let sql : Text := "SELECT populaton AS \"stat\" FROM cities"
    (repair k sql).sql = "SELECT population AS \"stat\" FROM cities" ∧
      (tokens sql)[6]? = some (.quoted "stat") ∧ AliasPlace (tokens sql) 6 ∧
      ∃ us, LexedAs (repair k sql).sql us ∧ us[6]? = some (.quoted "stat") := by
  intro k sql
  have hk : k.Writable := KnownNames.forall_knows_iff.2 (by decide)
  have h : ReadAs sql (tokens sql) := (tokensOf_of_unmarked (by decide +kernel)).readAs
  have hfront : Lexed ((tokens sql).take 6) := h.lexed.take 6
  have hn : (tokens sql)[6]? = some (.quoted "stat") := by decide +kernel
  have hlead : LeadBy ["AS"] ((tokens sql).take 6) :=
    (followsWord_iff hfront (by decide)).1 (by decide +kernel)
  have hplace : AliasPlace (tokens sql) 6 := by
    refine ⟨?_, by decide +kernel, by decide +kernel, by decide +kernel⟩
    rw [← followsWord_iff hfront (by decide)]
    decide +kernel
  obtain ⟨a, b, c, us, htraced, hall⟩ := alias_kept_iff hk h (by decide +kernel)
  exact ⟨by decide +kernel, hn, hplace, us, htraced.output ▸ htraced.selected.target,
    (hall 6 ⟨"stat", true⟩ hn hplace).2 (.inl hlead)⟩

/-- The alias of a select item is taken for a column that is spelled almost like it, because it
stands in quotes without `AS`. -/
theorem quoted_alias_renamed :
    let k : KnownNames := ⟨["cities"], [("cities", ["City", "State", "population"])]⟩
    let sql : Text := "SELECT population \"stat\" FROM cities"
    (selectItems (maskQuoted (maskLiterals sql))).map
        (fun s => itemAlias? (maskLiterals sql) s.start s.stop) = [some ("stat" : Text)] ∧
      (repair k sql).sql = "SELECT population \"State\" FROM cities" := by
  decide +kernel

end QueryGate
