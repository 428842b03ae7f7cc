import QueryGate.Proofs.Matching.Unlike
import QueryGate.Proofs.Repair.Aliases
import QueryGate.Proofs.Sql.DeclaredAliases

/-!
# Aliases that the repair leaves

Whether the last two passes look an alias up is told by the query as it came (`alias_kept_iff` tells
it by what they read in front of them). No name is looked up behind `AS` by the passes before, and
none is put there, so that the aliases behind `AS` are the same in every pass. An alias in quotes is
left exactly if one of them has its name, or a table does, or a table reference goes by it, or it is
a column's name already or like none (`quoted_alias_kept_iff`). A bare alias that no column is called
is left if it has the name of one behind `AS`, or stands behind a closing parenthesis itself
(`bare_alias_kept`).
-/

namespace QueryGate

/-! ## Names behind `AS` -/

/-- None of the names that are looked up stands behind `AS`. -/
def NoneBehindAs (lookups : List Lookup) (ts : List Token) : Prop :=
  ∀ l ∈ lookups, ∀ n t, ts[n]? = some t → l.span.start = placeOf ts n →
    ¬ LeadBy ["AS"] (ts.take n)

/-- Behind a word stands no name with a comma or a dot in front. -/
theorem LeadBy.noSeparator {words : List Text} {ts : List Token} (h : LeadBy words ts)
    (hts : Lexed ts) : (skipBlanks (maskOf ts).reverse).head? ≠ some ',' ∧
      beginsWithDot (maskOf ts).reverse = false := by
  obtain ⟨p, w, g, rfl, -, hg, -⟩ := h
  obtain ⟨c, hc, hword⟩ := exists_last_of_word (hts.fit (.word w) (by simp)) hg
  rw [beginsWithDot, hc]
  constructor
  · rintro hcomma
    rw [Option.some.inj hcomma] at hword
    exact absurd hword (by decide)
  · rw [beq_eq_false_iff_ne]
    rintro hdot
    rw [Option.some.inj hdot] at hword
    exact absurd hword (by decide)

section Behind

variable {k : KnownNames} {sql text : Text} {ts : List Token}

theorem noneBehindAs_tables (h : ReadAs sql ts) :
    NoneBehindAs (Lookup.tables k (tableRefs sql)) ts := by
  intro l hl n t hn hplace hlead
  obtain ⟨r, hr, rfl⟩ := List.mem_map.1 hl
  obtain ⟨hcomma, hdot⟩ := hlead.noSeparator (h.lexed.take n)
  rcases front_of_mem_tableRefs h.toLexedAs h.sources hr hn hplace.symm with hsource | hc | hc
  · obtain ⟨w, ⟨as, has, hw⟩, word, hmem, hw'⟩ := hlead.exists_word hsource (h.lexed.take n)
    obtain rfl := List.mem_singleton.1 has
    have hne : ∀ word ∈ sourceWords, word.map foldLetter ≠ ("AS" : Text).map foldLetter := by decide
    exact hne word hmem (hw'.symm.trans hw)
  · exact hcomma hc
  · rw [hdot] at hc
    cases hc

theorem noneBehindAs_inQualified (h : LexedAs text ts) (hdots : QuotesLackDots ts)
    (hplain : ∀ n, LeadBy ["AS"] (ts.take n) → beginsWithDot (maskOf (ts.drop (n + 1))) = false) :
    NoneBehindAs (Lookup.inQualified k sql text) ts := by
  intro l hl n t hn hplace hlead
  obtain ⟨q, -, p, -, hpair, ⟨rfl, -⟩ | ⟨rfl, -⟩⟩ := exists_pair_of_inQualified h hdots hl hn hplace
  · have hdot := hpair.dotBefore
    rw [(hlead.noSeparator (h.lexed.take p.2)).2] at hdot
    cases hdot
  · have hdot := hpair.dotBehind
    rw [hplain p.1 hlead] at hdot
    cases hdot

theorem noneBehindAs_inQuoted (h : LexedAs text ts) :
    NoneBehindAs (Lookup.inQuoted k sql text) ts := by
  intro l hl n t hn hplace hlead
  obtain ⟨m, hm, -, hs, -⟩ := mem_inQuoted hl
  rw [← h.mask] at hm
  obtain ⟨p, q, hsplit, hstart, -, -, hword⟩ := (mem_quotedNames_iff h.lexed).1 hm
  obtain ⟨p', q', hsplit', rfl⟩ := exists_split_of_getElem? hn
  rw [hs, hstart, hsplit', placeOf_append] at hplace
  obtain ⟨rfl, -⟩ := h.lexed.split_unique hsplit hsplit' hplace
  have hlexed := h.lexed.take p.length
  rw [hsplit', List.take_left] at hlead hlexed
  rw [(followsWord_iff hlexed (by decide)).2 (hlead.mono (by decide))] at hword
  cases hword

end Behind

/-! ## Aliases through a pass -/

/-- `AS` introduces one name each time, no first part of a qualified one, and no name in quotes holds
the word. -/
structure PlainAliases (ts : List Token) : Prop where
  quotes : QuotesLackAs ts
  once : AsOnce ts
  noDot : ∀ n, LeadBy ["AS"] (ts.take n) → beginsWithDot (maskOf (ts.drop (n + 1))) = false

/-- Whether aliases are plain is told by the places behind `AS` in turn. -/
theorem PlainAliases.of_places {ts : List Token} (h : Lexed ts) (hq : QuotesLackAs ts)
    (hplaces : ∀ n < ts.length, followsWord ["AS"] (maskOf (ts.take n)).reverse = true →
      (∀ w ∈ ts[n]?.bind Token.name?, ¬ Spells "AS" w) ∧
        beginsWithDot (maskOf (ts.drop (n + 1))) = false) : PlainAliases ts := by
  have hplace {n : Nat} (hn : n < ts.length) (hlead : LeadBy ["AS"] (ts.take n)) :=
    hplaces n hn ((followsWord_iff (h.take n) (by decide)).2 hlead)
  refine ⟨hq, fun n w hn hlead hspells => ?_, fun n hlead => ?_⟩
  · obtain ⟨hlt, -⟩ := List.getElem?_eq_some_iff.1 hn
    exact (hplace hlt hlead).1 w (by rw [hn]; rfl) hspells
  · by_cases hn : n < ts.length
    · exact (hplace hn hlead).2
    · rw [List.drop_of_length_le (by omega)]
      rfl

/-- The known names are no keywords, and none holds an `AS` with a blank behind it. -/
structure KnownNames.LackAs (k : KnownNames) : Prop where
  noKeyword : ∀ n, k.Knows n → isKeyword n = false
  noAs : ∀ n, k.Knows n → occurs spacedAs n = false

namespace Step

variable {names : Text → Prop} {context : Text} {lookups : List Lookup} {ts us : List Token}
  {n : Nat} {i : Identifier} (h : Step names context lookups ts us) (hts : PlainWords ts)
  (hnames : ∀ n, names n → isKeyword n = false) (hapart : NoneBehindAs lookups ts)

include h hts hnames hapart

/-- Behind `AS` a pass leaves every token, and it brings none there. -/
theorem behindAs_iff {t : Token} : (us[n]? = some t ∧ LeadBy ["AS"] (us.take n)) ↔
    ts[n]? = some t ∧ LeadBy ["AS"] (ts.take n) := by
  constructor
  · rintro ⟨hn, hlead⟩
    have hlead' := h.leadBy_of_target hnames (by decide) hlead
    obtain ⟨t', ht', ⟨l, hl, hplace, -⟩ | ⟨rfl, -⟩⟩ := h.exists_source hn
    · exact absurd hlead' (hapart l hl n t' ht' hplace)
    · exact ⟨ht', hlead'⟩
  · rintro ⟨hn, hlead⟩
    have hlead' := h.leadBy hts (by decide) hlead
    obtain ⟨u, hu, ⟨l, hl, hplace, -⟩ | ⟨rfl, -⟩⟩ := h.exists_becomes hn
    · exact absurd hlead (hapart l hl n t hn hplace)
    · exact ⟨hu, hlead'⟩

theorem declaredAt_iff : DeclaredAt us n i ↔ DeclaredAt ts n i := by
  have hbehind {n : Nat} {t : Token} := h.behindAs_iff (n := n) (t := t) hts hnames hapart
  constructor
  · rintro ⟨hn, hlead, hstart⟩
    obtain ⟨hn, hlead⟩ := hbehind.1 ⟨hn, hlead⟩
    exact ⟨hn, hlead, hstart⟩
  · rintro ⟨hn, hlead, hstart⟩
    obtain ⟨hn, hlead⟩ := hbehind.2 ⟨hn, hlead⟩
    exact ⟨hn, hlead, hstart⟩

theorem asOnce (honce : AsOnce ts) : AsOnce us := by
  intro n w hn hlead
  obtain ⟨hn, hlead⟩ := (h.behindAs_iff hts hnames hapart).1 ⟨hn, hlead⟩
  exact honce n w hn hlead

end Step

namespace Traced

variable {k : KnownNames} {sql : Text} {ts a b c us : List Token}
  (h : Traced k sql ts a b c us) (hread : ReadAs sql ts) (hts : PlainWords ts) (hk : k.Writable)
  (hlack : k.LackAs) (hplain : PlainAliases ts)

include h hread hts hk hlack hplain

/-- The first three passes look nothing up behind `AS`. -/
theorem noneBehindAs : NoneBehindAs (Lookup.tables k (tableRefs sql)) ts ∧
    NoneBehindAs (Lookup.inQualified k sql (textOf a)) a ∧
    NoneBehindAs (Lookup.inQuoted k sql (textOf b)) b := by
  refine ⟨noneBehindAs_tables hread,
    noneBehindAs_inQualified h.qualified.source (h.dots hk hread.dots).1 fun n hlead => ?_,
    noneBehindAs_inQuoted h.quoted.source⟩
  have hshape := h.tables.map_shape fun l =>
    shape_tables (hread.toLexedAs.tableRefs hread.sources) hts
  rw [← hplain.noDot n (h.tables.leadBy_of_target hlack.noKeyword (by decide) hlead)]
  exact beginsWithDot_congr (fun t ht => hread.lexed.fit t (List.mem_of_mem_drop ht))
    (fun t ht => h.qualified.source.lexed.fit t (List.mem_of_mem_drop ht))
    (by rw [List.map_drop, List.map_drop, hshape])

/-- The aliases behind `AS` are those of the query in front of the third pass and behind it. -/
theorem mem_declaredAliases_iff {v : Text} :
    (v ∈ declaredAliases (maskOf b) ↔ ∃ n i, DeclaredAt ts n i ∧ i.name = v) ∧
      (v ∈ declaredAliases (maskOf c) ↔ ∃ n i, DeclaredAt ts n i ∧ i.name = v) := by
  obtain ⟨hta, hab, hbc⟩ := h.noneBehindAs hread hts hk hlack hplain
  obtain ⟨hwords, hquotes⟩ := hlack
  have hats := h.tables.plainWords hts
  have hbts := h.qualified.plainWords hats
  have hb (n : Nat) (i : Identifier) : DeclaredAt b n i ↔ DeclaredAt ts n i :=
    (h.qualified.declaredAt_iff hats hwords hab).trans (h.tables.declaredAt_iff hts hwords hta)
  have hbonce := h.qualified.asOnce hats hwords hab (h.tables.asOnce hts hwords hta hplain.once)
  have hbquotes := h.qualified.forall_quoted hquotes (h.tables.forall_quoted hquotes hplain.quotes)
  constructor
  · rw [QueryGate.mem_declaredAliases_iff h.quoted.source.lexed hbquotes hbonce]
    simp only [hb]
  · rw [QueryGate.mem_declaredAliases_iff h.selected.source.lexed
      (h.quoted.forall_quoted hquotes hbquotes) (h.quoted.asOnce hbts hwords hbc hbonce)]
    simp only [h.quoted.declaredAt_iff hbts hwords hbc, hb]

/-- The third pass looks an alias in quotes up exactly if no table has its name, and no alias behind
`AS` does. -/
theorem asksQuoted_iff {n : Nat} {w : Text} (hn : ts[n]? = some (.quoted w))
    (hplace : AliasPlace ts n) :
    Repair.AsksQuoted k b n w ↔
      (¬ ∃ m i, DeclaredAt ts m i ∧ i.name = w) ∧ ∀ t ∈ k.tables, lower t ≠ lower w := by
  rw [← (h.mem_declaredAliases_iff hread hts hk hlack hplain).1]
  constructor
  · intro hasks
    exact ⟨hasks.undeclared, hasks.noTable⟩
  rintro ⟨hundeclared, htable⟩
  refine ⟨fun hlead => ?_, hundeclared, htable⟩
  obtain ⟨p, v, g, hsplit, hne, hg, word, hword, hspells⟩ :=
    h.tables.leadBy_of_target hlack.noKeyword (by decide)
      (h.qualified.leadBy_of_target hlack.noKeyword (by decide) hlead)
  by_cases hsource : word ∈ sourceWords
  · exact hplace.noSource ⟨p, v, g, hsplit, hne, hg, word, hsource, hspells⟩
  have has : word = "AS" := by
    simp only [sourceWords, List.mem_cons, List.not_mem_nil, or_false, not_or] at hword hsource
    exact (hword.resolve_left hsource.1).resolve_left hsource.2
  refine hundeclared ((h.mem_declaredAliases_iff hread hts hk hlack hplain).1.2
    ⟨n, ⟨w, true⟩, ⟨hn, ?_, fun hbare => Bool.noConfusion hbare⟩, rfl⟩)
  exact ⟨p, v, g, hsplit, hne, hg, "AS", List.mem_singleton_self _, has ▸ hspells⟩

end Traced

/-- An alias in quotes is left exactly if it stands behind `AS` or another alias of its name does, a
table reference goes by it, a table has its name, or it is the name of a column or like none. -/
theorem quoted_alias_kept_iff {k : KnownNames} (hk : k.Writable) (hlack : k.LackAs) {sql : Text}
    {ts : List Token} (h : ReadAs sql ts) (hts : PlainWords ts) (hplain : PlainAliases ts) :
    ∃ us, LexedAs (repair k sql).sql us ∧
      ∀ n w, ts[n]? = some (.quoted w) → AliasPlace ts n →
        (us[n]? = some (.quoted w) ↔
          (∃ m i, DeclaredAt ts m i ∧ i.name = w) ∨
          (∃ r ∈ tableRefs sql, r.GoesBy k sql (lower w)) ∨
          (∃ t ∈ k.tables, lower t = lower w) ∨
          w ∈ Repair.candidates k sql ∨
          ∀ c ∈ Repair.candidates k sql, Matching.Unlike w (lower sql) c) := by
  obtain ⟨a, b, c, us, htraced⟩ := exists_traced hk h
  refine ⟨us, htraced.output ▸ htraced.selected.target, fun n w hn hplace => ?_⟩
  obtain ⟨hb, hdot⟩ := htraced.alias_of_qualified hts hk h (i := ⟨w, true⟩) hn hplace
  have hne : w ≠ [] := (h.lexed.fit _ (List.mem_of_getElem? hn)).1
  have hasks : Repair.Asks k sql b c n ⟨w, true⟩ ↔ _ :=
    htraced.asksQuoted_iff h hts hk hlack hplain hn hplace
  refine (htraced.kept_iff (i := ⟨w, true⟩) hb hdot).trans ?_
  rw [hasks, Identifier.effective, if_pos rfl, forall_matchName_iff hne]
  constructor
  · intro hkept
    by_contra hno
    simp only [not_or] at hno
    obtain ⟨hundeclared, hunbound, htable, hcolumn, hunlike⟩ := hno
    rcases hkept ⟨fun r hr hgoes => hunbound ⟨r, hr, hgoes⟩, hundeclared,
        fun t ht heq => htable ⟨t, ht, heq⟩⟩ with hmem | hall
    · exact hcolumn hmem
    · exact hunlike hall
  · rintro (hdeclared | ⟨r, hr, hgoes⟩ | ⟨t, ht, heq⟩ | hcolumn) ⟨hunbound, hundeclared, htable⟩
    · exact absurd hdeclared hundeclared
    · exact absurd hgoes (hunbound r hr)
    · exact absurd heq (htable t ht)
    · exact hcolumn

/-- An alias that is spelled almost like the column `State` is left, because another of its name
stands behind `AS`. -/
theorem quoted_alias_kept_as_declared :
    let k : KnownNames := ⟨["cities"], [("cities", ["City", "State", "population"])]⟩
    let sql : Text := "SELECT \"stat\" AS \"stat\" FROM (SELECT population \"stat\" FROM cities) t"
    (tokens sql)[15]? = some (.quoted "stat") ∧ AliasPlace (tokens sql) 15 ∧
      ∃ us, LexedAs (repair k sql).sql us ∧ us[15]? = some (.quoted "stat") := by
  intro k sql
  have hk : k.Writable := KnownNames.forall_knows_iff.2 (by decide)
  have hlack : k.LackAs :=
    ⟨KnownNames.forall_knows_iff.2 (by decide), KnownNames.forall_knows_iff.2 (by decide)⟩
  have htokens : TokensOf sql (tokens sql) := tokensOf_of_unmarked (by decide +kernel)
  have hlead {n : Nat} {words : List Text} (hwords : OfLetters words) :
      followsWord words (maskOf ((tokens sql).take n)).reverse = true ↔
        LeadBy words ((tokens sql).take n) :=
    followsWord_iff (htokens.readAs.lexed.take n) hwords
  have hplain : PlainAliases (tokens sql) :=
    .of_places htokens.readAs.lexed htokens.words.lackAs (by decide +kernel)
  have hplace : AliasPlace (tokens sql) 15 := by
    refine ⟨?_, by decide +kernel, by decide +kernel, by decide +kernel⟩
    rw [← hlead (by decide)]
    decide +kernel
  have hn : (tokens sql)[15]? = some (.quoted "stat") := by decide +kernel
  have hdeclared : DeclaredAt (tokens sql) 6 ⟨"stat", true⟩ :=
    ⟨by decide +kernel, (hlead (by decide)).1 (by decide +kernel), by decide⟩
  obtain ⟨us, hus, hkept⟩ := quoted_alias_kept_iff hk hlack htokens.readAs (by decide +kernel) hplain
  exact ⟨hn, hplace, us, hus, (hkept 15 "stat" hn hplace).2 (.inl ⟨6, _, hdeclared, rfl⟩)⟩

/-! ## Bare aliases -/

theorem Step.closedBefore {names : Text → Prop} {context : Text} {lookups : List Lookup}
    {ts us : List Token} (h : Step names context lookups ts us) {n : Nat}
    (hclosed : ClosedBefore (ts.take n)) : ClosedBefore (us.take n) := by
  obtain ⟨p, c, g, hsplit, hne, hblank⟩ := hclosed
  have hlexed : Lexed (.other c ')' :: g) := (Lexed.of_append (hsplit ▸ h.source.lexed.take n)).2
  refine ⟨(us.take n).take p.length, c, g, take_eq_of_kept h.length_eq hsplit fun j t hj ht => ?_,
    hne, hblank⟩
  rcases List.mem_cons.1 ht with rfl | ht
  · exact h.kept_other hj
  · obtain ⟨c, m, rfl⟩ := hlexed.tail.exists_other_of_blank hblank ht
    exact h.kept_other hj

/-- The last pass takes a name for an output of the query if an alias behind `AS` has it, case aside,
or it stands behind a closing parenthesis. -/
theorem Traced.lower_mem_outputNames {k : KnownNames} {sql : Text} {ts a b d us : List Token}
    (h : Traced k sql ts a b d us) (hread : ReadAs sql ts) (hts : PlainWords ts) (hk : k.Writable)
    (hlack : k.LackAs) (hplain : PlainAliases ts) (hclosing : ∀ n, k.Knows n → ')' ∉ n)
    (hq : QuotesLackClosing ts) {n : Nat} {i : Identifier} (hn : d[n]? = some i.token)
    (hbare : i.quoted = false → i.name.head?.any isFoldedNameStart = true ∧ ¬ Spells "AS" i.name)
    (hdeclared : (∃ m j, DeclaredAt ts m j ∧ lower j.name = lower i.name) ∨
      ClosedBefore (ts.take n)) :
    lower i.name ∈ Repair.outputNames (maskOf d) (maskQuoted (maskOf d)) := by
  rw [Repair.outputNames, List.map_append, List.map_append]
  refine List.mem_append_left _ ?_
  rcases hdeclared with ⟨m, j, hj, hlower⟩ | hclosed
  · refine List.mem_append_left _ (List.mem_map.2 ⟨j.name, ?_, hlower⟩)
    exact (h.mem_declaredAliases_iff hread hts hk hlack hplain).2.2 ⟨m, j, hj, rfl⟩
  · have hqc : QuotesLackClosing d := h.quoted.forall_quoted hclosing
      (h.qualified.forall_quoted hclosing (h.tables.forall_quoted hclosing hq))
    have hclosed' := h.quoted.closedBefore (h.qualified.closedBefore (h.tables.closedBefore hclosed))
    exact List.mem_append_right _ (List.mem_map.2
      ⟨i.name, mem_closingAliases h.selected.source.lexed hqc hn hclosed' hbare, rfl⟩)

/-- A bare alias is left if an alias behind `AS` has its name or it stands behind a closing
parenthesis, and no column is called so. -/
theorem bare_alias_kept {k : KnownNames} (hk : k.Writable) (hlack : k.LackAs)
    (hclosing : ∀ n, k.Knows n → ')' ∉ n) {sql : Text} {ts : List Token} (h : ReadAs sql ts)
    (hts : PlainWords ts) (hplain : PlainAliases ts) (hq : QuotesLackClosing ts) :
    ∃ us, LexedAs (repair k sql).sql us ∧
      ∀ n w, ts[n]? = some (.word w) → AliasPlace ts n →
        (∃ m i, DeclaredAt ts m i ∧ lower i.name = lower w) ∨ ClosedBefore (ts.take n) →
        (∀ c ∈ Repair.candidates k sql, lower c ≠ lower w) → us[n]? = some (.word w) := by
  obtain ⟨a, b, c, us, htraced⟩ := exists_traced hk h
  refine ⟨us, htraced.output ▸ htraced.selected.target, fun n w hn hplace hdeclared hcolumn => ?_⟩
  obtain ⟨hb, hdot⟩ := htraced.alias_of_qualified hts hk h (i := ⟨w, false⟩) hn hplace
  have hc := htraced.quoted.quoted_kept_word hb
  refine (htraced.kept_iff (i := ⟨w, false⟩) hb hdot).2 ?_
  rintro ⟨-, hasks⟩ m -
  obtain ⟨⟨k', hk', hstart⟩, hreserved, -, hout⟩ : Repair.AsksBare k sql c n w := hasks
  have hname : w.head?.any isFoldedNameStart = true := by
    have hfirst := head?_of_mem_selectedNames hk'
    rw [htraced.selected.source.lexed.value_of_mem_selectedNames hc hk' hstart] at hfirst
    obtain ⟨d, hd, hstart⟩ := (Option.any_eq_true _ _).1 hfirst
    exact (Option.any_eq_true _ _).2 ⟨d, hd, isFoldedNameStart_of_isNameStart hstart⟩
  have has : ¬ Spells "AS" w := by
    intro hspells
    have hkeyword := isKeyword_of_spells (by decide)
      (hts (.word w) (List.mem_of_getElem? hn)) hspells
    rw [isKeyword_eq_false_of_isReserved hreserved] at hkeyword
    exact absurd hkeyword (by decide)
  -- It is an output of the query for the last pass, which looks up those only that are columns.
  have hmem := htraced.lower_mem_outputNames h hts hk hlack hplain hclosing hq (i := ⟨w, false⟩) hc
    (fun _ => ⟨hname, has⟩) hdeclared
  obtain ⟨column, hcolumn', heq⟩ := List.mem_map.1 (hout hmem)
  exact absurd heq (hcolumn column hcolumn')

end QueryGate
