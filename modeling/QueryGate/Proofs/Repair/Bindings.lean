import QueryGate.Proofs.Repair.Tracing
import QueryGate.Proofs.Sql.SelectEnds

/-!
# Names that a query binds

A table reference goes by its name, by the name of the table that it is taken for, and by its alias
(`TableRef.GoesBy`). A name that a reference goes by is bound to the table of the last that does
(`find?_bindings_concat`), and the last two passes leave it as it is. What the second pass looks up
is a part of a qualified name, and which tokens these are stays the same from pass to pass
(`Traced.qualifiedPlaces`).
-/

namespace QueryGate

/-! ## Bound names -/

section Bound

variable {k : KnownNames} {context : Text} {r : TableRef} {refs : List TableRef} {key : Text}

/-- A reference goes by a name, which is given in small letters. -/
def TableRef.GoesBy (k : KnownNames) (context : Text) (r : TableRef) (key : Text) : Prop :=
  lower (Repair.resolvedTable k context r) = key ∨ lower r.name = key ∨
    r.aliasName.map lower = some key

instance : Decidable (r.GoesBy k context key) := inferInstanceAs (Decidable (_ ∨ _ ∨ _))

/-- What a further reference binds. -/
theorem find?_bindings_concat :
    Dictionary.find? key (Repair.bindings k context (refs ++ [r])) =
      if r.GoesBy k context key then some (Repair.resolvedTable k context r)
      else Dictionary.find? key (Repair.bindings k context refs) := by
  rw [Repair.bindings, List.foldl_append, List.foldl_cons, List.foldl_nil, ← Repair.bindings]
  by_cases hby : r.GoesBy k context key
  · rw [if_pos hby]
    unfold TableRef.GoesBy at hby
    cases ha : r.aliasName with
    | none =>
      rw [ha] at hby
      obtain htable | hname | halias := hby
      · simp [Dictionary.find?, htable]
      · simp [Dictionary.find?, hname]
      · cases halias
    | some a =>
      rw [ha] at hby
      obtain htable | hname | halias := hby
      · simp [Dictionary.find?, htable]
      · simp [Dictionary.find?, hname]
      · simp [Dictionary.find?, Option.some.inj halias]
  · rw [if_neg hby]
    unfold TableRef.GoesBy at hby
    rw [not_or, not_or] at hby
    obtain ⟨htable, hname, halias⟩ := hby
    cases ha : r.aliasName with
    | none => simp [Dictionary.find?, htable, hname]
    | some a =>
      rw [ha, Option.map_some, Option.some_inj] at halias
      simp [Dictionary.find?, htable, hname, halias]

/-- A name is bound to a table that a reference of the name is taken for. -/
theorem exists_ref_of_bound {table : Text}
    (h : Dictionary.find? key (Repair.bindings k context refs) = some table) :
    ∃ r ∈ refs, r.GoesBy k context key ∧ Repair.resolvedTable k context r = table := by
  induction refs using List.reverseRecOn with
  | nil => cases h
  | append_singleton refs r ih =>
    rw [find?_bindings_concat] at h
    split at h
    · rename_i hby
      exact ⟨r, by simp, hby, Option.some.inj h⟩
    · obtain ⟨s, hs, hfound⟩ := ih h
      exact ⟨s, List.mem_append_left _ hs, hfound⟩

/-- A name that a reference goes by is bound. -/
theorem isSome_bound (hr : r ∈ refs) (h : r.GoesBy k context key) :
    (Dictionary.find? key (Repair.bindings k context refs)).isSome = true := by
  induction refs using List.reverseRecOn with
  | nil => cases hr
  | append_singleton refs s ih =>
    rw [find?_bindings_concat]
    split
    · rfl
    · rename_i hno
      refine ih ((List.mem_append.1 hr).resolve_right fun hlast => ?_)
      rw [List.mem_singleton.1 hlast] at h
      exact hno h

end Bound

/-! ## What becomes of bound names -/

section Kept

variable {k : KnownNames} {sql : Text} {ts us : List Token} {names : Text → Prop} {n : Nat}
  {i : Identifier}

/-- A name under which something is bound is left by lookups of names that are bound to nothing. -/
theorem Step.kept_of_bound {lookups : List Lookup} (h : Step names sql lookups ts us)
    (hfree : ∀ l ∈ lookups, Dictionary.find? (lower l.identifier.name)
      (Repair.bindings k sql (tableRefs sql)) = none)
    (hn : ts[n]? = some i.token)
    (hbound : (Dictionary.find? (lower i.name)
      (Repair.bindings k sql (tableRefs sql))).isSome = true) :
    us[n]? = some i.token := by
  refine (h.exists_lookup hn).resolve_right ?_
  rintro ⟨l, hl, rfl, -⟩
  rw [hfree l hl] at hbound
  cases hbound

theorem Step.quoted_kept_of_bound (h : Step names sql (Lookup.inQuoted k sql (textOf ts)) ts us)
    (hn : ts[n]? = some i.token)
    (hbound : (Dictionary.find? (lower i.name)
      (Repair.bindings k sql (tableRefs sql))).isSome = true) :
    us[n]? = some i.token := by
  refine h.kept_of_bound (fun l hl => ?_) hn hbound
  obtain ⟨m, -, hi, -, -, hnone, -⟩ := mem_inQuoted hl
  rw [hi]
  exact hnone

theorem Step.selected_kept_of_bound
    (h : Step names sql (Lookup.inSelected k sql (textOf ts)) ts us) (hn : ts[n]? = some i.token)
    (hbound : (Dictionary.find? (lower i.name)
      (Repair.bindings k sql (tableRefs sql))).isSome = true) :
    us[n]? = some i.token := by
  refine h.kept_of_bound (fun l hl => ?_) hn hbound
  obtain ⟨m, -, hi, -, -, -, hnone, -⟩ := mem_inSelected hl
  rw [hi]
  exact hnone

end Kept

/-! ## Parts of qualified names -/

section Qualified

variable {k : KnownNames} {sql text : Text} {ts : List Token} {l : Lookup}

theorem shape_inQualified (hl : l ∈ Lookup.inQualified k sql text) :
    l.identifier.token.shape = .name := by
  obtain ⟨q, hq, hl⟩ := List.mem_flatMap.1 hl
  obtain ⟨hqualifier, hcolumn⟩ := shape_of_mem_qualifiedRefs hq
  rcases mem_qualified hl with ⟨hi, -⟩ | ⟨hi, -⟩
  · rwa [hi]
  · rwa [hi]

theorem shape_inQuoted (hl : l ∈ Lookup.inQuoted k sql text) :
    l.identifier.token.shape = .name := by
  obtain ⟨m, -, hi, -⟩ := mem_inQuoted hl
  rw [hi]
  rfl

theorem shape_inSelected (hl : l ∈ Lookup.inSelected k sql text) :
    l.identifier.token.shape = .name := by
  obtain ⟨m, hm, hi, -⟩ := mem_inSelected hl
  rw [hi]
  change (Token.word m.value).shape = .name
  rw [Token.shape_word, head?_of_mem_selectedNames hm, if_pos rfl]

theorem shape_tables (hrefs : RefsIn (tableRefs sql) ts) (hts : PlainWords ts)
    (hl : l ∈ Lookup.tables k (tableRefs sql)) : l.identifier.token.shape = .name := by
  obtain ⟨r, hr, rfl⟩ := List.mem_map.1 hl
  have hin := hrefs.refIn r hr
  change r.identifier.token.shape = .name
  obtain ⟨p, q, hsplit, -⟩ := hin.stands
  have hplain := hts r.identifier.token (by rw [hsplit]; simp)
  unfold TableRef.identifier at hplain ⊢
  cases hquoted : r.quoted with
  | true => rfl
  | false =>
    rw [hquoted] at hplain
    have hstart := hin.starts hquoted
    cases hc : r.name.head? with
    | none =>
      rw [hc] at hstart
      cases hstart
    | some c =>
      rw [hc] at hstart
      have hname := isNameStart_of_not_folded (hplain c (List.mem_of_head? hc)) hstart
      change (Token.word r.name).shape = .name
      rw [Token.shape_word, hc, Option.any_some, hname, if_pos rfl]

/-- What the second pass looks up is the column of a qualified name or a qualifier. -/
theorem exists_pair_of_inQualified (h : LexedAs text ts) (hdots : QuotesLackDots ts)
    (hl : l ∈ Lookup.inQualified k sql text) {n : Nat} {t : Token} (hn : ts[n]? = some t)
    (hplace : l.span.start = placeOf ts n) :
    ∃ q ∈ qualifiedRefs (maskOf ts), ∃ p ∈ qualifiedPlaces ts, PairOf ts q p ∧
      (p.2 = n ∧ (∃ table, l.known = k.columnsOf [table] ∧
        (Dictionary.find? (lower q.qualifier.name)
            (Repair.bindings k sql (tableRefs sql)) = some table ∨
          Dictionary.find? (lower q.qualifier.name)
              (Repair.bindings k sql (tableRefs sql)) = none ∧
            (matchName q.qualifier.name k.tables sql).map (·.name) = some table)) ∨
        p.1 = n ∧ l.known = k.tables ∧ Dictionary.find? (lower q.qualifier.name)
          (Repair.bindings k sql (tableRefs sql)) = none) := by
  obtain ⟨q, hq, hl⟩ := List.mem_flatMap.1 hl
  rw [← h.mask] at hq
  obtain ⟨p, hp, hpair, -⟩ := exists_pair_of_mem_qualifiedRefs h.lexed hdots hq
  refine ⟨q, hq, p, hp, hpair, ?_⟩
  rcases mem_qualified hl with ⟨-, hs, -, htable⟩ | ⟨-, hs, -, hknown, hnone⟩
  · refine .inl ⟨h.lexed.placeOf_injective hpair.column hn ?_, htable⟩
    rw [hpair.columnPlace, ← hs, hplace]
  · refine .inr ⟨h.lexed.placeOf_injective hpair.qualifier hn ?_, hknown, hnone⟩
    rw [hpair.qualifierPlace, ← hs, hplace]

end Qualified

/-! ## Beside what is looked up -/

section Beside

variable {k : KnownNames} {sql text : Text} {ts : List Token} {l : Lookup} (h : LexedAs text ts)
  {n : Nat} {t : Token} (hn : ts[n]? = some t) (hplace : l.span.start = placeOf ts n)

include h hn hplace

/-- A name in quotes that is looked up has no dot beside it. -/
theorem beside_of_inQuoted (hl : l ∈ Lookup.inQuoted k sql text) :
    beginsWithDot (maskOf (ts.take n)).reverse = false ∧
      beginsWithDot (maskOf (ts.drop (n + 1))) = false := by
  obtain ⟨m, hm, hi, hs, -⟩ := mem_inQuoted hl
  rw [← h.mask] at hm
  have hdot := not_dotBeside_of_mem_quotedNames h.lexed hm
  obtain ⟨p, q, hts, hstart, hstop⟩ := stand_of_mem_quotedNames h.lexed hm
  obtain ⟨p', q', hts', rfl⟩ := exists_split_of_getElem? hn
  rw [hs, hts', placeOf_append] at hplace
  simp only at hplace
  obtain ⟨rfl, hrest⟩ := h.lexed.split_unique hts hts' (by omega)
  obtain ⟨rfl, rfl⟩ := List.cons.inj hrest
  rw [hstop, hplace, hts', dotBeside_maskOf] at hdot
  rw [hts', List.take_left, ← List.drop_drop, List.drop_left, List.drop_succ_cons, List.drop_zero]
  exact Bool.or_eq_false_iff.1 hdot

/-- A name of a select list that is looked up has no dot directly in front, none behind it, and no
`AS` in front. -/
theorem beside_of_inSelected (hl : l ∈ Lookup.inSelected k sql text) :
    (maskOf (ts.take n)).getLast? ≠ some '.' ∧ beginsWithDot (maskOf (ts.drop (n + 1))) = false ∧
      ¬ LeadBy ["AS"] (ts.take n) := by
  obtain ⟨m, hm, -, hs, -⟩ := mem_inSelected hl
  rw [← h.mask] at hm
  rw [hs] at hplace
  exact beside_of_mem_selectedNames h.lexed hm hn hplace

end Beside

/-- What is read as a qualified name behind a pass, and not as a table or a call, was read so in
front of it. -/
theorem Step.exists_qualifiedRef {names : Text → Prop} {context : Text} {lookups : List Lookup}
    {ts us : List Token} (h : Step names context lookups ts us) (hts : PlainWords ts)
    (hdots : QuotesLackDots ts) (hshape : us.map Token.shape = ts.map Token.shape)
    {q : QualifiedRef} (hq : q.isTableOrCall = false) {p : Nat × Nat}
    (hp : p ∈ qualifiedPlaces us) (hpair : PairOf us q p) :
    ∃ q' ∈ qualifiedRefs (maskOf ts), PairOf ts q' p := by
  have hsource := h.source.lexed
  have htarget := h.target.lexed
  unfold qualifiedPlaces at hp
  rw [hshape] at hp
  obtain ⟨q', hpair', hmem⟩ := exists_mem_qualifiedRefs_of_pair hsource hdots hp
  refine ⟨q', hmem ?_, hpair'⟩
  have hbefore {xs : List Token} (hxs : Lexed xs) (n : Nat) :
      followsWord ["FROM", "JOIN"] (maskOf (xs.take n)).reverse = true ↔
        LeadBy ["FROM", "JOIN"] (xs.take n) := by
    refine followsWord_iff ?_ (by decide)
    rw [← List.take_append_drop n xs] at hxs
    exact (Lexed.of_append hxs).1
  have hcall : opensCall (maskOf (us.drop (p.2 + 1))) = opensCall (maskOf (ts.drop (p.2 + 1))) :=
    opensCall_congr (fun t ht => hsource.fit t (List.mem_of_mem_drop ht))
      (fun t ht => htarget.fit t (List.mem_of_mem_drop ht))
      (by rw [List.map_drop, List.map_drop, hshape])
  rw [hpair.isTableOrCall, hcall, Bool.or_eq_false_iff] at hq
  rw [hpair'.isTableOrCall, hq.2, Bool.or_false, Bool.eq_false_iff]
  intro hfollows
  have hlead := h.leadBy hts (by decide) ((hbefore hsource p.1).1 hfollows)
  rw [(hbefore htarget p.1).2 hlead] at hq
  exact absurd hq.1 (by decide)

namespace Traced

variable {k : KnownNames} {sql : Text} {ts a b c us : List Token} (h : Traced k sql ts a b c us)

include h

/-- The query and what each pass leaves of it hold no dots in quotes. -/
theorem dots (hk : k.Writable) (hts : QuotesLackDots ts) :
    QuotesLackDots a ∧ QuotesLackDots b ∧ QuotesLackDots c ∧ QuotesLackDots us := by
  have hnames : ∀ n, k.Knows n → '.' ∉ n := fun n hn => (hk n hn).2.2
  have ha := h.tables.quotesLackDots hts hnames
  have hb := h.qualified.quotesLackDots ha hnames
  have hc := h.quoted.quotesLackDots hb hnames
  exact ⟨ha, hb, hc, h.selected.quotesLackDots hc hnames⟩

/-- The parts of qualified names are the same tokens behind the first pass and behind the last. -/
theorem qualifiedPlaces :
    qualifiedPlaces b = qualifiedPlaces a ∧ qualifiedPlaces c = qualifiedPlaces a ∧
      qualifiedPlaces us = qualifiedPlaces a := by
  unfold QueryGate.qualifiedPlaces
  have hb := h.qualified.map_shape fun l => shape_inQualified
  have hc := h.quoted.map_shape fun l => shape_inQuoted
  have hus := h.selected.map_shape fun l => shape_inSelected
  rw [hus, hc, hb]
  exact ⟨rfl, rfl, rfl⟩

end Traced

end QueryGate
