import QueryGate.Proofs.Repair.Tracing
import QueryGate.Proofs.Sql.NameSpans

/-!
# Names that exist

A name that denotes a known one need not be what the lookup finds: it is found by its spelling, in
the letters it is written in, while the database folds it. `existing_name_left` says which such
names a pass leaves as they are and what it writes in place of the others.

A name that is left stands unchanged in what the pass leaves if the places that are replaced do not
overlap (`Pass.Apart.leaves`). In the passes over qualified names and over names in quotes they
never do, and in the other two they do not where the text is read as tokens (`Pass.separate`). In
the pass over tables they do where a name in quotes holds a `FROM`, in that over select lists where
a name ends beside a dollar sign (`existing_names_replaced`).
-/

namespace QueryGate

/-! ## The passes one by one -/

/-- A pass of the repair with its number. -/
inductive Pass.IsOf (k : KnownNames) (sql : Text) : Nat → Pass → Prop
  | tables : IsOf k sql 0 ⟨sql, Lookup.tables k (tableRefs sql)⟩
  | qualified (text : Text) : IsOf k sql 1 ⟨text, Lookup.inQualified k sql text⟩
  | quoted (text : Text) : IsOf k sql 2 ⟨text, Lookup.inQuoted k sql text⟩
  | selected (text : Text) : IsOf k sql 3 ⟨text, Lookup.inSelected k sql text⟩

theorem isOf_of_passes {k : KnownNames} {sql : Text} {i : Nat} {p : Pass}
    (h : (passes k sql)[i]? = some p) : p.IsOf k sql i := by
  unfold passes at h
  split at h
  · cases h
  simp only [passesFrom] at h
  rcases i with _ | _ | _ | _ | i
  · exact Option.some.inj h ▸ .tables
  · exact Option.some.inj h ▸ .qualified _
  · exact Option.some.inj h ▸ .quoted _
  · exact Option.some.inj h ▸ .selected _
  · cases h

/-! ## Places -/

/-- Two tokens do not overlap. -/
theorem StandsIn.apart {ts : List Token} {i j : Identifier} {s r : Span}
    (h : StandsIn i s.start s.stop 0 ts) (h' : StandsIn j r.start r.stop 0 ts)
    (hne : s.start ≠ r.start) : s.Apart r := by
  have hbefore {i j : Identifier} {s r : Span} (h : StandsIn i s.start s.stop 0 ts)
      (h' : StandsIn j r.start r.stop 0 ts) (hlt : s.start < r.start) : s.Before r := by
    obtain ⟨p, q, hp, hstart, hstop⟩ := h
    obtain ⟨p', q', hp', hstart', -⟩ := h'
    obtain ⟨a, rfl, -⟩ := exists_append_of_lt (hp.symm.trans hp') (by omega)
    rw [maskOf_append, maskOf_cons, List.length_append, List.length_append] at hstart'
    rw [Span.Before]
    omega
  rcases Nat.lt_or_gt_of_ne hne with hlt | hlt
  · exact .inl (hbefore h h' hlt)
  · exact .inr (hbefore h' h hlt)

namespace Lookup

variable {k : KnownNames} {sql text context : Text} {l : Lookup}

/-- The names of a qualified one are looked up in the order in which they stand. -/
theorem pairwise_qualified {bound : Repair.Bindings} {q : QualifiedRef} {start stop : Nat}
    (hq : q.Spans start stop) :
    (qualified k context bound q).Pairwise (fun l l' => l.span.Before l'.span) ∧
      ∀ l ∈ qualified k context bound q, l.span.Within start stop := by
  have hcolumn (table : Text) : (column k q table).Pairwise (fun l l' => l.span.Before l'.span) ∧
      ∀ l ∈ column k q table, l.span = q.columnSpan := by
    unfold column
    split
    · exact ⟨.nil, nofun⟩
    · exact ⟨List.pairwise_singleton _ _, fun l hl => by rw [List.mem_singleton.1 hl]⟩
  have hbefore := hq.before
  rw [Span.Before] at hbefore
  constructor
  · unfold qualified
    split
    · exact (hcolumn _).1
    split
    · exact .nil
    split
    · exact List.pairwise_singleton _ _
    · refine List.pairwise_cons.2 ⟨fun l hl => ?_, (hcolumn _).1⟩
      rw [(hcolumn _).2 l hl]
      exact hq.before
  · intro l hl
    have := hq.starts
    have := hq.qualifier
    have := hq.column
    have := hq.stops
    rcases mem_qualified hl with ⟨-, hs, -⟩ | ⟨-, hs, -⟩
    · rw [hs]
      exact ⟨by omega, by omega, by omega⟩
    · rw [hs]
      exact ⟨by omega, by omega, by omega⟩

/-- What a lookup corrects is what stands at its place. -/
theorem span_of_correction? {c : Correction} (h : l.correction? context = some c) :
    c.edit.span = l.span := by
  have hedit := l.correction?_edit context
  rw [h, Option.map_some] at hedit
  obtain ⟨u, -, hu⟩ := Option.map_eq_some_iff.1 hedit.symm
  rw [← hu, Edit.span]

end Lookup

namespace Pass

variable {k : KnownNames} {sql context : Text} {i : Nat} {p : Pass} {l : Lookup}

/-- What is looked up is not empty, and stands in the text. -/
theorem IsOf.within (h : p.IsOf k sql i) (hl : l ∈ p.lookups) :
    l.span.Within 0 p.text.length := by
  cases h with
  | tables =>
    obtain ⟨r, hr, rfl⟩ := List.mem_map.1 hl
    exact within_of_mem_tableRefs hr
  | qualified text =>
    obtain ⟨q, hq, hl⟩ := List.mem_flatMap.1 hl
    obtain ⟨start, stop, hspans, hstop⟩ := exists_spans_of_mem_qualifiedRefs hq
    have hwithin := (Lookup.pairwise_qualified hspans).2 l hl
    rw [length_maskLiterals] at hstop
    exact ⟨Nat.zero_le _, hwithin.lt, hwithin.le_stop.trans hstop⟩
  | quoted text =>
    obtain ⟨m, hm, -, hs, -⟩ := mem_inQuoted hl
    have hwithin := within_of_mem_quotedNames hm
    rwa [length_maskLiterals, ← hs] at hwithin
  | selected text =>
    obtain ⟨m, hm, -, hs, -⟩ := mem_inSelected hl
    have hwithin := within_of_mem_selectedNames hm
    rwa [length_maskQuoted, length_maskLiterals, ← hs] at hwithin

/-- No two places where the pass looks a name up overlap. -/
def Separate (p : Pass) : Prop := p.lookups.Pairwise fun l l' => l.span.Apart l'.span

/-- Names that are different tokens do not overlap. -/
theorem separate_of_fits {names : Text → Prop} {ts : List Token}
    (hfits : ∀ l ∈ p.lookups, l.Fits names ts)
    (hne : p.lookups.Pairwise fun l l' => l.span.start ≠ l'.span.start) : p.Separate :=
  hne.imp_of_mem fun hl hl' hne => (hfits _ hl).stands.apart (hfits _ hl').stands hne

/-- Neither in the pass over qualified names nor in that over names in quotes do names overlap, and
in no pass over a text that is read as tokens. -/
theorem IsOf.separate (h : p.IsOf k sql i) (hp : i = 1 ∨ i = 2 ∨ ∃ ts, ReadAs p.text ts) :
    p.Separate := by
  cases h with
  | tables =>
    obtain hi | hi | ⟨ts, hts⟩ := hp
    · cases hi
    · cases hi
    have hrefs := hts.toLexedAs.tableRefs hts.sources
    refine separate_of_fits (fun l => fits_tables k.within_knows hrefs) ?_
    exact List.pairwise_map.2 (List.pairwise_map.1 hrefs.nodup)
  | qualified text =>
    refine List.pairwise_flatMap.2 ⟨fun q hq => ?_, ?_⟩
    · obtain ⟨start, stop, hspans, -⟩ := exists_spans_of_mem_qualifiedRefs hq
      exact (Lookup.pairwise_qualified hspans).1.imp .inl
    · refine (pairwise_qualifiedRefs_apart _).imp_of_mem fun {q r} hq hr hqr l hl l' hl' => .inl ?_
      obtain ⟨start, stop, hspans, -⟩ := exists_spans_of_mem_qualifiedRefs hq
      obtain ⟨start', stop', hspans', -⟩ := exists_spans_of_mem_qualifiedRefs hr
      have hle := ((Lookup.pairwise_qualified hspans).2 l hl).le_stop
      have hle' := ((Lookup.pairwise_qualified hspans').2 l' hl').start_le
      rw [hspans'.starts] at hle'
      rw [← hspans.stops] at hle
      exact (hle.trans hqr).trans hle'
  | quoted text =>
    refine List.pairwise_filterMap.2 ((pairwise_quotedNames _).imp fun {m n} hmn l hl l' hl' => ?_)
    split at hl
    · cases hl
    split at hl'
    · cases hl'
    obtain rfl := Option.some.inj hl
    obtain rfl := Option.some.inj hl'
    exact .inl hmn.2
  | selected text =>
    obtain hi | hi | ⟨ts, hts⟩ := hp
    · cases hi
    · cases hi
    refine separate_of_fits (fun l => fits_inSelected k.within_knows hts.toLexedAs) ?_
    refine List.pairwise_filterMap.2 ((pairwise_selectedNames hts.toLexedAs).imp ?_)
    intro m n hmn l hl l' hl'
    split at hl
    · cases hl
    split at hl'
    · cases hl'
    obtain rfl := Option.some.inj hl
    obtain rfl := Option.some.inj hl'
    exact hmn

/-- The places that the pass replaces overlap neither each other nor the span. -/
structure Apart (context : Text) (p : Pass) (s : Span) : Prop where
  replaced : (p.corrections context).Pairwise fun c d => c.edit.span.Apart d.edit.span
  left : ∀ c ∈ p.corrections context, c.edit.span.Apart s

/-- What stands at a span of a pass's text stands unchanged in its output, behind what the
corrections before it make of the text before it. -/
def Leaves (context : Text) (p : Pass) (s : Span) : Prop :=
  ∃ rest, p.output context =
    applyEdits (p.text.take s.start)
        (((p.corrections context).map (·.edit)).filter (·.start < s.stop)) ++
      p.text.slice s.start s.stop ++ rest

theorem Separate.apart (h : p.Separate) (hl : l ∈ p.lookups)
    (hnone : l.correction? context = none) : p.Apart context l.span where
  replaced := by
    refine List.pairwise_filterMap.2 (h.imp fun {l l'} hll' c hc d hd => ?_)
    rwa [Lookup.span_of_correction? hc, Lookup.span_of_correction? hd]
  left c hc := by
    obtain ⟨l', hl', hc⟩ := List.mem_filterMap.1 hc
    have hne : l' ≠ l := by
      rintro rfl
      rw [hnone] at hc
      cases hc
    have : Std.Symm fun l l' : Lookup => l.span.Apart l'.span := ⟨fun _ _ hapart => hapart.symm⟩
    rw [Lookup.span_of_correction? hc]
    exact h.forall hl' hl hne

theorem Apart.leaves (h : p.Apart context l.span) (hp : p.IsOf k sql i) (hl : l ∈ p.lookups) :
    p.Leaves context l.span := by
  have hspan := hp.within hl
  refine applyEdits_around ⟨fun e he => ?_, List.pairwise_map.2 h.replaced⟩ hspan.lt
    hspan.le_stop fun e he => ?_
  · obtain ⟨c, hc, rfl⟩ := List.mem_map.1 he
    obtain ⟨l', hl', hc⟩ := List.mem_filterMap.1 hc
    have hlt := (hp.within hl').lt
    rwa [← Lookup.span_of_correction? hc] at hlt
  · obtain ⟨c, hc, rfl⟩ := List.mem_map.1 he
    exact h.left c hc

end Pass

/-! ## Names through all passes -/

/-- A token is left by a pass that knows the name wherever it looks it up, and finds it. -/
theorem Step.kept_of_settled {names : Text → Prop} {context : Text} {lookups : List Lookup}
    {ts us : List Token} (h : Step names context lookups ts us) {n : Nat} {t : Token}
    (hn : ts[n]? = some t)
    (hsettled : ∀ l ∈ lookups, l.span.start = placeOf ts n → l.Settled) : us[n]? = some t := by
  obtain ⟨u, hu, ⟨l, hl, hplace, hrep⟩ | ⟨rfl, -⟩⟩ := h.exists_becomes hn
  · rw [Lookup.replacement?_eq_none_iff.2 ((hsettled l hl hplace).correction? context)] at hrep
    cases hrep
  · exact hu

/-- Wherever a pass looks up the token with a number, it is settled. -/
structure SettledAt (k : KnownNames) (sql : Text) (ts a b c : List Token) (n : Nat) : Prop where
  tables : ∀ l ∈ Lookup.tables k (tableRefs sql), l.span.start = placeOf ts n → l.Settled
  qualified : ∀ l ∈ Lookup.inQualified k sql (textOf a), l.span.start = placeOf a n → l.Settled
  quoted : ∀ l ∈ Lookup.inQuoted k sql (textOf b), l.span.start = placeOf b n → l.Settled
  selected : ∀ l ∈ Lookup.inSelected k sql (textOf c), l.span.start = placeOf c n → l.Settled

theorem Traced.kept_of_settledAt {k : KnownNames} {sql : Text} {ts a b c us : List Token}
    (h : Traced k sql ts a b c us) {n : Nat} {t : Token} (hn : ts[n]? = some t)
    (hsettled : SettledAt k sql ts a b c n) : us[n]? = some t :=
  h.selected.kept_of_settled
    (h.quoted.kept_of_settled
      (h.qualified.kept_of_settled (h.tables.kept_of_settled hn hsettled.tables)
        hsettled.qualified)
      hsettled.quoted)
    hsettled.selected

/-! ## Existing names -/

/-- A name that denotes a known one is left by a pass that looks it up exactly if nothing keeps it
from being found; otherwise the pass writes its own spelling or the first known name that spells the
same. What is left stands in the output of the pass, unless places that the pass replaces overlap,
and a token that each pass leaves stands in the repaired text. -/
theorem existing_name_left (k : KnownNames) (sql : Text) :
    repair k sql =
        ⟨((passes k sql).getLast?.map (Pass.output sql)).getD sql,
          ((passes k sql).flatMap (Pass.corrections sql)).map (·.note)⟩ ∧
      (∀ i p, (passes k sql)[i]? = some p → ∀ l ∈ p.lookups, l.identifier.effective ∈ l.known →
        (l.correction? sql = none ↔ l.Undisputed) ∧
        (¬ l.Undisputed → ∃ n note, l.TakenFor n ∧ n ≠ l.identifier.effective ∧
          l.correction? sql = some ⟨⟨l.span.start, l.span.stop, renderName n false⟩, note⟩) ∧
        (l.Undisputed →
          (i = 1 ∨ i = 2 ∨ (∃ ts, ReadAs p.text ts) ∨ p.Apart sql l.span) →
            p.Leaves sql l.span)) ∧
      (k.Writable → ∀ ts, ReadAs sql ts → ∃ a b c us, Traced k sql ts a b c us ∧
        ∀ n t, ts[n]? = some t → SettledAt k sql ts a b c n → us[n]? = some t) := by
  refine ⟨repair_eq_passes k sql, fun i p hp l hl hexists => ?_, fun hk ts hts => ?_⟩
  · have hof := isOf_of_passes hp
    have hdisputed (h : ¬ l.Undisputed) : ∃ n note, l.TakenFor n ∧ n ≠ l.identifier.effective ∧
        l.correction? sql = some ⟨⟨l.span.start, l.span.stop, renderName n false⟩, note⟩ :=
      Lookup.exists_correction?_of_disputed hexists h
    refine ⟨⟨fun hnone => ?_, Lookup.correction?_of_undisputed hexists⟩, hdisputed, fun h hsep => ?_⟩
    · by_contra h
      obtain ⟨n, note, -, -, hsome⟩ := hdisputed h
      rw [hnone] at hsome
      cases hsome
    · have hnone : l.correction? sql = none := Lookup.correction?_of_undisputed hexists h
      rcases hsep with hi | hi | hread | hapart
      · exact ((hof.separate (.inl hi)).apart hl hnone).leaves hof hl
      · exact ((hof.separate (.inr (.inl hi))).apart hl hnone).leaves hof hl
      · exact ((hof.separate (.inr (.inr hread))).apart hl hnone).leaves hof hl
      · exact hapart.leaves hof hl
  · obtain ⟨a, b, c, us, htraced⟩ := exists_traced hk hts
    exact ⟨a, b, c, us, htraced, fun n t => htraced.kept_of_settledAt⟩

/-- A column that exists is left while the one beside it is corrected. -/
theorem existing_column_left :
    let k : KnownNames := ⟨["t"], [("t", ["city", "state"])]⟩
    let sql : Text := "SELECT stat, city FROM t"
    let p : Pass := ⟨sql, [⟨"Column", ⟨"stat", false⟩, ⟨7, 11⟩, ["city", "state"]⟩,
      ⟨"Column", ⟨"city", false⟩, ⟨13, 17⟩, ["city", "state"]⟩]⟩
    (passes k sql)[3]? = some p ∧ p.Leaves sql ⟨13, 17⟩ ∧
      p.output sql = "SELECT state, city FROM t" ∧
      ∃ us, LexedAs (repair k sql).sql us ∧ us[5]? = some (.word "city") := by
  intro k sql p
  have hread : ReadAs sql (tokens sql) := (tokensOf_of_unmarked (by decide +kernel)).readAs
  obtain ⟨-, hpasses, htokens⟩ := existing_name_left k sql
  have hp : (passes k sql)[3]? = some p := by decide +kernel
  have hleaves : p.Leaves sql ⟨13, 17⟩ :=
    (hpasses 3 p hp ⟨"Column", ⟨"city", false⟩, ⟨13, 17⟩, ["city", "state"]⟩ (by decide)
      (by decide +kernel)).2.2 (.inr (.inl (by decide +kernel))) (.inr (.inr (.inl ⟨_, hread⟩)))
  refine ⟨hp, hleaves, by decide +kernel, ?_⟩
  obtain ⟨a, b, c, us, htraced, hkept⟩ :=
    htokens (KnownNames.forall_knows_iff.2 (by decide)) _ hread
  -- The first three passes correct nothing.
  have ha : textOf a = sql := by
    rw [htraced.tables.output, hread.text]
    decide +kernel
  have hb : textOf b = sql := by
    rw [htraced.qualified.output, ha]
    decide +kernel
  have hc : textOf c = sql := by
    rw [htraced.quoted.output, hb]
    decide +kernel
  have htokensc : c = tokens sql :=
    htraced.quoted.target.lexed.unique hread.lexed (hc.trans hread.text.symm)
      (by rw [htraced.quoted.target.mask, hc, hread.mask])
  have hsmall {l : Lookup} (h : l.identifier.effective ∈ l.known ∧
      lower l.identifier.name = l.identifier.name) : l.Settled := ⟨h.1, .inr (.inl h.2)⟩
  refine ⟨us, htraced.output ▸ htraced.selected.target, hkept 5 _ (by decide +kernel) ⟨?_, ?_, ?_, ?_⟩⟩
  · exact fun l hl _ => hsmall
      ((by decide +kernel : ∀ l ∈ Lookup.tables k (tableRefs sql),
        l.identifier.effective ∈ l.known ∧ lower l.identifier.name = l.identifier.name) l hl)
  · rw [ha]
    exact fun l hl => absurd hl
      (by rw [(by decide +kernel : Lookup.inQualified k sql sql = [])]; exact List.not_mem_nil)
  · rw [hb]
    exact fun l hl => absurd hl
      (by rw [(by decide +kernel : Lookup.inQuoted k sql sql = [])]; exact List.not_mem_nil)
  · rw [hc, htokensc]
    exact fun l hl hplace => hsmall
      ((by decide +kernel : ∀ l ∈ Lookup.inSelected k sql sql,
        l.span.start = placeOf (tokens sql) 5 → l.identifier.effective ∈ l.known ∧
          lower l.identifier.name = l.identifier.name) l hl hplace)

/-- Names that exist are replaced where their capitals are known or another known name spells the
same. They are damaged where a name is read inside of them, or from part of them, and corrected. -/
theorem existing_names_replaced :
    (let k : KnownNames := ⟨["t"], [("t", ["city", "City"])]⟩
      let sql : Text := "SELECT City FROM t"
      let l : Lookup := ⟨"Column", ⟨"City", false⟩, ⟨7, 11⟩, ["city", "City"]⟩
      (passes k sql)[3]? = some ⟨sql, [l]⟩ ∧ l.identifier.effective ∈ l.known ∧
        (repair k sql).sql = "SELECT \"City\" FROM t") ∧
    (let k : KnownNames := ⟨["t"], [("t", ["user_id", "userid"])]⟩
      let sql : Text := "SELECT UserId FROM t"
      let l : Lookup := ⟨"Column", ⟨"UserId", false⟩, ⟨7, 13⟩, ["user_id", "userid"]⟩
      (passes k sql)[3]? = some ⟨sql, [l]⟩ ∧ l.identifier.effective ∈ l.known ∧
        (repair k sql).sql = "SELECT user_id FROM t") ∧
    (let k : KnownNames := ⟨["x", "b FROM citys", "city"], []⟩
      let sql : Text := "SELECT 1 FROM x, \"b FROM citys\""
      let l : Lookup := ⟨"Table", ⟨"b FROM citys", true⟩, ⟨17, 31⟩, k.tables⟩
      (∃ p, (passes k sql)[0]? = some p ∧ l ∈ p.lookups) ∧ l.identifier.effective ∈ l.known ∧
        l.Undisputed ∧ (repair k sql).sql = "SELECT 1 FROM x, \"b FROM city\"") ∧
    (let k : KnownNames := ⟨["x", "t"], [("t", ["ab", "ab$from"])]⟩
      let sql : Text := "SELECT (SELECT ab$from x) FROM t"
      let l : Lookup := ⟨"Column", ⟨"ab$from", false⟩, ⟨15, 22⟩, ["ab", "ab$from"]⟩
      (∃ p, (passes k sql)[3]? = some p ∧ l ∈ p.lookups) ∧ l.identifier.effective ∈ l.known ∧
        l.Undisputed ∧ (repair k sql).sql = "SELECT (SELECT abfrom x) FROM t") := by
  refine ⟨by decide +kernel, by decide +kernel, ?_, ?_⟩
  · exact ⟨⟨_, rfl, by decide +kernel⟩, by decide +kernel, .inl rfl, by decide +kernel⟩
  · exact ⟨⟨_, rfl, by decide +kernel⟩, by decide +kernel, .inr (.inl (by decide +kernel)),
      by decide +kernel⟩

end QueryGate
