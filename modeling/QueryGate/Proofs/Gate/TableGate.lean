import QueryGate.Gate.Existence
import QueryGate.Proofs.Sql.FromItems

/-!
# Completeness of the table gate

Which tables of the list of a query the gate sees. The list of a `FROM` is followed only behind a
plain table, from comma to comma, and a `JOIN` is found wherever it stands. So the gate sees every
table but those behind a comma after a `JOIN` or after a query in parentheses, and rejects a query
where it sees a table that is unknown.
-/

namespace QueryGate

/-! ## The first source -/

namespace FromQuery

theorem introducesTable_head (q : FromQuery) :
    introducesTable (maskLiterals q.head.text).reverse = true := by
  rw [introducesTable, q.head.plain, q.head.outside]
  rfl

theorem atWordStart_head (q : FromQuery) :
    atWordStart (maskLiterals q.head.text).reverse = true := by
  have hapart : (maskLiterals q.head.text).reverse.head?.any isNamePart = false := by
    rw [List.head?_reverse, getLast?_maskLiterals]
    exact q.head.apart
  rw [atWordStart, head?_any_isWordChar hapart]
  rfl

theorem scanned_head (q : FromQuery) (next : Text) :
    ∃ rs, Scanned [] (maskLiterals q.head.text) (q.word.text ++ next) rs := by
  have hne : maskLiterals q.head.text ≠ [] := fun hnil => by
    have := length_maskLiterals q.head.text
    rw [hnil] at this
    exact q.head.ne_nil (List.length_eq_zero_iff.1 this.symm)
  have hword : (q.word.text ++ next).head?.any
      (fun c => isBlank c || c == '.' || c == '(') = false :=
    q.word.head?_text_any (by decide) (by decide) (fun _ => not_end_of_isWordChar) next
  have hdot : (skipBlanks (q.word.text ++ next)).head? ≠ some '.' := by
    rw [skipBlanks_eq_self (q.word.head?_text_any (by decide) (by decide)
      (fun _ => isBlank_eq_false_of_isWordChar) next)]
    intro h
    rw [h] at hword
    cases hword
  refine Scanned.of_isClosed [] q.head.closed (.inr ⟨hne, ?_⟩) hdot
  rw [getLast?_maskLiterals]
  exact q.head.apart

/-- What stands before the items of a query, its free text masked, read backwards. -/
def beforeItems (q : FromQuery) : Text :=
  (q.word.text ++ q.first.gap.text ++ q.first.source.text maskLiterals).reverse ++
    (maskLiterals q.head.text).reverse

/-- What follows the first source, its free text masked. -/
def rest (q : FromQuery) : Text := restText maskLiterals q.items q.tail

theorem length_beforeItems (q : FromQuery) :
    q.beforeItems.length = q.firstStart + (q.first.source.text id).length := by
  rw [beforeItems, firstStart, ← Source.length_text_maskLiterals]
  simp only [List.length_append, List.length_reverse, length_maskLiterals]
  omega

/-- The references of a query: those of its head, and those from the `FROM` on. -/
theorem tableRefs_sql (q : FromQuery) :
    ∃ rs, (∀ r ∈ rs, r.start < q.head.text.length) ∧ tableRefs q.sql =
      rs ++ refsFrom (maskLiterals q.head.text).reverse
        (q.word.text ++ q.first.gap.text ++ q.first.source.text maskLiterals ++ q.rest) := by
  obtain ⟨rs, hrs⟩ := q.scanned_head
    (q.first.gap.text ++ (q.first.source.text maskLiterals ++ q.rest))
  refine ⟨rs, fun r hr => ?_, ?_⟩
  · have hhigh := (hrs.inside r hr).2
    rwa [List.length_nil, Nat.zero_add, length_maskLiterals] at hhigh
  · rw [tableRefs, q.maskLiterals_sql, tableRefsIn_eq, text, ← rest, hrs.eq, List.append_nil]
    simp only [List.append_assoc]

/-- A first source that is a table makes a reference, and the list and the scan go on behind it. -/
theorem refsFrom_first_table {q : FromQuery} {name : TableName} {alias? : Option (Gap × Alias)}
    (h : q.first.source = .table name alias?) :
    ∃ r, refsFrom (maskLiterals q.head.text).reverse
        (q.word.text ++ q.first.gap.text ++ q.first.source.text maskLiterals ++ q.rest) =
        [r] ++ listedRefs (q.beforeItems.length + q.rest.length) "FROM"
          (afterAlias (aliasText alias? ++ q.rest)).length
          (afterAlias (aliasText alias? ++ q.rest)) ++
        refsFrom q.beforeItems q.rest ∧
      r.Names name (q.firstStart + name.lead.length) := by
  have hapart : Apart q.rest := apart_restText q.items q.tail
  obtain ⟨r, hrefs, hnames⟩ := refsFrom_table q.word q.atWordStart_head q.introducesTable_head
    q.first.gap.blank (q.first.apart (by rw [h]; rfl)) name (apart_aliasText alias? hapart)
  have halias := (scanned_aliasText ((q.word.text ++ q.first.gap.text ++ name.text).reverse ++
    (maskLiterals q.head.text).reverse) alias? hapart.head).eq
  have htext : q.word.text ++ q.first.gap.text ++ q.first.source.text maskLiterals ++ q.rest =
      q.word.text ++ q.first.gap.text ++ name.text ++ (aliasText alias? ++ q.rest) := by
    rw [h, Source.text]
    simp only [List.append_assoc]
  have hbefore : q.beforeItems = (aliasText alias?).reverse ++
      ((q.word.text ++ q.first.gap.text ++ name.text).reverse ++
        (maskLiterals q.head.text).reverse) := by
    rw [beforeItems, h, Source.text]
    simp only [List.reverse_append, List.append_assoc]
  have hsize : (maskLiterals q.head.text).reverse.length +
      (q.word.text ++ q.first.gap.text ++ name.text ++ (aliasText alias? ++ q.rest)).length =
        q.beforeItems.length + q.rest.length := by
    rw [hbefore]
    simp only [List.length_append, List.length_reverse]
    omega
  refine ⟨r, ?_, ?_⟩
  · rw [htext, hrefs, hsize, halias, hbefore]
    rfl
  · rw [firstStart]
    simpa only [List.length_append, List.length_reverse, length_maskLiterals] using hnames

/-- A query in parentheses behind `FROM` adds references that start in it. -/
theorem refsFrom_first_derived {q : FromQuery} (h : q.first.source.isTable = false) :
    ∃ rs, (∀ r ∈ rs, r.start < q.beforeItems.length) ∧ refsFrom (maskLiterals q.head.text).reverse
        (q.word.text ++ q.first.gap.text ++ q.first.source.text maskLiterals ++ q.rest) =
      rs ++ refsFrom q.beforeItems q.rest := by
  have hapart : Apart q.rest := apart_restText q.items q.tail
  obtain ⟨rs, hrs, -⟩ := q.first.source.scanned
    ((q.word.text ++ q.first.gap.text).reverse ++ (maskLiterals q.head.text).reverse) hapart
  have hopen : '(' ∈ (q.first.source.text maskLiterals ++ q.rest).head? := by
    cases hs : q.first.source with
    | table name alias? =>
      rw [hs] at h
      cases h
    | derived query gap a =>
      rw [Source.text, List.append_assoc]
      exact query.head?_text_maskLiterals _
  have hall := (Scanned.of_parenthesis (maskLiterals q.head.text).reverse (by decide)
    q.word q.first.gap.blank hopen).append hrs
  refine ⟨[] ++ rs, fun r hr => ?_, hall.eq⟩
  have hhigh := (hall.inside r hr).2
  rw [beforeItems, List.length_append, List.length_reverse]
  omega

/-- Behind a first source that is a table the list and the scan find the tables. -/
theorem foundAs_table {q : FromQuery} {name : TableName} {alias? : Option (Gap × Alias)}
    (h : q.first.source = .table name alias?) {p : Placed} (hp : p ∈ q.tables) :
    FoundAs [.leading, .joined] (refsFrom (maskLiterals q.head.text).reverse
      (q.word.text ++ q.first.gap.text ++ q.first.source.text maskLiterals ++ q.rest)) p := by
  obtain ⟨r, hrefs, hnames⟩ := refsFrom_first_table h
  rw [tables, ← q.length_beforeItems, h] at hp
  rw [hrefs]
  rcases List.mem_append.1 hp with hp | hp
  · obtain rfl := List.mem_singleton.1 hp
    exact ⟨fun _ => ⟨r, by simp, hnames⟩, fun h => nomatch h⟩
  · have hne : q.items ≠ [] := by
      intro hnil
      rw [hnil] at hp
      cases hp
    have hlow := le_start_of_mem_placedItems hp
    have hfirst : FoundAs [] [r] p := .of_missed fun r' hr' => by
      rw [List.mem_singleton.1 hr', hnames.start]
      have hpos := List.length_pos_iff.2 name.name.text_ne_nil
      rw [length_beforeItems, h] at hlow
      simp only [Source.text, TableName.text, List.length_append] at hlow
      omega
    have hlisted : FoundAs [.leading] (listedRefs (q.beforeItems.length + q.rest.length) "FROM"
        (afterAlias (aliasText alias? ++ q.rest)).length
        (afterAlias (aliasText alias? ++ q.rest))) p := by
      rw [rest, afterAlias_restText alias? hne]
      exact foundAs_listedRefs _ _ _ _ _ (length_items_le _ _ _) hp
    exact (hfirst.append hlisted).append (foundAs_refsFrom_restText _ _ _ _ hp)

theorem foundAs_derived {q : FromQuery} (h : q.first.source.isTable = false) {p : Placed}
    (hp : p ∈ q.tables) :
    FoundAs [.leading, .joined] (refsFrom (maskLiterals q.head.text).reverse
      (q.word.text ++ q.first.gap.text ++ q.first.source.text maskLiterals ++ q.rest)) p := by
  obtain ⟨rs, hrs, hrefs⟩ := refsFrom_first_derived h
  rw [tables, ← q.length_beforeItems, h] at hp
  rw [hrefs]
  rcases List.mem_append.1 hp with hp | hp
  · rw [(Source.of_mem_placed hp).2.1] at h
    cases h
  · have hmissed : FoundAs [] rs p := .of_missed fun r hr => by
      have := le_start_of_mem_placedItems hp
      have := hrs r hr
      omega
    have hall := hmissed.append (foundAs_refsFrom_restText _ _ _ q.tail hp)
    exact ⟨fun hlink => hall.found ((List.mem_cons.1 hlink).resolve_left (link_ne_leading hp)),
      hall.missed⟩

theorem firstStart_le_of_mem_tables {q : FromQuery} {p : Placed} (hp : p ∈ q.tables) :
    q.firstStart ≤ p.start := by
  rcases List.mem_append.1 hp with hp | hp
  · exact (Source.of_mem_placed hp).2.2.1
  · have := le_start_of_mem_placedItems hp
    omega

/-- The references of a query are found for its leading and joined tables, and for no others. -/
theorem foundAs_tableRefs (q : FromQuery) {p : Placed} (hp : p ∈ q.tables) :
    FoundAs [.leading, .joined] (tableRefs q.sql) p := by
  obtain ⟨rs, hrs, hrefs⟩ := q.tableRefs_sql
  have hhead : FoundAs [] rs p := .of_missed fun r hr => by
    have hlow := firstStart_le_of_mem_tables hp
    have hhigh := hrs r hr
    rw [firstStart] at hlow
    omega
  rw [hrefs]
  cases hs : q.first.source with
  | table name alias? => exact hhead.append (hs ▸ foundAs_table hs hp)
  | derived query gap a => exact hhead.append (hs ▸ foundAs_derived (by rw [hs]; rfl) hp)

end FromQuery

/-! ## Tables that exist -/

namespace Existence

/-- A name is that of a table regardless of case, or longer or shorter by a part after an
underscore. -/
def IsRelated (name : Text) (t : Table) : Prop :=
  lower t.name = lower name ∨ lower name ++ ['_'] <+: lower t.name ∨
    lower t.name ++ ['_'] <+: lower name

instance (name : Text) (t : Table) : Decidable (IsRelated name t) :=
  inferInstanceAs (Decidable (_ ∨ _ ∨ _))

/-- A name that is not related to any table. -/
def IsUnknown (tables : List Table) (name : Text) : Prop := ∀ t ∈ tables, ¬ IsRelated name t

instance (tables : List Table) (name : Text) : Decidable (IsUnknown tables name) :=
  inferInstanceAs (Decidable (∀ t ∈ tables, ¬ IsRelated name t))

theorem resolve_eq_unknown_iff {tables : List Table} {name : Text} :
    resolve tables name = .unknown ↔ IsUnknown tables name := by
  have hfind : findTable? tables name = none ↔ ∀ t ∈ tables, lower t.name ≠ lower name := by
    simp [findTable?, List.find?_eq_none, sameName]
  have hsuffix : bySuffix? tables name = none ↔ ∀ t ∈ tables,
      ¬ (lower name ++ ['_'] <+: lower t.name ∨ lower t.name ++ ['_'] <+: lower name) := by
    simp [bySuffix?, List.find?_eq_none, List.isPrefixOf_iff_prefix]
  have hunknown : resolve tables name = .unknown ↔
      findTable? tables name = none ∧ bySuffix? tables name = none := by
    rw [resolve]
    cases findTable? tables name with
    | some t => simp
    | none => cases bySuffix? tables name <;> simp
  rw [hunknown, hfind, hsuffix, ← forall₂_and]
  simp only [IsUnknown, IsRelated, not_or]

theorem naming_eq_error {tables : List Table} (masked : Text) {refs : List TableRef} {r : TableRef}
    (hr : r ∈ refs) (h : IsUnknown tables r.name) :
    ∃ name, IsUnknown tables name ∧
      naming tables masked refs = .error (.unknownTable name (tables.map (·.name))) := by
  induction refs with
  | nil => cases hr
  | cons r' refs ih =>
    have hlater (hknown : resolve tables r'.name ≠ .unknown) : r ∈ refs := by
      refine (List.mem_cons.1 hr).resolve_left ?_
      rintro rfl
      exact hknown (resolve_eq_unknown_iff.2 h)
    cases hresolve : resolve tables r'.name with
    | unknown =>
      refine ⟨r'.name, resolve_eq_unknown_iff.1 hresolve, ?_⟩
      rw [naming, hresolve]
    | named t =>
      obtain ⟨name, hname, heq⟩ := ih (hlater (by rw [hresolve]; exact fun h => nomatch h))
      refine ⟨name, hname, ?_⟩
      rw [naming, hresolve, heq]
      rfl
    | bySuffix t =>
      obtain ⟨name, hname, heq⟩ := ih (hlater (by rw [hresolve]; exact fun h => nomatch h))
      refine ⟨name, hname, ?_⟩
      rw [naming, hresolve, heq]
      rfl

end Existence

/-- A query that refers to an unknown table is rejected for a table that is unknown. -/
theorem checkExistence_of_isUnknown {tables : List Table} {sql : Text} {r : TableRef}
    (hr : r ∈ tableRefs sql) (h : Existence.IsUnknown tables r.name) :
    ∃ name, Existence.IsUnknown tables name ∧
      checkExistence tables sql =
        .rejected .schema (.unknownTable name (tables.map (·.name))) := by
  obtain ⟨name, hname, heq⟩ := Existence.naming_eq_error (maskLiterals sql) hr h
  refine ⟨name, hname, ?_⟩
  rw [checkExistence, heq]

/-! ## The gate -/

/-- The references of a query hold those to its leading and joined tables and miss the detached
ones, and the gate rejects a query for each table that is unknown but for those. -/
theorem tables_seen_by_gate (q : FromQuery) :
    (∀ p ∈ q.tables, (∃ r ∈ tableRefs q.sql, r.Names p.table p.start) ↔ p.link ≠ .detached) ∧
      ∀ tables, ∀ p ∈ q.tables, p.link ≠ .detached →
        Existence.IsUnknown tables p.table.name.identifier.name →
          ∃ name, Existence.IsUnknown tables name ∧ checkExistence tables q.sql =
            .rejected .schema (.unknownTable name (tables.map (·.name))) := by
  have hlinks : ∀ link : Link, link ≠ .detached → link ∈ [.leading, .joined] := by
    rintro (_ | _ | _) h
    · decide
    · decide
    · exact absurd rfl h
  refine ⟨fun p hp => ⟨?_, fun hlink => ?_⟩, fun tables p hp hlink hunknown => ?_⟩
  · rintro ⟨r, hr, hnames⟩ hlink
    exact (q.foundAs_tableRefs hp).missed hlink r hr hnames.start
  · exact (q.foundAs_tableRefs hp).found (hlinks _ hlink)
  · obtain ⟨r, hr, hnames⟩ := (q.foundAs_tableRefs hp).found (hlinks _ hlink)
    refine checkExistence_of_isUnknown hr ?_
    have hname : r.name = p.table.name.identifier.name := congrArg Identifier.name hnames.identifier
    rwa [hname]

/-- A plain word as the name of a table without a qualifier. -/
def TableName.plain (w : Text) (h : isPlainWord w = true) : TableName := ⟨none, ⟨⟨w, false⟩, h⟩⟩

/-- A table behind a comma that follows a `JOIN`. -/
def joinBeforeComma : FromQuery where
  head := { text := "SELECT a.x " }
  word := { text := "FROM" }
  first := { gap := { text := " " }, source := .table (.plain "a" (by decide +kernel)) none }
  items :=
    [.join
      { kinds := []
        gap := { text := " " }
        word := { text := "JOIN" }
        target := { gap := { text := " " }, source := .table (.plain "b" (by decide +kernel)) none }
        gapOn := { text := " " }
        on := { text := "ON" }
        condition := { text := " a.x = b.x" } },
      .comma { text := "" } { text := " " } (.table (.plain "c" (by decide +kernel)) none)]
  tail := { text := "" }

theorem tables_joinBeforeComma :
    joinBeforeComma.tables.map (fun p => (p.table.name.identifier, p.start, p.link)) =
      [(⟨"a", false⟩, 16, .leading), (⟨"b", false⟩, 23, .joined),
        (⟨"c", false⟩, 39, .detached)] := by
  decide +kernel

/-- The table behind `JOIN` is found and checked. -/
theorem joined_table_seen :
    joinBeforeComma.sql = "SELECT a.x FROM a JOIN b ON a.x = b.x, c" ∧
      (∃ r ∈ tableRefs joinBeforeComma.sql, r.identifier = ⟨"b", false⟩ ∧ r.start = 23) ∧
      ∃ name, checkExistence [⟨"a", []⟩] joinBeforeComma.sql =
        .rejected .schema (.unknownTable name ["a"]) := by
  have hmem : (⟨"b", false⟩, 23, .joined) ∈
      joinBeforeComma.tables.map fun p => (p.table.name.identifier, p.start, p.link) := by
    rw [tables_joinBeforeComma]
    decide
  obtain ⟨p, hp, heq⟩ := List.mem_map.1 hmem
  simp only [Prod.mk.injEq] at heq
  obtain ⟨hname, hstart, hlink⟩ := heq
  have hjoined : p.link ≠ .detached := by rw [hlink]; decide
  have hunknown : Existence.IsUnknown [⟨"a", []⟩] p.table.name.identifier.name := by
    rw [hname]
    decide +kernel
  obtain ⟨r, hr, hnames⟩ := ((tables_seen_by_gate joinBeforeComma).1 p hp).2 hjoined
  obtain ⟨name, -, hrejected⟩ := (tables_seen_by_gate joinBeforeComma).2 _ p hp hjoined hunknown
  exact ⟨by decide +kernel, ⟨r, hr, hnames.identifier.trans hname, hnames.start.trans hstart⟩,
    name, hrejected⟩

/-- The table behind the comma is not: the gate accepts a query with a table that does not exist. -/
theorem accepted_with_unknown_table :
    (∃ p ∈ joinBeforeComma.tables, p.table.name.identifier = ⟨"c", false⟩ ∧
      Existence.IsUnknown [⟨"a", []⟩, ⟨"b", []⟩] p.table.name.identifier.name ∧
      ∀ r ∈ tableRefs joinBeforeComma.sql, r.start ≠ p.start) ∧
      (checkExistence [⟨"a", []⟩, ⟨"b", []⟩] joinBeforeComma.sql).isValid = true := by
  have hmem : (⟨"c", false⟩, 39, .detached) ∈
      joinBeforeComma.tables.map fun p => (p.table.name.identifier, p.start, p.link) := by
    rw [tables_joinBeforeComma]
    decide
  obtain ⟨p, hp, heq⟩ := List.mem_map.1 hmem
  simp only [Prod.mk.injEq] at heq
  obtain ⟨hname, hstart, -⟩ := heq
  refine ⟨⟨p, hp, hname, ?_, ?_⟩, by decide +kernel⟩
  · rw [hname]
    decide +kernel
  · rw [hstart]
    decide +kernel

end QueryGate
