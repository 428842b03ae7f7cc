import QueryGate.Proofs.Pipeline.SentStatement
import QueryGate.Proofs.Repair.Renames
import QueryGate.Proofs.Sort.CastKeys

/-!
# Sort keys that hold dates

A date sorts well as it is, and so do a time and a truth value. Yet the type of a sort key is looked
up by its name alone among the columns of all tables of the query, where the last column of the name
counts. So a key that denotes such a column is cast exactly if another column of the name counts
instead, and that one is to be cast (`dated_key_cast_iff`).
-/

namespace QueryGate

/-! ## The name of a sort key -/

theorem Identifier.ofText_written {i : Identifier} (h : i.IsWellFormed) (hne : i.name ≠ []) :
    Identifier.ofText i.written = i := by
  obtain ⟨name, quoted⟩ := i
  cases quoted with
  | true => simp [Identifier.ofText, Identifier.written, inQuotes]
  | false =>
    obtain ⟨c, name, rfl⟩ := List.exists_cons_of_ne_nil hne
    have hc : isNamePart c = true := h c List.mem_cons_self
    have hquote : c ≠ '"' := by
      rintro rfl
      exact absurd hc (by decide)
    simp only [Identifier.written, Bool.false_eq_true, ite_false, Identifier.ofText]
    split
    · rename_i heq
      exact absurd (List.cons.inj heq).1 hquote
    · rfl

theorem Identifier.head?_written_any_isBlank {i : Identifier} (h : i.IsWellFormed) :
    i.written.head?.any isBlank = false := by
  obtain ⟨name, quoted⟩ := i
  cases quoted with
  | true => rfl
  | false =>
    cases name with
    | nil => rfl
    | cons c name =>
      have hc : isNamePart c = true := h c List.mem_cons_self
      by_contra hblank
      rw [isNamePart_eq_false_of_isBlank (by simpa [Identifier.written] using hblank)] at hc
      cases hc

/-- Without a dot in it, the name behind the qualifier is the name that a key is looked up by. -/
theorem keyName_of_qualifier {item target suffix : Text} {n : QualifiedName} {q : Identifier}
    (hkey : sortKey? item = some (target, suffix))
    (hn : QualifiedName.read? isFoldedNameStart item = some n) (hq : n.qualifier = some q)
    (hdot : '.' ∉ n.name.name) : keyName target = n.name.name := by
  obtain ⟨n', u, hn', hitem, rfl, -⟩ := exists_read_of_sortKey? hkey
  obtain rfl := Option.some.inj (hn'.symm.trans hn)
  obtain ⟨-, -, hname, hne⟩ :=
    QualifiedName.read?_eq_some (fun _ => isNamePart_of_isFoldedNameStart) hn
  obtain ⟨r, hfirst, hgap, -⟩ := QualifiedName.reads_of_qualifier hn hq
  obtain ⟨hread, -⟩ := Identifier.read?_eq_some (fun _ => isNamePart_of_isFoldedNameStart) hfirst
  obtain ⟨v, hv, honward⟩ := dot?_eq_some hgap
  obtain ⟨g, -, hr⟩ := exists_blanks_append_skipBlanks r
  obtain ⟨g', hg', hv'⟩ := exists_blanks_append_skipBlanks v
  obtain rfl : u = (q.written ++ g) ++ '.' :: g' := by
    refine List.append_cancel_right (hitem.symm.trans ?_)
    rw [hread, hr, hv, hv', ← honward]
    simp
  have hlast : '.' ∉ g' ++ n'.name.written := by
    rw [List.mem_append, not_or]
    refine ⟨not_mem_of_allBlank (by decide) hg', ?_⟩
    rw [Identifier.written]
    split
    · simpa [inQuotes] using hdot
    · exact hdot
  have htake : ((((q.written ++ g) ++ '.' :: g') ++ n'.name.written).reverse.takeWhile
      (· != '.')).reverse = g' ++ n'.name.written := by
    rw [List.append_assoc, List.cons_append, List.reverse_append, List.reverse_cons,
      List.append_assoc, takeWhile_append_of_all (bne_of_not_mem (mt List.mem_reverse.1 hlast)) rfl,
      List.reverse_reverse]
  have hcontains : (((q.written ++ g) ++ '.' :: g') ++ n'.name.written).contains '.' = true := by
    simp
  rw [keyName, htake, hcontains]
  simp only [ite_true]
  rw [skipBlanks_append hg' (Identifier.head?_written_any_isBlank hname),
    Identifier.ofText_written hname hne]

/-! ## Columns that count -/

/-- Types whose values sort well as they are. -/
def ColumnType.SortsWell (t : ColumnType) : Prop := t = .date ∨ t = .timestamp ∨ t = .boolean

/-- Whether a word of a name says that it holds a number. -/
def namesNumber (name : Text) : Bool := (nameWords name.length name).any numericWords.contains

/-- A column of a table that a query names. -/
def IsReferenced (tables : List Table) (sql : Text) (r : TableRef) (c : Column) : Prop :=
  r ∈ tableRefs sql ∧ ∃ t, findTable? tables r.name = some t ∧ c ∈ t.columns

theorem mem_referencedColumns {tables : List Table} {sql : Text} {c : Column} :
    c ∈ referencedColumns tables sql ↔ ∃ r, IsReferenced tables sql r c := by
  have hmem : c ∈ referencedColumns tables sql ↔
      c ∈ ((tableRefs sql).filterMap fun r => findTable? tables r.name).flatMap (·.columns) :=
    ⟨mem_distinct c, mem_distinct_of_mem⟩
  rw [hmem, List.mem_flatMap]
  constructor
  · rintro ⟨t, ht, hc⟩
    obtain ⟨r, hr, hfound⟩ := List.mem_filterMap.1 ht
    exact ⟨r, hr, t, hfound, hc⟩
  · rintro ⟨r, hr, t, hfound, hc⟩
    exact ⟨t, List.mem_filterMap.2 ⟨r, hr, hfound⟩, hc⟩

/-- The last column of a name is the one that counts, regardless of its table. -/
def CountsFor (columns : List Column) (name : Text) (c : Column) : Prop :=
  (columns.filter fun d => sameName d.name name).getLast? = some c

instance (columns : List Column) (name : Text) (c : Column) :
    Decidable (CountsFor columns name c) := inferInstanceAs (Decidable (_ = _))

/-- The values of a column are numbers by its type, or text that its name takes for numbers. -/
def IsCastable (name : Text) (c : Column) : Prop :=
  c.type.isNumeric = true ∨ c.type = .text ∧ namesNumber name = true

theorem find?_reverse_eq_getLast? {columns : List Column} {name : Text} :
    columns.reverse.find? (fun c => sameName c.name name) =
      (columns.filter fun d => sameName d.name name).getLast? := by
  rw [← List.head?_reverse, ← List.filter_reverse, List.head?_filter]

/-- A key with the name of a column is a number if the column that counts is one. -/
theorem isNumericKey_iff {columns : List Column} {name : Text}
    (h : columns.any (fun c => sameName c.name name) = true) :
    isNumericKey columns name = true ↔ ∃ c, CountsFor columns name c ∧ IsCastable name c := by
  obtain ⟨d, hd, hname⟩ := List.any_eq_true.1 h
  have hne : columns.filter (fun d => sameName d.name name) ≠ [] :=
    List.ne_nil_of_mem (List.mem_filter.2 ⟨hd, hname⟩)
  obtain ⟨c, hc⟩ : ∃ c, (columns.filter fun d => sameName d.name name).getLast? = some c :=
    ⟨_, List.getLast?_eq_some_getLast hne⟩
  rw [isNumericKey, find?_reverse_eq_getLast?, hc]
  constructor
  · intro hnumeric
    refine ⟨c, hc, ?_⟩
    simpa [IsCastable, namesNumber] using hnumeric
  · rintro ⟨c', hc', hcast⟩
    obtain rfl := Option.some.inj (hc.symm.trans hc')
    simpa [IsCastable, namesNumber] using hcast

/-- A key with the name of a column is cast exactly if the name is that of a number. -/
theorem exists_cast_iff {columns : List Column} {sql target suffix : Text} {s : Span}
    (hs : s ∈ uncastItems (maskLiterals sql))
    (hkey : sortKey? (Text.slice sql s.start s.stop) = some (target, suffix))
    (hcolumn : columns.any (fun c => sameName c.name (keyName target)) = true) :
    (∃ k ∈ casts columns sql, k.edit.span = s) ↔ isNumericKey columns (keyName target) = true := by
  have hcast : castAt? columns sql s = if isNumericKey columns (keyName target) then
      some ⟨target, ⟨s.start, s.stop, castOf target ++ suffix⟩⟩ else none := by
    unfold castAt?
    simp only [hkey, hcolumn, Bool.not_true, Bool.and_false, Bool.false_or]
    cases isNumericKey columns (keyName target) <;> rfl
  rw [casts_eq]
  constructor
  · rintro ⟨k, hk, hspan⟩
    obtain ⟨s', -, hsome⟩ := List.mem_filterMap.1 hk
    obtain rfl : s' = s := (castAt?_eq_some hsome).span.symm.trans hspan
    rw [hcast] at hsome
    split at hsome
    · assumption
    · cases hsome
  · intro hnumeric
    rw [hnumeric, if_pos rfl] at hcast
    exact ⟨_, List.mem_filterMap.2 ⟨s, hs, hcast⟩, rfl⟩

/-! ## Keys of prepared queries -/

/-- A sort key reads `qualifier.name`, where the qualifier is a table of the query or an alias of
one, and the name, which has no dot in it, is that of a column of the table. -/
structure KeyDenotes (tables : List Table) (sql item name : Text) (c : Column) : Prop where
  key : (sortKey? item).isSome = true
  read : ∃ n q, QualifiedName.read? isFoldedNameStart item = some n ∧ n.qualifier = some q ∧
    n.name.name = name ∧ ∃ r, IsReferenced tables sql r c ∧
      (sameName r.name q.name = true ∨ r.aliasName.any (sameName · q.name) = true)
  named : sameName c.name name = true
  noDot : '.' ∉ name

/-- In a query that is ready to run, a sort key that denotes a date, a time or a truth value is cast
exactly if another column of the name, of any table of the query, counts instead and is to be
cast. -/
theorem dated_key_cast_iff {parser : Parser} {s : Settings} {tables : List Table}
    {question sql out : Text} {outcome : Outcome} {report : Option ColumnReport}
    (h : prepare parser s tables question sql = .ok (.ready out outcome report)) :
    let current := outcome.finalSql sql
    let columns := referencedColumns tables current
    (∃ b, bound s.rowCap (castSortKeys columns question current) = .ok b ∧ out = b.sql) ∧
      (∀ k ∈ casts columns current, k.edit.span ∈ uncastItems (maskLiterals current)) ∧
      ∀ span ∈ uncastItems (maskLiterals current), ∀ name c,
        KeyDenotes tables current (Text.slice current span.start span.stop) name c →
        c.type.SortsWell →
          ((∃ k ∈ casts columns current, k.edit.span = span) ↔
            ∃ r' c', IsReferenced tables current r' c' ∧ c' ≠ c ∧ CountsFor columns name c' ∧
              IsCastable name c') := by
  intro current columns
  refine ⟨prepare_eq_ready h, fun k hk => ?_, fun span hspan name c hc hsorts => ?_⟩
  · obtain ⟨s', hs', hsome⟩ := List.mem_filterMap.1 (casts_eq columns current ▸ hk)
    rwa [(castAt?_eq_some hsome).span]
  · obtain ⟨⟨target, suffix⟩, hkey⟩ := Option.isSome_iff_exists.1 hc.key
    obtain ⟨n, q, hn, hq, rfl, r, hr, -⟩ := hc.read
    have hname := keyName_of_qualifier hkey hn hq hc.noDot
    have hcolumn : columns.any (fun c => sameName c.name (keyName target)) = true :=
      List.any_eq_true.2 ⟨c, mem_referencedColumns.2 ⟨r, hr⟩, by rw [hname]; exact hc.named⟩
    rw [exists_cast_iff hspan hkey hcolumn, isNumericKey_iff hcolumn, hname]
    constructor
    · rintro ⟨c', hcounts, hcast⟩
      have hmem : c' ∈ columns := List.mem_of_mem_filter (List.mem_of_getLast? hcounts)
      obtain ⟨r', hr'⟩ := mem_referencedColumns.1 hmem
      refine ⟨r', c', hr', ?_, hcounts, hcast⟩
      rintro rfl
      rcases hsorts with htype | htype | htype <;>
        simp [IsCastable, htype, ColumnType.isNumeric] at hcast
    · rintro ⟨r', c', -, -, hcounts, hcast⟩
      exact ⟨c', hcounts, hcast⟩

/-- A query for the last day, where `a.total` is a date. -/
def lastTotalsQuery : Text := "SELECT a.total FROM a JOIN b ON a.k = b.k ORDER BY a.total"

def totalDate : Column := ⟨"total", .date, true⟩

theorem keyDenotes_totalDate {tables : List Table} {t : Table}
    (ht : findTable? tables "a" = some t) (hc : totalDate ∈ t.columns) :
    KeyDenotes tables lastTotalsQuery "a.total" "total" totalDate where
  key := by decide +kernel
  read := by
    refine ⟨⟨some ⟨"a", false⟩, ⟨"total", false⟩, "total", []⟩, ⟨"a", false⟩, rfl, rfl, rfl,
      ⟨"a", none, none, false, 20, 21, "FROM"⟩, ⟨by decide +kernel, t, ht, hc⟩, .inl ?_⟩
    decide +kernel
  named := by decide +kernel
  noDot := by decide +kernel

/-- A date that no other column shares its name with is left as it is. -/
theorem dated_key_kept :
    let key : Column := ⟨"k", .integer, true⟩
    let tables : List Table := [⟨"a", [key, totalDate]⟩, ⟨"b", [key]⟩]
    prepare .scanner .standard tables "top 5" lastTotalsQuery =
        .ok (.ready "SELECT a.total FROM a JOIN b ON a.k = b.k ORDER BY a.total LIMIT 5000"
          (.accepted .schema none []) (some ⟨[], [], ["a", "b"], ["k", "total"]⟩)) ∧
      KeyDenotes tables lastTotalsQuery "a.total" "total" totalDate ∧
      ¬ ∃ k ∈ casts (referencedColumns tables lastTotalsQuery) lastTotalsQuery,
        k.edit.span = ⟨51, 58⟩ := by
  intro key tables
  have h : prepare .scanner .standard tables "top 5" lastTotalsQuery =
      .ok (.ready "SELECT a.total FROM a JOIN b ON a.k = b.k ORDER BY a.total LIMIT 5000"
        (.accepted .schema none []) (some ⟨[], [], ["a", "b"], ["k", "total"]⟩)) := by
    decide +kernel
  have hdenotes : KeyDenotes tables lastTotalsQuery "a.total" "total" totalDate :=
    keyDenotes_totalDate (t := ⟨"a", [key, totalDate]⟩) (by decide +kernel) (by decide +kernel)
  have hspan : ⟨51, 58⟩ ∈ uncastItems (maskLiterals lastTotalsQuery) := by decide +kernel
  have hlast : CountsFor (referencedColumns tables lastTotalsQuery) "total" totalDate := by
    decide +kernel
  refine ⟨h, hdenotes, fun hcast => ?_⟩
  obtain ⟨-, c', -, hne, hcounts, -⟩ := ((dated_key_cast_iff h).2.2 ⟨51, 58⟩ hspan "total" totalDate
    hdenotes (.inl rfl)).1 hcast
  exact hne (Option.some.inj (hcounts.symm.trans hlast))

/-- A number of the same name, in another table, makes a number of a date. -/
theorem dated_key_cast :
    let key : Column := ⟨"k", .integer, true⟩
    let tables : List Table :=
      [⟨"a", [key, totalDate]⟩, ⟨"b", [key, ⟨"total", .integer, true⟩]⟩]
    prepare .scanner .standard tables "top 5" lastTotalsQuery =
        .ok (.ready (("SELECT a.total FROM a JOIN b ON a.k = b.k ORDER BY " : Text) ++
            ("CAST(a.total AS DOUBLE PRECISION) LIMIT 5000" : Text))
          (.accepted .schema none []) (some ⟨[], [], ["a", "b"], ["k", "total"]⟩)) ∧
      (∃ k ∈ casts (referencedColumns tables lastTotalsQuery) lastTotalsQuery,
        k.target = "a.total" ∧ k.edit.span = ⟨51, 58⟩) ∧
      KeyDenotes tables lastTotalsQuery (Text.slice lastTotalsQuery 51 58) "total" totalDate ∧
      totalDate.type.SortsWell := by
  intro key tables
  refine ⟨by decide +kernel, by decide +kernel, ?_, .inl rfl⟩
  exact keyDenotes_totalDate (t := ⟨"a", [key, totalDate]⟩) (by decide +kernel) (by decide +kernel)

end QueryGate
