import QueryGate.Pipeline
import QueryGate.Proofs.Bound.Clauses
import QueryGate.Proofs.Gate.SelectQueries
import QueryGate.Proofs.Schema.Registry
import QueryGate.Proofs.Sql.ScannedTrees

/-!
# Exact queries

A query for columns that a registered table has, with names that mean nothing else, runs as it is
but for the bound at its end, whatever else the registry holds and whatever was asked
(`prepare_exact`). Each stage of the pipeline is shown to have nothing to do in turn.
-/

namespace QueryGate

namespace SelectQuery

variable (q : SelectQuery) {t : Table} {tables : List Table}

/-! ## The check of columns -/

theorem conditionNames_text : ColumnCheck.conditionNames (maskQuoted q.text) = [] := by
  have hnone : hits (oneWord ["WHERE", "HAVING"]) (maskQuoted q.text) = [] := by
    refine LacksWord.hits_oneWord fun w hw => q.lacksWord_maskQuoted ?_
    revert w
    decide
  rw [ColumnCheck.conditionNames, hnone]
  rfl

theorem listNames_text : ColumnCheck.listNames (maskQuoted q.text) = [] := by
  have hnone : hits ColumnCheck.groupOrOrder (maskQuoted q.text) = [] := by
    refine hitsFrom_eq_nil_iff.2 fun a b hab _ => ?_
    rw [List.append_nil]
    unfold ColumnCheck.groupOrOrder
    split
    · rename_i hstart
      have hgroup : LacksWord "GROUP" (maskQuoted q.text) := q.lacksWord_maskQuoted (by decide)
      have horder : LacksWord "ORDER" (maskQuoted q.text) := q.lacksWord_maskQuoted (by decide)
      rw [hgroup.keywords?_eq_none hab hstart, horder.keywords?_eq_none hab hstart]
      rfl
    · rfl
  rw [ColumnCheck.listNames, hnone]
  rfl

/-- Every name that has to be a column is one of the query, or one of its words. -/
theorem mem_candidates {n : Text} (hn : n ∈ ColumnCheck.candidates q.text (maskQuoted q.text)) :
    isReserved n = true ∨ ∃ i ∈ q.table :: q.columns, i.name = n := by
  rw [ColumnCheck.candidates, conditionNames_text, listNames_text, List.append_nil,
    List.append_nil] at hn
  rcases List.mem_append.1 hn with hn | hn
  · obtain ⟨h, hh, rfl⟩ := List.mem_map.1 hn
    exact .inr ⟨_, q.mem_quotedNames hh, rfl⟩
  · obtain ⟨h, hh, rfl⟩ := List.mem_map.1 hn
    exact (q.mem_selectedNames hh).imp_right fun hmem => ⟨_, hmem, rfl⟩

/-- The report on a query that fits a table: nothing is unknown. -/
theorem Fits.checkColumns_text {q : SelectQuery} (h : q.Fits t)
    (ht : findTable? tables t.name = some t) :
    checkColumns tables q.text = ⟨[], [], tables.map (·.name), columnNamesOf [t]⟩ := by
  have hfind : findTable? tables q.tableRef.name = some t :=
    (congrArg (findTable? tables) h.table).trans ht
  have hbound : ColumnCheck.bindings tables [q.tableRef] = [(lower t.name, some t)] := by
    rw [ColumnCheck.bindings, List.foldl_cons, List.foldl_nil]
    simp only [hfind]
    exact congrArg (fun n => [(lower n, some t)]) h.table
  have hreferenced : distinct ([q.tableRef].filterMap fun r => findTable? tables r.name) = [t] := by
    simp only [List.filterMap_cons, hfind, List.filterMap_nil]
    rfl
  have hunknown : [q.tableRef].filter (fun r => (findTable? tables r.name).isNone) = [] := by
    rw [List.filter_cons_of_neg (by rw [hfind]; exact Bool.false_ne_true)]
    rfl
  unfold checkColumns
  rw [if_neg (by simp [q.keepsWording.notBlank])]
  simp only [maskLiterals_text, tableRefs_text, hbound, hreferenced, hunknown,
    ColumnCheck.qualifiedMisses, qualifiedRefs_text, List.filterMap_nil, List.append_nil,
    List.isEmpty_cons, Bool.false_eq_true, if_false]
  rw [List.filter_eq_nil_iff.2 fun n hn => ?_]
  · rfl
  rcases q.mem_candidates hn with hreserved | ⟨i, hi, rfl⟩
  · simp [hreserved]
  rcases List.mem_cons.1 hi with rfl | hi
  · simp [Dictionary.keys, h.table]
  · have hmem : lower i.name ∈ (columnNamesOf [t]).map lower := by
      refine List.mem_map_of_mem (mem_distinct_of_mem (List.mem_flatMap.2 ⟨t, ?_, ?_⟩))
      · exact List.mem_singleton_self t
      · exact h.columns i hi
    simp only [List.contains_iff_mem.2 hmem, Bool.not_true, Bool.and_false, Bool.false_eq_true,
      not_false_eq_true]

/-! ## The casts of sort keys -/

theorem castSortKeys_text (columns : List Column) (question : Text) :
    castSortKeys columns question q.text = q.text := by
  have hnone : hits orderBy q.text = [] := by
    refine hitsFrom_eq_nil_iff.2 fun a b hab _ => ?_
    rw [List.append_nil]
    unfold orderBy
    split
    · rename_i hstart
      have horder : LacksWord "ORDER" q.text := q.lacksWord (by decide)
      rw [horder.keywords?_eq_none hab hstart]
      rfl
    · rfl
  unfold castSortKeys
  split
  · rfl
  · rw [casts, maskLiterals_text, sortLists, hnone]
    rfl

/-! ## The bound -/

theorem withoutSemicolon_text : withoutSemicolon q.text = (q.text, false) := by
  obtain ⟨c, hlast, hc⟩ := q.getLast?_text
  unfold withoutSemicolon
  simp only [trim_text, hlast]
  split
  · rename_i heq
    obtain rfl := Option.some.inj heq
    cases hc
  · rfl

theorem not_trailingLimit {a b : Text} (hab : q.text = a ++ b) : trailingLimit a.reverse b = none := by
  unfold trailingLimit
  split
  · rename_i hstart
    have hlimit : LacksWord "LIMIT" q.text := q.lacksWord (by decide)
    rw [hlimit.keyword?_spaced hab hstart]
    rfl
  · rfl

theorem not_trailingFetch {a b : Text} (hab : q.text = a ++ b) : trailingFetch a.reverse b = none := by
  unfold trailingFetch
  split
  · rename_i hstart
    have hfetch : LacksWord "FETCH" q.text := q.lacksWord (by decide)
    rw [hfetch.keywords?_eq_none hab hstart, hfetch.keywords?_eq_none hab hstart]
    rfl
  · rfl

theorem not_isOffset {a b : Text} (hab : q.text = a ++ b) : isOffset b = false := by
  have hoffset : LacksWord "OFFSET" q.text := q.lacksWord (by decide)
  unfold isOffset
  cases hspaced : spaced? b with
  | none => rfl
  | some r =>
    obtain ⟨g, hne, hg, -, rfl⟩ := spaced?_eq_some_iff.1 hspaced
    have ha : atWordStart (a ++ g).reverse = true := by
      rw [atWordStart_reverse_iff, getLast?_any_append _ hne, List.getLast?_eq_some_getLast hne]
      exact isWordChar_eq_false_of_isBlank (List.all_eq_true.1 hg _ (List.getLast_mem hne))
    rw [Option.bind_some, hoffset.keyword?_spaced (by rw [hab, List.append_assoc]) ha]
    rfl

/-- The bound goes to the end. -/
theorem bound_text {cap : RowCap} (hcap : (Text.ofNat cap.rows).length ≤ Numeral.maxDigits) :
    bound cap q.text =
      .ok ⟨q.text ++ Bound.clause (Text.ofNat cap.rows), .added, cap.rows⟩ := by
  have hselect : isSelect q.text = true := by
    obtain ⟨r, hr⟩ := q.exists_text_eq
    rw [isSelect, skipBlanks_eq_self q.head?_text, hr, keyword?_append rfl]
    rfl
  have hlimit : firstHit? trailingLimit q.text = none :=
    firstHit?_eq_none_iff.2 fun a b hab _ => q.not_trailingLimit hab
  have hfetch : firstHit? trailingFetch q.text = none :=
    firstHit?_eq_none_iff.2 fun a b hab _ => q.not_trailingFetch hab
  have hoffset : firstHit? trailingOffset q.text = none := by
    refine firstHit?_eq_none_iff.2 fun a b hab _ => ?_
    rw [trailingOffset, q.not_isOffset hab]
    rfl
  have hdigits : writeDigits cap.rows = .ok (Text.ofNat cap.rows) := by
    rw [writeDigits, Numeral.ofNat, if_neg (Nat.not_lt.2 hcap)]
    rfl
  have hbody : Bound.body cap q.text =
      .ok (q.text ++ Bound.clause (Text.ofNat cap.rows), .added) := by
    unfold Bound.body
    simp only [maskLiterals_text, hlimit, hfetch, hdigits, Bound.addTo, hoffset]
    rfl
  unfold bound
  rw [if_pos hselect, withoutSemicolon_text]
  simp only [hbody]
  rfl

/-! ## The pipeline -/

theorem not_isRefusal : isRefusal q.text = false := by
  obtain ⟨r, hr⟩ := q.exists_text_eq
  rw [isRefusal, q.trim_text, hr]
  rfl

/-- A query that fits a table of the schema is ready as it is, with a bound at its end, if the
parser can read it. -/
theorem Fits.prepare_text {q : SelectQuery} (h : q.Fits t) {parser : Parser}
    (hparser : parser.Lawful) (s : Settings) (hreads : parser.Reads q.text) (hmem : t ∈ tables)
    (ht : findTable? tables t.name = some t)
    (hrows : (Text.ofNat s.maxRows.value).length ≤ Numeral.maxDigits) (question : Text) :
    prepare parser s tables question q.text =
      .ok (.ready (q.text ++ Bound.clause (Text.ofNat s.maxRows.value)) (.accepted .schema none [])
        (if s.enforceColumnCheck then
          some ⟨[], [], tables.map (·.name), columnNamesOf [t]⟩ else none)) := by
  have hfinish : finish s tables question q.text =
      .ok (q.text ++ Bound.clause (Text.ofNat s.maxRows.value)) := by
    have hbound := q.bound_text (show (Text.ofNat s.rowCap.rows).length ≤ _ from hrows)
    rw [finish, castSortKeys_text, hbound]
    rfl
  unfold prepare
  rw [q.not_isRefusal, h.checkQuery_text hparser s.rowCap hreads hmem ht]
  change (if s.enforceColumnCheck then _ else _) = _
  cases s.enforceColumnCheck with
  | true =>
    simp only [Outcome.finalSql, Outcome.corrected?, h.checkColumns_text ht, hfinish]
    rfl
  | false =>
    simp only [Outcome.finalSql, Outcome.corrected?, hfinish]
    rfl

end SelectQuery

/-- The text that selects columns of a table, each name in quotes where it has to be. -/
def selectText (columns : List Text) (table : Text) : Text :=
  "SELECT " ++ (Text.join ", " (columns.map (renderName · false)) ++
    (" FROM " ++ renderName table false))

theorem textOf_listTokens (columns : List Text) :
    textOf (listTokens (columns.map (Identifier.rendered · false))) =
      Text.join ", " (columns.map (renderName · false)) := by
  induction columns with
  | nil => rfl
  | cons c columns ih =>
    cases columns with
    | nil => simp [listTokens, Text.join, Identifier.token_rendered, Token.text_rendered]
    | cons d columns =>
      have hlist : listTokens ((c :: d :: columns).map (Identifier.rendered · false)) =
          (Identifier.rendered c false).token :: .other ',' ',' :: .other ' ' ' ' ::
            listTokens ((d :: columns).map (Identifier.rendered · false)) := rfl
      rw [hlist, textOf_cons, textOf_cons, textOf_cons, ih, Identifier.token_rendered, Token.text_rendered, Text.join,
        Text.join, List.map_cons (a := c), List.map_cons (a := d), List.intercalate_cons_cons,
        List.append_assoc]
      rfl

/-- The query for columns of a table. -/
def SelectQuery.ofNames (columns : List Text) (table : Text) (hne : columns ≠ [])
    (hnames : ∀ n ∈ table :: columns, OrdinaryName n) : SelectQuery where
  columns := columns.map (.rendered · false)
  table := .rendered table false
  columns_ne := by simpa using hne
  ordinary := by
    rw [← List.map_cons (f := (Identifier.rendered · false))]
    intro i hi
    obtain ⟨n, hn, rfl⟩ := List.mem_map.1 hi
    exact hnames n hn

theorem SelectQuery.text_ofNames {columns : List Text} {table : Text} (hne : columns ≠ [])
    (hnames : ∀ n ∈ table :: columns, OrdinaryName n) :
    (ofNames columns table hne hnames).text = selectText columns table := by
  have hfront : textOf (ofNames columns table hne hnames).front =
      "SELECT " ++ (Text.join ", " (columns.map (renderName · false)) ++ [' ']) := by
    change "SELECT " ++ textOf (listTokens (columns.map (.rendered · false)) ++ [.other ' ' ' ']) = _
    rw [textOf_append, textOf_listTokens]
    rfl
  have hend : textOf [.word "FROM", .other ' ' ' ', (Identifier.rendered table false).token] =
      "FROM " ++ renderName table false := by
    change ("FROM " : Text) ++ ((Identifier.rendered table false).token.text ++ []) = _
    rw [List.append_nil, Identifier.token_rendered, Token.text_rendered]
  have hsplit := textOf_append (ofNames columns table hne hnames).front
    [.word "FROM", .other ' ' ' ', (Identifier.rendered table false).token]
  rw [hfront, hend] at hsplit
  have hselect : selectText columns table = "SELECT " ++
      (Text.join ", " (columns.map (renderName · false)) ++ (" FROM " ++ renderName table false)) :=
    rfl
  rw [hselect]
  refine Eq.trans (b := textOf _) rfl (hsplit.trans ?_)
  generalize Text.join ", " (columns.map (renderName · false)) = list
  generalize renderName table false = name
  rw [List.append_assoc ("SELECT " : Text), List.append_assoc list]
  rfl

/-- A query for columns of a registered table, all names ordinary, is ready as it is with the bound
at its end: nothing is corrected and nothing is cast, whatever else is registered and whatever was
asked. The parser has to be able to read the query. -/
theorem prepare_exact {parser : Parser} (hparser : parser.Lawful) (s : Settings) {r : Registry}
    (hr : r.Reached) {t : Table}
    (ht : t ∈ r.tables) {columns : List Text} (hne : columns ≠ [])
    (hcolumns : ∀ c ∈ columns, c ∈ t.columnNames)
    (hnames : ∀ n ∈ t.name :: columns, OrdinaryName n)
    (hreads : parser.Reads (selectText columns t.name))
    (hrows : (Text.ofNat s.maxRows.value).length ≤ Numeral.maxDigits) (question : Text) :
    prepare parser s r.tables question (selectText columns t.name) =
      .ok (.ready (selectText columns t.name ++ (" LIMIT " ++ Text.ofNat s.maxRows.value))
        (.accepted .schema none [])
        (if s.enforceColumnCheck then
          some ⟨[], [], r.tables.map (·.name), columnNamesOf [t]⟩ else none)) := by
  have hfits : (SelectQuery.ofNames columns t.name hne hnames).Fits t := by
    refine ⟨rfl, fun i hi => ?_, fun i hi => ?_⟩
    · obtain ⟨c, hc, rfl⟩ := List.mem_map.1 hi
      exact hcolumns c hc
    · rcases List.mem_cons.1 hi with rfl | hi
      · exact Identifier.effective_rendered t.name false
      · obtain ⟨c, -, rfl⟩ := List.mem_map.1 hi
        exact Identifier.effective_rendered c false
  rw [← SelectQuery.text_ofNames hne hnames] at hreads ⊢
  exact hfits.prepare_text hparser s hreads ht (hr.findTable? ht rfl) hrows question

/-- Of two columns that differ in case each is left, beside a table of almost the same name. -/
theorem prepare_columns_in_two_cases :
    prepare .scanner .standard [⟨"citys", [⟨"name", .text, true⟩]⟩,
        ⟨"City", [⟨"name", .text, true⟩, ⟨"Name", .text, true⟩]⟩] "the top cities"
        "SELECT \"Name\", name FROM \"City\"" =
      .ok (.ready "SELECT \"Name\", name FROM \"City\" LIMIT 5000" (.accepted .schema none [])
        (some ⟨[], [], ["citys", "City"], ["name", "Name"]⟩)) :=
  prepare_exact Parser.scanner_lawful .standard
    (Registry.reached_ofTables [⟨"citys", [⟨"name", .text, true⟩]⟩,
      ⟨"City", [⟨"name", .text, true⟩, ⟨"Name", .text, true⟩]⟩])
    (t := ⟨"City", [⟨"name", .text, true⟩, ⟨"Name", .text, true⟩]⟩) (by decide +kernel)
    (show (["Name", "name"] : List Text) ≠ [] by decide) (by decide) (by decide +kernel)
    (by decide +kernel) (by decide +kernel) "the top cities"

end QueryGate
