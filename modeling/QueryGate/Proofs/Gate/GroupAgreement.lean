import QueryGate.Proofs.Gate.Numerals
import QueryGate.Proofs.Sql.GroupedClauses
import QueryGate.Proofs.Sql.ScannedTrees

/-!
# Agreement of the columns with the groups

The second tier rejects a grouped query for the columns that are selected and not grouped, and for
no others (`GroupingAgrees`). It does so for every query whose names in quotes hide nothing
(`groupingAgrees_of_harmless`). A name that looks like the beginning of a clause hides the columns
behind it, and its own.
-/

namespace QueryGate

namespace GroupedQuery

variable {q : GroupedQuery}

/-- The groups that the items stand for, as they are gathered: the last first. -/
def gathered (q : GroupedQuery) : Grouping.Groups :=
  ⟨q.groupNames.reverse, q.positions.reverse⟩

/-- The groups cover a column exactly if it is grouped. -/
theorem covers_gathered_iff (position : Nat) (c : ColumnName) (alias? : Option AsAlias) :
    q.gathered.covers position ⟨c.name.identifier, alias?.map (·.name.identifier)⟩ = true ↔
      q.IsGrouped position c alias? := by
  have halias : ((alias?.map (·.name.identifier)).any fun a =>
      q.gathered.names.contains (lower a.name)) = true ↔
        ∃ a ∈ alias?, a.name.small ∈ q.groupNames := by
    cases alias? <;> simp [gathered, FreeName.small]
  rw [Grouping.Groups.covers, Bool.or_eq_true, Bool.or_eq_true, halias, or_assoc, IsGrouped]
  simp [gathered, FreeName.small]

/-- The columns that are not covered are the ones that are not grouped. -/
theorem uncovered_eq {sql : Text} {items : List SelectItem} (hitems : ∀ i ∈ items, i.LacksCalls)
    {spans : List Span} (hspans : spans.map (fun s => Text.slice sql s.start s.stop) =
      items.map fun i => maskOf i.tokens) (position : Nat) :
    Grouping.uncovered sql q.gathered position spans =
      (items.zipIdx position).filterMap fun (i, position) => q.ungroupedName? position i := by
  induction items generalizing spans position with
  | nil =>
    obtain rfl := List.map_eq_nil_iff.1 hspans
    rfl
  | cons i items ih =>
    obtain ⟨s, spans, rfl, hs, hrest⟩ := List.map_eq_cons_iff.1 hspans
    have hlater := ih (fun j hj => hitems j (List.mem_cons_of_mem i hj)) hrest (position + 1)
    have hitem := SelectItem.groupedColumn? (hitems i List.mem_cons_self)
    rw [Grouping.uncovered, hs, hitem, List.zipIdx_cons, hlater]
    cases he : i.expression with
    | call a => simp [ungroupedName?, he]
    | column c =>
      by_cases hgrouped : q.IsGrouped position c i.alias?
      · simp [ungroupedName?, he, hgrouped, covers_gathered_iff]
      · simp [ungroupedName?, he, hgrouped, covers_gathered_iff]

/-- The items of the select list are read back. -/
theorem Harmless.columns_back (h : q.Harmless) :
    (topLevelItems q.text q.selectWord.text.length
        (q.selectWord.text.length + (maskOf q.columnTokens).length)).map
      (fun s => Text.slice q.text s.start s.stop) =
      q.columns.items.map fun i => maskOf i.tokens := by
  rw [text_eq_select_append]
  exact Listing.slices_items (ofLetters_of_subset selectListEnds_subset) SelectItem.freeOf
    h.columns_pass SelectItem.trimmed q.selectWord.text (maskOf q.fromClause)

/-- The items of the list of groups are read back. -/
theorem Harmless.groups_back (h : q.Harmless) :
    (topLevelItems q.text (maskOf q.leadTokens).length
        ((maskOf q.leadTokens).length + (maskOf q.groupTokens).length)).map
      (fun s => Text.slice q.text s.start s.stop) =
      q.groups.items.map fun g => maskOf g.tokens := by
  rw [text_eq_lead_append]
  exact Listing.slices_items (ofLetters_of_subset groupEnds_subset) GroupItem.freeOf
    h.groups_pass GroupItem.trimmed (maskOf q.leadTokens) []

/-- The columns that the gate finds to be missing from the groups. -/
theorem Harmless.ungroupedColumns_text (h : q.Harmless) :
    ungroupedColumns q.text q.text = .ok q.ungrouped := by
  have hgathered := GroupItem.foldlM_add (fun g hg => (h.groups g hg).2) ⟨[], []⟩
  rw [List.append_nil, List.append_nil] at hgathered
  have huncovered := uncovered_eq (q := q) (fun i hi => (h.columns i hi).2) h.columns_back 1
  have hlist : Grouping.uncoveredIn q.text q.text ⟨q.selectWord.text.length,
      q.selectWord.text.length + (maskOf q.columnTokens).length⟩ =
        .ok ((q.columns.items.zipIdx 1).filterMap fun (i, position) =>
          q.ungroupedName? position i) := by
    rw [Grouping.uncoveredIn, h.groupSpan?_text]
    simp only [h.groups_back, hgathered]
    exact congrArg Except.ok huncovered
  rw [ungroupedColumns, h.selectLists_text, List.mapM_cons, hlist]
  simp [ungrouped, pure, Except.pure, bind, Except.bind]

/-- A harmless query breaks no rule before the one of the groups. -/
theorem Harmless.violation?_text (h : q.Harmless) {parser : Parser} (hparser : parser.Lawful)
    (hreads : parser.Reads q.text) (cap : RowCap) :
    Structure.violation? parser cap q.text = match q.ungrouped with
      | c :: columns => .ok (some (.missingFromGroup (c :: columns)))
      | [] => .ok (((tableRefs q.text).find? Structure.namesSystemTable).map fun r =>
          .systemTable r.name) := by
  have hsubqueries : Structure.forbiddenInSubquery? (parser.subqueries q.text) = .ok none :=
    Structure.forbiddenInSubquery?_eq_none_iff.2 ⟨by simp [h.found_eq_nil hparser], hreads⟩
  rw [Structure.violation?, q.maskLiterals_text, h.limits_eq_nil, hsubqueries]
  simp only [h.ungroupedColumns_text]
  cases q.ungrouped <;> rfl

end GroupedQuery

/-- A query is rejected for the columns that are selected and not grouped, if there are any. -/
def GroupingAgrees (parser : Parser) (cap : RowCap) (q : GroupedQuery) : Prop :=
  ∃ o, checkStructure parser cap q.text = .ok o ∧ ∀ columns,
    o = .rejected .structural (.missingFromGroup columns) ↔
      columns ≠ [] ∧ columns = q.ungrouped

/-- The columns of a query are held against its groups as they are written, if the parser can read
the query and the names in quotes hide nothing. -/
theorem groupingAgrees_of_harmless {parser : Parser} (hparser : parser.Lawful) (cap : RowCap)
    {q : GroupedQuery} (hreads : parser.Reads q.text) (h : q.Harmless) :
    GroupingAgrees parser cap q := by
  rw [GroupingAgrees, checkStructure, h.violation?_text hparser hreads]
  cases hungrouped : q.ungrouped with
  | cons c columns =>
    refine ⟨.rejected .structural (.missingFromGroup (c :: columns)), rfl, fun columns' => ?_⟩
    constructor
    · intro hrejected
      injection hrejected with _ hviolation
      obtain rfl := Violation.missingFromGroup.inj hviolation
      exact ⟨List.cons_ne_nil c columns, rfl⟩
    · rintro ⟨-, rfl⟩
      rfl
  | nil =>
    -- Another rule may still be broken, but not the one of the groups.
    have hno : ∀ columns : List Text, ¬ (columns ≠ [] ∧ columns = []) := fun _ h => h.1 h.2
    cases (tableRefs q.text).find? Structure.namesSystemTable with
    | none => exact ⟨.accepted .structural none [], rfl, fun columns => by simp [hno]⟩
    | some r =>
      exact ⟨.rejected .structural (.systemTable r.name), rfl, fun columns => by simp [hno]⟩

/-! ## Queries -/

/-- A word, spelled as it is given. -/
def Spelling.given (word : Text) : Spelling word := ⟨word, rfl⟩

def Gap.space : Gap := ⟨⟨[' '], rfl⟩, List.cons_ne_nil _ _⟩

def Blanks.none : Blanks := ⟨[], rfl⟩

/-- A plain word. -/
def FreeName.word (w : Text) (h : (Identifier.mk w false).isFree = true := by decide +kernel) :
    FreeName := ⟨⟨w, false⟩, h⟩

/-- A name in quotes. -/
def FreeName.inQuotes (w : Text) (h : (Identifier.mk w true).isFree = true := by decide +kernel) :
    FreeName := ⟨⟨w, true⟩, h⟩

/-- Something with one space in front. -/
def Padded.spaced {α : Type} (item : α) : Padded α := ⟨Gap.space.toBlanks, item, Blanks.none⟩

/-- Something between two spaces. -/
def Padded.apart {α : Type} (item : α) : Padded α :=
  ⟨Gap.space.toBlanks, item, Gap.space.toBlanks⟩

/-- A count of the values in a column. -/
def AggregateCall.count (c : ColumnName) : AggregateCall where
  function := "COUNT"
  gap := .none
  argument := ⟨.none, c, .none⟩

/-- Columns that are grouped by a position, by an alias and not at all. -/
def salesByCity : GroupedQuery where
  selectWord := .given "SELECT"
  columns := {
    first := .spaced ⟨.column ⟨none, .word "city"⟩, none⟩
    more := [
      .spaced ⟨.column ⟨some (.word "sales", .none, .none), .inQuotes "Unit (net)"⟩,
        some ⟨.space, .given "AS", .space, .word "price"⟩⟩,
      .spaced ⟨.column ⟨none, .word "region"⟩, none⟩,
      .apart ⟨.call (.count ⟨none, .word "x"⟩), none⟩] }
  fromWord := .given "FROM"
  tableGap := .space
  table := "sales"
  groupGap := .space
  groupWord := .given "GROUP"
  byGap := .space
  byWord := .given "BY"
  groups := {
    first := .spaced (.position "1" (by decide) (by decide))
    more := [.spaced (.column ⟨none, .word "Price"⟩)] }

/-- A name in quotes with parentheses in it is harmless, and a column that is missing is found. -/
theorem groupingAgrees_salesByCity :
    salesByCity.text = "SELECT city, sales.\"Unit (net)\" AS price, region, COUNT(x) " ++
        "FROM sales GROUP BY 1, Price" ∧
      salesByCity.Harmless ∧ salesByCity.ungrouped = ["region".toList] ∧
      GroupingAgrees .scanner .standard salesByCity := by
  have h : salesByCity.Harmless := by decide +kernel
  exact ⟨by decide +kernel, h, by decide +kernel,
    groupingAgrees_of_harmless Parser.scanner_lawful .standard (by decide +kernel) h⟩

/-- A column whose name is a word that ends a select list. -/
def countByOrder : GroupedQuery where
  selectWord := .given "SELECT"
  columns := {
    first := .spaced ⟨.column ⟨none, .inQuotes "Order"⟩, none⟩
    more := [.apart ⟨.call (.count ⟨none, .word "x"⟩), none⟩] }
  fromWord := .given "FROM"
  tableGap := .space
  table := "t"
  groupGap := .space
  groupWord := .given "GROUP"
  byGap := .space
  byWord := .given "BY"
  groups := { first := .spaced (.column ⟨none, .word "x"⟩), more := [] }

/-- The select list seems to end inside the name, so that no column of it is looked at. -/
theorem not_groupingAgrees_countByOrder :
    countByOrder.text = "SELECT \"Order\", COUNT(x) FROM t GROUP BY x" ∧
      countByOrder.ungrouped = ["Order".toList] ∧
      checkStructure .scanner .standard countByOrder.text = .ok (.accepted .structural none []) ∧
      ¬ GroupingAgrees .scanner .standard countByOrder := by
  have hungrouped : countByOrder.ungrouped = ["Order".toList] := by decide +kernel
  have haccepted : checkStructure .scanner .standard countByOrder.text =
      .ok (.accepted .structural none []) := by
    decide +kernel
  refine ⟨by decide +kernel, hungrouped, haccepted, ?_⟩
  rintro ⟨o, ho, hcolumns⟩
  obtain rfl := Except.ok.inj (haccepted.symm.trans ho)
  cases (hcolumns _).2 ⟨List.cons_ne_nil _ _, hungrouped.symm⟩

end QueryGate
