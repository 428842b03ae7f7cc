import QueryGate.Proofs.Result.RowBounds

/-!
# The cells of the rows that are returned

A row is a dictionary by column name, while the columns are listed by position. So a row holds under
a name the value of the last cell whose column has that name (`execute_row_holds_last_cell`), and
that is each cell's own value if no two columns share a name. A statement that joins two tables can
name a column twice, and then it loses the first of the two cells
(`execute_repeated_name_loses_cell`).
-/

namespace QueryGate

/-! ## Names that repeat -/

/-- The last position at which a name stands. -/
def LastAt (names : List Text) (name : Text) (j : Nat) : Prop :=
  names[j]? = some name ∧ name ∉ names.drop (j + 1)

instance (names : List Text) (name : Text) (j : Nat) : Decidable (LastAt names name j) :=
  inferInstanceAs (Decidable (_ ∧ _))

theorem LastAt.le {names : List Text} {name : Text} {j k : Nat} (h : LastAt names name j)
    (hk : names[k]? = some name) : k ≤ j := by
  by_contra hlt
  refine h.2 (List.mem_of_getElem? (i := k - (j + 1)) ?_)
  rw [List.getElem?_drop, Nat.add_sub_cancel' (Nat.lt_of_not_le hlt), hk]

theorem LastAt.unique {names : List Text} {name : Text} {j k : Nat} (hj : LastAt names name j)
    (hk : LastAt names name k) : j = k :=
  Nat.le_antisymm (hk.le hj.1) (hj.le hk.1)

theorem exists_lastAt {names : List Text} {name : Text} (h : name ∈ names) :
    ∃ j, LastAt names name j := by
  induction names with
  | nil => cases h
  | cons first names ih =>
    by_cases hm : name ∈ names
    · obtain ⟨j, hj, hlast⟩ := ih hm
      exact ⟨j + 1, hj, hlast⟩
    · obtain rfl := (List.mem_cons.1 h).resolve_right hm
      exact ⟨0, rfl, hm⟩

namespace Dictionary
variable {α : Type} {entries : List (Text × α)} {key : Text}

theorem find?_foldl_put_of_not_mem (h : key ∉ entries.map (·.1)) (d : Dictionary α) :
    find? key (entries.foldl (fun d e => put e.1 e.2 d) d) = find? key d := by
  induction entries generalizing d with
  | nil => rfl
  | cons e entries ih =>
    obtain ⟨hne, h⟩ : key ≠ e.1 ∧ key ∉ entries.map (·.1) := by simpa using h
    rw [List.foldl_cons, ih h, find?_put, if_neg hne.symm]

/-- Of entries written in turn the last one with a key is found. -/
theorem find?_ofEntries_of_last {a : α} {j : Nat} (hj : entries[j]? = some (key, a))
    (hlast : key ∉ (entries.drop (j + 1)).map (·.1)) : find? key (ofEntries entries) = some a := by
  obtain ⟨hlt, hentry⟩ := List.getElem?_eq_some_iff.1 hj
  have hsplit : entries = entries.take j ++ (key, a) :: entries.drop (j + 1) := by
    rw [← hentry, List.getElem_cons_drop, List.take_append_drop]
  rw [hsplit, ofEntries, List.foldl_append, List.foldl_cons, find?_foldl_put_of_not_mem hlast,
    find?_put, if_pos rfl]

end Dictionary

/-! ## One row -/

/-- Under a name stands the value of the last cell with that name. -/
theorem portableRow_find? {names : List Text} {values : List Value} {row : Row} {name : Text}
    {j : Nat} (h : portableRow names values = .ok row) (hwidth : names.length ≤ values.length)
    (hj : LastAt names name j) :
    ∃ v c, values[j]? = some v ∧ Cell.ofValue v = .ok c ∧ Dictionary.find? name row = some c := by
  obtain ⟨cells, hcells, hrow⟩ := bind_eq_ok_iff.1 h
  obtain rfl : Dictionary.ofEntries (names.zip cells) = row := Except.ok.inj hrow
  have hportable := mapM_eq_ok_iff.1 hcells
  have hlen : cells.length = names.length := by
    rw [← hportable.length_eq, List.length_take, Nat.min_eq_left hwidth]
  obtain ⟨hlt, -⟩ := List.getElem?_eq_some_iff.1 hj.1
  have hv : j < values.length := Nat.lt_of_lt_of_le hlt hwidth
  have hc : j < cells.length := hlen ▸ hlt
  have hcell : Cell.ofValue values[j] = .ok cells[j] := by
    have htaken := (List.forall₂_iff_get.1 hportable).2 j (hportable.length_eq ▸ hc) hc
    rwa [List.get_eq_getElem, List.getElem_take] at htaken
  refine ⟨values[j], cells[j], List.getElem?_eq_getElem hv, hcell,
    Dictionary.find?_ofEntries_of_last (j := j) ?_ ?_⟩
  · exact List.getElem?_zip_eq_some.2 ⟨hj.1, List.getElem?_eq_getElem hc⟩
  · rw [List.map_drop, List.map_fst_zip hlen.ge]
    exact hj.2

/-! ## Results -/

theorem map_name_columnTypes {useCodes : Bool} {names : List Text} {codes : List Datum}
    {rows : List (List Value)} : (columnTypes useCodes names codes rows).map (·.name) = names := by
  rw [columnTypes, List.map_map]
  exact (List.zipIdx_map_fst 0 names)

/-- The rows that are returned are the portable forms of the statement's first rows, under columns
with the statement's names. -/
theorem portable_of_boundedResult {s : Settings} {dialect : Text} {r : RowSet} {rows : List Row}
    {columns : List ResultColumn} {truncated : Bool}
    (h : boundedResult s dialect r = .ok (.finished rows columns truncated)) (hne : rows ≠ []) :
    PortableRows r.names (r.rows.take rows.length) rows ∧ columns.map (·.name) = r.names := by
  rw [boundedResult] at h
  split at h
  · cases h
    exact absurd rfl hne
  · obtain ⟨⟨kept, cut⟩, hkept, heq⟩ := bind_eq_ok_iff.1 h
    cases heq
    refine ⟨?_, map_name_columnTypes⟩
    have hportable := portable_of_rowsWithin hkept
    have hlen := hportable.length_eq
    rw [List.take_take, List.length_take] at hlen
    rwa [List.take_take, Nat.min_eq_left (by omega)] at hportable

/-- What a request gives when it succeeds: the result of the statement within the bounds. -/
theorem boundedResult_of_execute {x : Executor} {sql : Text} {r : RowSet} {rows : List Row}
    {columns : List ResultColumn} {truncated : Bool}
    (h : (x.execute sql (.rows r)).1 = .finished rows columns truncated) :
    boundedResult x.settings x.dialect r = .ok (.finished rows columns truncated) := by
  simp only [Executor.execute] at h
  split at h
  · cases h
  split at h
  · cases h
  simp only [run] at h
  split at h
  · rename_i e he
    exact he.trans (congrArg Except.ok h)
  · cases h

/-- In every row that is returned, and for every position among the columns, the name at that
position stands for the portable value of the driver's cell at the last position with that name. -/
theorem execute_row_holds_last_cell (x : Executor) (sql : Text) (r : RowSet)
    {rows : List Row} {columns : List ResultColumn} {truncated : Bool}
    (hwidth : ∀ values ∈ r.rows, r.names.length ≤ values.length)
    (h : (x.execute sql (.rows r)).1 = .finished rows columns truncated)
    {i j : Nat} {row : Row} {name : Text} (hi : rows[i]? = some row)
    (hj : r.names[j]? = some name) :
    columns.map (·.name) = r.names ∧
      ∃ j' values v c, j ≤ j' ∧ LastAt r.names name j' ∧ r.rows[i]? = some values ∧
        values[j']? = some v ∧ Cell.ofValue v = .ok c ∧ Dictionary.find? name row = some c := by
  have hne : rows ≠ [] := by
    rintro rfl
    cases hi
  obtain ⟨hportable, hcolumns⟩ := portable_of_boundedResult (boundedResult_of_execute h) hne
  obtain ⟨hlt, rfl⟩ := List.getElem?_eq_some_iff.1 hi
  have hfetched : i < (r.rows.take rows.length).length := hportable.length_eq.symm ▸ hlt
  have hrow := (List.forall₂_iff_get.1 hportable).2 i hfetched hlt
  have hvalues : r.rows[i]? = some ((r.rows.take rows.length)[i]) := by
    rw [← List.getElem?_take_of_lt hlt, List.getElem?_eq_getElem hfetched]
  obtain ⟨j', hj'⟩ := exists_lastAt (List.mem_of_getElem? hj)
  obtain ⟨v, c, hv, hc, hfind⟩ :=
    portableRow_find? hrow (hwidth _ (List.mem_of_getElem? hvalues)) hj'
  exact ⟨hcolumns, j', _, v, c, hj'.le hj, hj', hvalues, hv, hc, hfind⟩

/-- Of two columns with one name the second gives the value, for the position of either. -/
theorem execute_row_holds_last_cell_of_two :
    ∃ (x : Executor) (r : RowSet) (row : Row),
      r.names = ["id", "n", "id"] ∧ r.rows = [[.int 1, .text "a", .int 2]] ∧
      (∀ values ∈ r.rows, r.names.length ≤ values.length) ∧
      (x.execute "SELECT * FROM a JOIN b ON a.k = b.k" (.rows r)).1 =
        .finished [row] [⟨"id", .integer⟩, ⟨"n", .text⟩, ⟨"id", .integer⟩] false ∧
      Dictionary.find? "id" row = some (.int 2) := by
  let x : Executor := ⟨.standard, "sqlite", false⟩
  let r : RowSet := ⟨["id", "n", "id"], [], [[.int 1, .text "a", .int 2]]⟩
  have hwidth : ∀ values ∈ r.rows, r.names.length ≤ values.length := by decide
  have h : (x.execute "SELECT * FROM a JOIN b ON a.k = b.k" (.rows r)).1 =
      .finished [[("id", .int 2), ("n", .text "a")]]
        [⟨"id", .integer⟩, ⟨"n", .text⟩, ⟨"id", .integer⟩] false := by
    decide +kernel
  obtain ⟨-, j', values, v, c, -, hj', hvalues, hv, hc, hfind⟩ :=
    execute_row_holds_last_cell x _ r hwidth h (i := 0) (j := 0) rfl rfl
  have hlast : LastAt r.names "id" 2 := by decide
  obtain rfl := hlast.unique hj'
  obtain rfl := Option.some.inj hvalues
  obtain rfl := Option.some.inj hv
  obtain rfl := Except.ok.inj hc
  exact ⟨x, r, _, rfl, rfl, hwidth, h, hfind⟩

/-- A row does not hold every cell of the driver's: the value in the first of two columns with one
name is lost. -/
theorem execute_repeated_name_loses_cell :
    ¬ ∀ (x : Executor) (sql : Text) (r : RowSet) (rows : List Row) (columns : List ResultColumn)
        (truncated : Bool), (∀ values ∈ r.rows, r.names.length ≤ values.length) →
      (x.execute sql (.rows r)).1 = .finished rows columns truncated →
      ∀ (i j : Nat) row name values v, rows[i]? = some row → r.names[j]? = some name →
        r.rows[i]? = some values → values[j]? = some v →
        ∃ c, Cell.ofValue v = .ok c ∧ Dictionary.find? name row = some c := by
  intro h
  obtain ⟨c, hc, hfind⟩ := h ⟨.standard, "sqlite", false⟩
    "SELECT a.id, b.id FROM a JOIN b ON a.k = b.k" ⟨["id", "id"], [], [[.int 1, .int 2]]⟩
    [[("id", .int 2)]] [⟨"id", .integer⟩, ⟨"id", .integer⟩] false (by decide) (by decide +kernel)
    0 0 _ _ _ _ rfl rfl rfl rfl
  obtain rfl := Except.ok.inj hc
  exact absurd hfind (by decide)

end QueryGate
