import QueryGate.Proofs.Schema.Registry
import QueryGate.Schema.Mapping

/-!
# Schemas given by names alone

A mapping from table names to column names is a schema as plain data. Its tables are kept in the
order of the mapping, with the columns that it lists, as long as no two of their names agree in
small letters. So the mapping is got back from the registry, unless a table is called `tables`:
under that key the reader expects a mapping of tables, and the list that it finds there is refused
(`columnsByTable_ofNames`).
-/

namespace QueryGate

/-! ## Dictionaries written in turn -/

namespace Dictionary

variable {α : Type} {key : Text} {d entries : Dictionary α}

theorem put_of_not_mem (a : α) (h : key ∉ keys d) : put key a d = d ++ [(key, a)] := by
  induction d with
  | nil => rfl
  | cons e d ih =>
    obtain ⟨k, b⟩ := e
    obtain ⟨hk, hd⟩ := List.ne_and_not_mem_of_not_mem_cons h
    rw [put, if_neg hk.symm, ih hd]
    rfl

/-- Entries under new keys come behind those that there are. -/
theorem foldl_put_eq_append (h : (keys (d ++ entries)).Nodup) :
    entries.foldl (fun d e => put e.1 e.2 d) d = d ++ entries := by
  induction entries generalizing d with
  | nil => rw [List.foldl_nil, List.append_nil]
  | cons e entries ih =>
    have hcut : d ++ e :: entries = (d ++ [e]) ++ entries := by
      rw [List.append_assoc, List.singleton_append]
    have hnew : e.1 ∉ keys d := by
      intro hmem
      rw [keys, List.map_append, List.nodup_append] at h
      exact h.2.2 e.1 hmem e.1 List.mem_cons_self rfl
    rw [hcut] at h ⊢
    rw [List.foldl_cons, put_of_not_mem e.2 hnew, ih h]

theorem ofEntries_eq_self (h : (keys entries).Nodup) : ofEntries entries = entries := by
  rw [ofEntries, foldl_put_eq_append (by rwa [List.nil_append]), List.nil_append]

theorem find?_eq_none_iff : find? key d = none ↔ key ∉ keys d := by
  induction d with
  | nil => exact iff_of_true rfl List.not_mem_nil
  | cons e d ih =>
    obtain ⟨k, a⟩ := e
    change (if k = key then some a else find? key d) = none ↔ key ∉ k :: keys d
    by_cases hk : k = key
    · rw [if_pos hk, hk]
      exact iff_of_false (Option.some_ne_none a) fun h => h List.mem_cons_self
    · rw [if_neg hk, ih, List.mem_cons, not_or]
      exact (and_iff_right (Ne.symm hk)).symm

end Dictionary

/-! ## Registries of tables with different names -/

theorem Registry.tables_ofTables {tables : List Table}
    (h : (tables.map fun t => lower t.name).Nodup) : (ofTables tables).tables = tables := by
  have hkeys : (Dictionary.keys (tables.map fun t => (lower t.name, t))).Nodup := by
    rwa [Dictionary.keys, List.map_map]
  have hentries : (ofTables tables).entries = tables.map fun t => (lower t.name, t) := by
    rw [← Dictionary.ofEntries_eq_self hkeys, Dictionary.ofEntries, List.foldl_map]
    exact (List.foldl_hom Registry.entries fun _ _ => rfl).symm
  rw [Registry.tables, hentries, Dictionary.values, List.map_map]
  exact List.map_id tables

theorem columnsByTable_eq_map {tables : List Table}
    (h : (tables.map fun t => lower t.name).Nodup) :
    columnsByTable tables = tables.map fun t => (t.name, t.columnNames) := by
  refine Dictionary.ofEntries_eq_self ?_
  have hnames : ((tables.map (·.name)).map lower).Nodup := by rwa [List.map_map]
  rw [Dictionary.keys, List.map_map]
  exact hnames.of_map lower

/-! ## Mappings as plain data -/

/-- The schema as plain data that gives nothing but the names of tables and of their columns. -/
def Datum.ofNames (mapping : Dictionary (List Text)) : Datum :=
  .mapping (mapping.map fun e => (e.1, .list (e.2.map .text)))

/-- The table with a name and with columns of which nothing but the names is known. -/
def Table.ofNames (name : Text) (columns : List Text) : Table :=
  ⟨name, columns.map fun c => { name := c }⟩

theorem Table.columnNames_ofNames (name : Text) (columns : List Text) :
    (Table.ofNames name columns).columnNames = columns := by
  rw [Table.columnNames, Table.ofNames, List.map_map]
  exact List.map_id columns

theorem Table.ofDatum_list (name : Text) (columns : List Text) :
    Table.ofDatum name (.list (columns.map .text)) = .ok (Table.ofNames name columns) := by
  have hcolumns : (columns.map Datum.text).mapM Column.ofDatum =
      .ok (columns.map fun c => ({ name := c } : Column)) := by
    rw [List.mapM_map]
    exact List.mapM_pure
  simp only [Table.ofDatum, columnEntries]
  change ((columns.map Datum.text).mapM Column.ofDatum >>= fun cs => .ok (Table.mk name cs)) = _
  rw [hcolumns]
  rfl

variable {mapping : Dictionary (List Text)}

theorem Datum.entry?_ofNames (key : Text) :
    Datum.entry? key (mapping.map fun e => (e.1, .list (e.2.map .text))) =
      (Dictionary.find? key mapping).map fun columns => .list (columns.map .text) := by
  induction mapping with
  | nil => rfl
  | cons e mapping ih =>
    obtain ⟨k, columns⟩ := e
    rw [List.map_cons, Datum.entry?, List.find?_cons, Dictionary.find?]
    by_cases hk : k = key
    · rw [if_pos hk, hk, beq_self_eq_true]
      rfl
    · rw [if_neg hk, beq_false_of_ne hk]
      exact ih

/-- The entries are taken for tables by their names, unless one is called `tables`. -/
theorem tableEntries_ofNames :
    tableEntries (.ofNames mapping) =
      if ("tables" : Text) ∈ Dictionary.keys mapping then .error (.notMapping "list")
      else .ok (mapping.map fun e => (e.1, .list (e.2.map .text))) := by
  rw [Datum.ofNames, tableEntries, Datum.entry?_ofNames]
  by_cases hmem : ("tables" : Text) ∈ Dictionary.keys mapping
  · obtain ⟨columns, hcolumns⟩ :=
      Option.ne_none_iff_exists'.1 fun h => Dictionary.find?_eq_none_iff.1 h hmem
    rw [hcolumns, if_pos hmem]
    rfl
  · rw [Dictionary.find?_eq_none_iff.2 hmem, if_neg hmem]
    rfl

theorem mapM_ofNames :
    (mapping.map fun e => (e.1, Datum.list (e.2.map .text))).mapM
        (fun e => Table.ofDatum e.1 e.2) =
      .ok (mapping.map fun e => Table.ofNames e.1 e.2) := by
  have htable : (fun e : Text × List Text => Table.ofDatum e.1 (.list (e.2.map .text))) =
      fun e => .ok (Table.ofNames e.1 e.2) := funext fun e => Table.ofDatum_list e.1 e.2
  rw [List.mapM_map]
  exact (congrArg (List.mapM · mapping) htable).trans List.mapM_pure

/-- The registry holds the tables of the mapping, in its order. -/
theorem Registry.ofDatum_ofNames (hmem : ("tables" : Text) ∉ Dictionary.keys mapping) :
    Registry.ofDatum (.ofNames mapping) =
      .ok (Registry.ofTables (mapping.map fun e => Table.ofNames e.1 e.2)) := by
  rw [Registry.ofDatum, tableEntries_ofNames, if_neg hmem]
  exact congrArg (Except.map Registry.ofTables) mapM_ofNames

/-- The columns by table of a registry that was read from names alone are those names, in order. The
one table name that is not read is the key `tables` of the other form of a schema. -/
theorem columnsByTable_ofNames (mapping : Dictionary (List Text))
    (hnames : (mapping.map fun e => lower e.1).Nodup) :
    (Registry.ofDatum (.ofNames mapping)).map (fun r => columnsByTable r.tables) =
      if ("tables" : Text) ∈ Dictionary.keys mapping then .error (.notMapping "list")
      else .ok mapping := by
  by_cases hmem : ("tables" : Text) ∈ Dictionary.keys mapping
  · rw [if_pos hmem, Registry.ofDatum, tableEntries_ofNames, if_pos hmem]
    rfl
  · have hlower :
        ((mapping.map fun e => Table.ofNames e.1 e.2).map fun t => lower t.name).Nodup := by
      rwa [List.map_map]
    rw [if_neg hmem, Registry.ofDatum_ofNames hmem]
    change Except.ok (columnsByTable (Registry.ofTables _).tables) = _
    rw [Registry.tables_ofTables hlower, columnsByTable_eq_map hlower, List.map_map]
    refine congrArg Except.ok ?_
    calc mapping.map ((fun t => (t.name, t.columnNames)) ∘ fun e => Table.ofNames e.1 e.2)
        = mapping.map id := List.map_congr_left fun e _ =>
          congrArg (Prod.mk e.1) (Table.columnNames_ofNames e.1 e.2)
      _ = mapping := List.map_id mapping

/-- Tables may be called like the keys of the other form in other letters or in another place, and
may have no columns or one name twice. -/
theorem columnsByTable_ofNames_like_keys :
    let mapping : Dictionary (List Text) :=
      [("Tables", ["tables", "Name"]), ("columns", []), ("orders", ["id", "ID", "id"])]
    (mapping.map fun e => lower e.1).Nodup ∧
      (Registry.ofDatum (.ofNames mapping)).map (fun r => columnsByTable r.tables) =
        .ok mapping := by
  intro mapping
  have hnames : (mapping.map fun e => lower e.1).Nodup := by decide
  have hmem : ("tables" : Text) ∉ Dictionary.keys mapping := by decide
  exact ⟨hnames, (columnsByTable_ofNames mapping hnames).trans (if_neg hmem)⟩

/-- A table called `tables` takes the others with it: no registry is made at all. -/
theorem columnsByTable_of_table_called_tables :
    let mapping : Dictionary (List Text) := [("orders", ["id"]), ("tables", ["id", "seats"])]
    (mapping.map fun e => lower e.1).Nodup ∧
      (Registry.ofDatum (.ofNames mapping)).map (fun r => columnsByTable r.tables) ≠
        .ok mapping := by
  intro mapping
  refine ⟨by decide, fun h => ?_⟩
  cases h

end QueryGate
