import Mathlib.Data.List.Forall2
import QueryGate.Schema.Catalogue

/-!
# Snapshots of a catalogue

A snapshot asks for the names of the tables and then, one by one, for the columns of those that are
shown. Reading them either comes to the end, with a table for each name, or breaks off at the first
question that fails (`Catalogue.Read`). So a snapshot is complete or empty, nothing is asked about a
table that is not shown, and nothing more is asked once a question has failed
(`Catalogue.snapshot_complete_or_empty`).

An inspector belongs to one snapshot and remembers its answers, so a table that is listed twice is
described twice in the same way.
-/

namespace QueryGate

namespace Inspector

/-- Whether a question is answered. -/
def Answers (i : Inspector) : CatalogueCall → Prop
  | .tableNames schema => i.tableNames schema ≠ none
  | .columns table schema => i.columns table schema ≠ none

/-- A table is the one that the catalogue describes under a name, with all its columns in order:
each with the portable type of the declared one, and nullable unless the catalogue says
otherwise. -/
structure Describes (i : Inspector) (schema : Option Text) (name : Text) (t : Table) : Prop where
  name_eq : t.name = name
  columns : ∃ declared, i.columns name schema = some declared ∧
    t.columns = declared.map fun c =>
      { name := c.name
        type := ColumnType.ofDatum c.type
        nullable := (c.nullable.map Datum.holds).getD true }

end Inspector

namespace Catalogue

/-- A table is shown unless its name in small letters begins with `pg_` or with `_prisma`. -/
def IsShown (name : Text) : Prop :=
  ¬ ("pg_" : Text) <+: lower name ∧ ¬ ("_prisma" : Text) <+: lower name

instance : DecidablePred IsShown := fun _ => inferInstanceAs (Decidable (_ ∧ _))

theorem not_isHidden (name : Text) : (!isHidden name) = decide (IsShown name) := by
  have hhidden : isHidden name = true ↔
      ("pg_" : Text) <+: lower name ∨ ("_prisma" : Text) <+: lower name := by
    rw [isHidden, hiddenPrefixes, List.any_cons, List.any_cons, List.any_nil, Bool.or_false,
      Bool.or_eq_true, List.isPrefixOf_iff_prefix, List.isPrefixOf_iff_prefix]
  rw [Bool.eq_iff_iff, Bool.not_eq_true', ← Bool.not_eq_true, hhidden, not_or, decide_eq_true_eq]
  exact Iff.rfl

/-! ## Reading the columns -/

/-- What comes of reading the columns of tables in turn, with the questions that are asked. -/
inductive Read (i : Inspector) (schema : Option Text) :
    List Text → Option (List Table) → List CatalogueCall → Prop
  /-- Every question is answered. -/
  | complete {names : List Text} {tables : List Table}
      (described : List.Forall₂ (i.Describes schema) names tables) :
      Read i schema names (some tables) (names.map (.columns · schema))
  /-- The question about a table fails, and it is the last. -/
  | broken {before after : List Text} {name : Text}
      (answered : ∀ n ∈ before, i.columns n schema ≠ none)
      (failed : i.columns name schema = none) :
      Read i schema (before ++ name :: after) none ((before ++ [name]).map (.columns · schema))

namespace Read

variable {i : Inspector} {schema : Option Text} {names : List Text}

theorem cons {name : Text} {declared : List DeclaredColumn} {tables : Option (List Table)}
    {calls : List CatalogueCall} (hname : i.columns name schema = some declared)
    (h : Read i schema names tables calls) :
    Read i schema (name :: names)
      (tables.map (⟨name, declared.map DeclaredColumn.column⟩ :: ·))
      (.columns name schema :: calls) := by
  cases h with
  | complete described =>
    exact .complete (.cons ⟨rfl, declared, hname, rfl⟩ described)
  | @broken before after failing answered failed =>
    refine @broken i schema (name :: before) after failing ?_ failed
    intro n hn
    rcases List.mem_cons.1 hn with rfl | hn
    · rw [hname]
      exact Option.some_ne_none declared
    · exact answered n hn

theorem of_readTables (i : Inspector) (schema : Option Text) (names : List Text) :
    Read i schema names (readTables i schema names).1 (readTables i schema names).2 := by
  induction names with
  | nil => exact .complete .nil
  | cons name names ih =>
    rw [readTables]
    cases hname : i.columns name schema with
    | none => exact @broken i schema [] names name nofun hname
    | some declared => exact ih.cons hname

section Outcome

variable {tables : Option (List Table)} {calls : List CatalogueCall}
  (h : Read i schema names tables calls)

include h

theorem eq_none_of_failure (hfails : ∃ name ∈ names, i.columns name schema = none) :
    tables = none := by
  cases h with
  | broken => rfl
  | complete described =>
    obtain ⟨name, hname, hnone⟩ := hfails
    obtain ⟨k, hk, rfl⟩ := List.mem_iff_getElem.1 hname
    obtain ⟨declared, hdeclared, -⟩ :=
      (described.get hk (described.length_eq ▸ hk)).columns
    rw [List.get_eq_getElem, hnone] at hdeclared
    cases hdeclared

theorem described_of_answers (hall : ∀ name ∈ names, i.columns name schema ≠ none) :
    List.Forall₂ (i.Describes schema) names (tables.getD []) := by
  cases h with
  | complete described => exact described
  | @broken before after name answered failed =>
    exact absurd failed (hall name (List.mem_append_right before List.mem_cons_self))

theorem exists_asked : ∃ asked, asked <+: names ∧ calls = asked.map (.columns · schema) := by
  cases h with
  | complete described => exact ⟨names, List.prefix_refl names, rfl⟩
  | @broken before after name answered failed =>
    refine ⟨before ++ [name], ?_, rfl⟩
    rw [List.prefix_append_right_inj]
    exact List.prefix_append [name] after

/-- Every question but the last is answered. -/
theorem pairwise_answers : calls.Pairwise fun earlier _ => i.Answers earlier := by
  cases h with
  | @complete names tables described =>
    have hall : ∀ n ∈ names, i.columns n schema ≠ none := by
      intro n hn hnone
      have hread : Read i schema names (some tables) _ := .complete described
      cases hread.eq_none_of_failure ⟨n, hn, hnone⟩
    rw [List.pairwise_map]
    exact List.pairwise_of_forall_mem_list fun n hn _ _ => hall n hn
  | @broken before after name answered failed =>
    rw [List.map_append, List.pairwise_append, List.pairwise_map]
    refine ⟨List.pairwise_of_forall_mem_list fun n hn _ _ => answered n hn,
      List.pairwise_singleton _ _, fun call hcall _ _ => ?_⟩
    obtain ⟨n, hn, rfl⟩ := List.mem_map.1 hcall
    exact answered n hn

end Outcome

end Read

/-! ## The snapshot -/

/-- The names of the tables of a listing that are shown; none if there is no listing. -/
def shownNames (listing : Option (List Text)) : List Text :=
  (listing.getD []).filter fun name => IsShown name

/-- A snapshot is empty if a question that it needs is not answered, and else it holds the tables
that are shown, in the order of the listing and with all their columns. Only the columns of tables
that are shown are asked for, and no question follows one that is not answered. -/
theorem snapshot_complete_or_empty (c : Catalogue) (i : Inspector) :
    let listing := i.tableNames c.askedSchema
    let (tables, calls) := c.snapshot i
    ((listing = none ∨ ∃ name ∈ shownNames listing, i.columns name c.askedSchema = none) →
        tables = []) ∧
      (listing ≠ none →
        (∀ name ∈ shownNames listing, i.columns name c.askedSchema ≠ none) →
          List.Forall₂ (i.Describes c.askedSchema) (shownNames listing) tables) ∧
      (∃ asked, asked <+: shownNames listing ∧
        calls = .tableNames c.askedSchema :: asked.map (.columns · c.askedSchema)) ∧
      calls.Pairwise fun earlier _ => i.Answers earlier := by
  intro listing
  cases hlisting : i.tableNames c.askedSchema with
  | none =>
    simp only [snapshot, hlisting, listing]
    refine ⟨fun _ => trivial, fun h => absurd rfl h, ⟨[], List.nil_prefix, rfl⟩,
      List.pairwise_singleton _ _⟩
  | some names =>
    have hread := Read.of_readTables i c.askedSchema (names.filter fun name => IsShown name)
    have hfilter : names.filter (!isHidden ·) = names.filter fun name => IsShown name :=
      List.filter_congr fun name _ => not_isHidden name
    simp only [snapshot, hlisting, hfilter, listing]
    refine ⟨fun h => ?_, fun _ hall => hread.described_of_answers hall, ?_, ?_⟩
    · rw [hread.eq_none_of_failure (h.resolve_left (Option.some_ne_none names))]
      rfl
    · obtain ⟨asked, hasked, hcalls⟩ := hread.exists_asked
      exact ⟨asked, hasked, congrArg _ hcalls⟩
    · refine List.pairwise_cons.2 ⟨fun _ _ => ?_, hread.pairwise_answers⟩
      rw [Inspector.Answers, hlisting]
      exact Option.some_ne_none names

/-- Of a listing with hidden tables in between, the others make up the snapshot. If the second of
them cannot be read there is none, and the third is not asked for. -/
theorem snapshot_with_hidden_tables :
    let listing : List Text := ["users", "PG_stats", "orders", "_prisma_migrations", "items"]
    let columns : List DeclaredColumn :=
      [⟨"id", .text "BIGINT", some (.bool false)⟩, ⟨"Note", .text "VARCHAR(80)", none⟩]
    let c : Catalogue := ⟨"postgresql", some "public"⟩
    let i : Inspector := ⟨fun _ => some listing, fun _ _ => some columns⟩
    let j : Inspector := ⟨fun _ => some listing,
      fun name _ => if name = ("orders" : Text) then none else some columns⟩
    List.Forall₂ (i.Describes (some "public")) ["users", "orders", "items"] (c.snapshot i).1 ∧
      (c.snapshot j).1 = [] ∧
      (c.snapshot j).2 = [.tableNames (some "public"), .columns "users" (some "public"),
        .columns "orders" (some "public")] := by
  intro listing columns c i j
  have hshown : shownNames (some listing) = [("users" : Text), "orders", "items"] := by
    decide
  refine ⟨?_, ?_, by decide⟩
  · rw [← hshown]
    exact (snapshot_complete_or_empty c i).2.1 (Option.some_ne_none listing)
      fun _ _ => Option.some_ne_none columns
  · refine (snapshot_complete_or_empty c j).1 (.inr ⟨"orders", ?_, rfl⟩)
    change ("orders" : Text) ∈ shownNames (some listing)
    rw [hshown]
    exact List.mem_cons_of_mem _ List.mem_cons_self

end Catalogue

end QueryGate
