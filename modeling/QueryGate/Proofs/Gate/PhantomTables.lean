import QueryGate.ColumnCheck
import QueryGate.Gate.Existence
import QueryGate.Proofs.Repair.Renames
import QueryGate.Proofs.Sql.FromScan
import QueryGate.Proofs.Sql.MaskedParts
import QueryGate.Proofs.Sql.QuotedNames
import QueryGate.Proofs.Sql.TablePlaces

/-!
# Phantom tables

A table that is named only inside the quotes of another name is no table of the query. The scan for
tables knows no quotes, but it passes over whole names in quotes: a reference stands in quotes
exactly if the `FROM` or `JOIN` that introduces it does. So a query is free of phantom tables
exactly if no such word in quotes introduces a bare name (`noPhantomTables_iff`), and in particular
if no quoted name holds `FROM` or `JOIN` and a blank (`noPhantomTables_of_names`).
-/

namespace QueryGate

/-- Whether a reference stands strictly between the quotes of a name. -/
def TableRef.IsInsideQuotes (sql : Text) (r : TableRef) : Prop :=
  ∃ before name, IsQuotedName sql before name ∧ before.length < r.start ∧
    r.stop ≤ before.length + 1 + name.length

/-- A text makes no reference between the quotes of a name, and none of its tables that are reported
as unknown is named only there. -/
structure NoPhantomTables (sql : Text) : Prop where
  refs : ∀ r ∈ tableRefs sql, ¬ r.IsInsideQuotes sql
  gate : ∀ tables name known,
    checkExistence tables sql = .rejected .schema (.unknownTable name known) →
      ∃ r ∈ tableRefs sql, r.name = name ∧ ¬ r.IsInsideQuotes sql
  columns : ∀ tables, ∀ name ∈ (checkColumns tables sql).unknownTables,
    ∃ r ∈ tableRefs sql, r.name = name ∧ ¬ r.IsInsideQuotes sql

/-! ## Reported tables are referred to -/

theorem Existence.exists_ref_of_naming {tables : List Table} {masked : Text} {refs : List TableRef}
    {v : Violation} (h : naming tables masked refs = .error v) :
    ∃ r ∈ refs, v = .unknownTable r.name (tables.map (·.name)) := by
  induction refs with
  | nil => cases h
  | cons r refs ih =>
    have hlater (h : naming tables masked refs = .error v) :
        ∃ r' ∈ r :: refs, v = .unknownTable r'.name (tables.map (·.name)) := by
      obtain ⟨r', hr', heq⟩ := ih h
      exact ⟨r', List.mem_cons_of_mem r hr', heq⟩
    rw [naming] at h
    split at h
    · exact ⟨r, List.mem_cons_self, (Except.error.inj h).symm⟩
    all_goals
      cases hrest : naming tables masked refs with
      | error v' =>
        rw [hrest] at h
        obtain rfl := Except.error.inj h
        exact hlater hrest
      | ok w =>
        rw [hrest] at h
        cases h

/-- The unknown table of a rejection is one that the text refers to. -/
theorem exists_ref_of_unknownTable {tables : List Table} {sql name : Text} {known : List Text}
    (h : checkExistence tables sql = .rejected .schema (.unknownTable name known)) :
    ∃ r ∈ tableRefs sql, r.name = name := by
  unfold checkExistence at h
  split at h
  · rename_i v hnaming
    obtain ⟨r, hr, heq⟩ := Existence.exists_ref_of_naming hnaming
    rw [heq] at h
    cases h
    exact ⟨r, hr, rfl⟩
  · simp only at h
    split at h <;> cases h

theorem exists_ref_of_mem_unknownTables {tables : List Table} {sql name : Text}
    (h : name ∈ (checkColumns tables sql).unknownTables) : ∃ r ∈ tableRefs sql, r.name = name := by
  unfold checkColumns at h
  split at h
  · cases h
  · obtain ⟨r, hr, hname⟩ := List.mem_map.1 (mem_distinct _ h)
    exact ⟨r, List.mem_of_mem_filter hr, hname⟩

theorem NoPhantomTables.of_refs {sql : Text} (h : ∀ r ∈ tableRefs sql, ¬ r.IsInsideQuotes sql) :
    NoPhantomTables sql := by
  refine ⟨h, fun tables name known hgate => ?_, fun tables name hname => ?_⟩
  · obtain ⟨r, hr, hname⟩ := exists_ref_of_unknownTable hgate
    exact ⟨r, hr, hname, h r hr⟩
  · obtain ⟨r, hr, hname⟩ := exists_ref_of_mem_unknownTables hname
    exact ⟨r, hr, hname, h r hr⟩

/-! ## Where a reference stands -/

theorem isSome_spaced?_maskLiterals (t : Text) :
    (spaced? (maskLiterals t)).isSome = (spaced? t).isSome := by
  have hhead (t : Text) : (spaced? t).isSome = t.head?.any isBlank := by
    cases t with
    | nil => rfl
    | cons c t =>
      rw [spaced?, List.head?_cons, Option.any_some]
      split <;> simp_all
  rw [hhead, hhead, head?_maskLiterals]

/-- A `FROM` or `JOIN` that shows in a mask with a blank behind it stands in the text. -/
theorem occurs_spacedSource_of_maskLiterals {t : Text}
    (h : occurs spacedSource (maskLiterals t) = true) : occurs spacedSource t = true := by
  obtain ⟨a, b, hab, hb, hread⟩ := occurs_eq_true_iff.1 h
  rw [spacedSource] at hread
  split at hread
  · rename_i hstart
    obtain ⟨word, hword, hread⟩ := List.findSome?_isSome_iff.1 hread
    obtain ⟨⟨⟩, hread⟩ := Option.isSome_iff_exists.1 hread
    obtain ⟨rest, hrest, -⟩ := Option.map_eq_some_iff.1 hread
    obtain ⟨r, hr, hblank⟩ := Option.bind_eq_some_iff.1 hrest
    obtain ⟨x, hbx, hx⟩ := keyword?_eq_some_iff.1 hr
    obtain ⟨c, u, hcu, hfold⟩ := foldLetter_head?_of_spells (r := r) hword hx
    obtain rfl : b = c :: u := hbx.trans hcu
    have hplace : (maskLiterals t)[a.length]? = some c := by rw [hab]; simp
    have hne (d : Char) (hd : foldLetter d ≠ 'f' ∧ foldLetter d ≠ 'j') : c ≠ d := by
      rintro rfl
      exact hfold.elim hd.1 hd.2
    -- The text is cut where the mask is, and each part of the mask is that of a part of the text.
    obtain ⟨s, d, rfl, hs⟩ : ∃ s d, t = s ++ c :: d ∧ s.length = a.length := by
      have hget := getElem?_maskLiterals hplace (hne maskChar (by decide))
      obtain ⟨hlt, hget⟩ := List.getElem?_eq_some_iff.1 hget
      refine ⟨t.take a.length, t.drop (a.length + 1), ?_, List.length_take_of_le hlt.le⟩
      rw [← hget, ← List.drop_eq_getElem_cons hlt, List.take_append_drop]
    rw [← hs] at hplace
    rw [maskLiterals_append_of_shown (hne '\'' (by decide)) (hne maskChar (by decide)) hplace] at hab
    obtain ⟨rfl, hb'⟩ := List.append_inj hab (by rw [length_maskLiterals, hs])
    refine occurs_eq_true_iff.2 ⟨s, c :: d, rfl, List.cons_ne_nil _ _, ?_⟩
    rw [atWordStart_reverse_iff, getLast?_maskLiterals, ← atWordStart_reverse_iff] at hstart
    rw [spacedSource, if_pos hstart, List.findSome?_isSome_iff]
    refine ⟨word, hword, ?_⟩
    have hletters : ∀ word ∈ sourceWords, ∀ c ∈ word, foldLetter c ≠ '\'' := by decide
    rw [← hb', keyword?_maskLiterals (hletters word hword)] at hr
    obtain ⟨r', hr', rfl⟩ := Option.map_eq_some_iff.1 hr
    rw [hr', Option.bind_some, Option.isSome_map, ← isSome_spaced?_maskLiterals, hblank]
    rfl
  · cases hread

theorem mem_tableRefs_iff {sql : Text} {r : TableRef} :
    r ∈ tableRefs sql ↔
      ∃ k ∈ hits tableSource (maskLiterals sql), r ∈ k.value.refs sql.length := by
  rw [tableRefs, tableRefsIn, length_maskLiterals, List.mem_flatMap]

/-- A reference of a hit is an identifier of the mask with an even number of quotes between. -/
theorem exists_between {masked : Text} {k : Hit TableSource} (hk : k ∈ hits tableSource masked)
    {r : TableRef} (hr : r ∈ k.value.refs masked.length) :
    ∃ a u rest, masked = a ++ (u ++ (r.identifier.written ++ rest)) ∧ a.length = k.start ∧
      u.count '"' % 2 = 0 ∧ r.identifier.IsWellFormed ∧ r.name ≠ [] ∧
      r.start = (a ++ u).length ∧ r.stop = (a ++ u).length + r.identifier.written.length := by
  obtain ⟨a, b, rest, rfl, hread, hstart, -, -⟩ := span_of_mem_hitsFrom hk
  obtain ⟨o, ⟨u, rfl, heven⟩, hform, hne, hrstart, hrstop⟩ := TableRef.StandsIn.of_mem_refs hread hr
  refine ⟨a, u, o, rfl, by simpa using hstart.symm, heven, hform, hne, ?_, ?_⟩
  · rw [hrstart]
    simp only [List.length_append]
    omega
  · rw [hrstop]
    simp only [List.length_append]
    omega

section Lexed

variable {sql : Text} (hlexed : (lexState sql).isOutside = true) (hpaired : PairedApostrophes sql)
  {k : Hit TableSource} (hk : k ∈ hits tableSource (maskLiterals sql))
include hlexed hpaired hk

/-- A reference is inside quotes exactly if its `FROM` or `JOIN` is and its name is bare. If the
name is quoted, its opening quote closes the name that the `FROM` or `JOIN` is in. -/
theorem isInsideQuotes_iff {r : TableRef} (hr : r ∈ k.value.refs sql.length) :
    r.IsInsideQuotes sql ↔ InQuotes sql k.start ∧ r.quoted = false := by
  rw [← length_maskLiterals] at hr
  obtain ⟨a, u, rest, hmask, ha, heven, hform, hne, hstart, hstop⟩ := exists_between hk hr
  have hlen := length_maskLiterals sql
  rw [hmask] at hlen
  simp only [List.length_append] at hlen hstart hstop
  have hplace : InQuotes sql r.start ↔ InQuotes sql k.start := by
    rw [← count_quotes_take hpaired hlexed (by omega), ← count_quotes_take hpaired hlexed (by omega),
      hmask, hstart, ← ha, List.take_left, ← List.append_assoc a u, ← List.length_append,
      List.take_left, List.count_append]
    omega
  rw [← hplace]
  have hshown (j : Nat) (hj : j < r.identifier.written.length) :
      (maskLiterals sql)[r.start + j]? = r.identifier.written[j]? := by
    rw [hmask, hstart, ← List.append_assoc a u, ← List.length_append,
      List.getElem?_append_right (by omega), Nat.add_sub_cancel_left, List.getElem?_append_left hj]
  have hpos : 0 < r.identifier.written.length := List.length_pos_iff.2 (Identifier.written_ne_nil hne)
  constructor
  · rintro ⟨before, name, hname, hlt, hle⟩
    refine ⟨hname.inQuotes hlt (by omega), ?_⟩
    refine Bool.eq_false_iff.2 fun (hquoted : r.identifier.quoted = true) => ?_
    have hquote : (maskLiterals sql)[r.start]? = some '"' := by
      have hfirst := hshown 0 hpos
      rw [Identifier.written, if_pos hquoted] at hfirst
      exact hfirst
    exact hname.not_quote hlt (by omega) (getElem?_maskLiterals hquote (by decide))
  · rintro ⟨hin, (hbare : r.identifier.quoted = false)⟩
    obtain ⟨before, name, hname, hlt, hle⟩ := hin.exists_name hlexed
    refine ⟨before, name, hname, hlt, ?_⟩
    by_contra hgt
    have hclosing := hname.closing_shown hpaired
    have hj := hshown (before.length + 1 + name.length - r.start) (by omega)
    rw [Nat.add_sub_cancel' hle, hclosing] at hj
    rw [Identifier.IsWellFormed, if_neg (Bool.eq_false_iff.1 hbare)] at hform
    rw [Identifier.written, if_neg (Bool.eq_false_iff.1 hbare)] at hj
    exact absurd (hform _ (List.mem_of_getElem? hj.symm)) (by decide)

/-- A `FROM` or `JOIN` in quotes is one of a quoted name, with a blank behind it in the name. -/
theorem exists_name_of_hit (h : InQuotes sql k.start) :
    ∃ before name, IsQuotedName sql before name ∧ occurs spacedSource name = true := by
  obtain ⟨before, name, hname, hlt, hle⟩ := h.exists_name hlexed
  refine ⟨before, name, hname, occurs_spacedSource_of_maskLiterals ?_⟩
  by_contra hquiet
  obtain ⟨after, hsplit⟩ := hname.maskLiterals_eq hpaired
  obtain ⟨a, b, rest, hmask, hread, hstart, -, -⟩ := span_of_mem_hitsFrom hk
  rw [List.length_nil, Nat.zero_add] at hstart
  rw [hmask] at hsplit
  obtain ⟨m, rfl⟩ : maskLiterals before ++ ['"'] <+: a := by
    refine List.prefix_of_prefix_length_le ?_ ⟨b, hsplit⟩ (by simp; omega)
    exact ⟨maskLiterals name ++ '"' :: maskLiterals after, by simp⟩
  obtain ⟨n, hmn⟩ : m <+: maskLiterals name := by
    have htail : m ++ b = maskLiterals name ++ '"' :: maskLiterals after := by
      simpa using hsplit
    refine List.prefix_of_prefix_length_le ⟨b, htail⟩ ⟨'"' :: maskLiterals after, rfl⟩ ?_
    rw [length_maskLiterals]
    simp at hstart
    omega
  obtain rfl : b = n ++ ['"'] ++ maskLiterals after := by
    rw [← hmn] at hsplit
    simpa using hsplit
  have hread' : tableSource (('"' :: m).reverse ++ (maskLiterals before).reverse)
      (n ++ ['"'] ++ maskLiterals after) = some (k.value, rest) := by
    simpa using hread
  by_cases hn : n = []
  · subst hn
    rw [List.nil_append, List.singleton_append, tableSource_cons_eq_none (by decide) (by decide)]
      at hread'
    cases hread'
  · refine not_read_in_quotes ?_ hn hread'
    rw [hmn]
    simpa using hquiet

end Lexed

/-! ## Phantom tables -/

/-- A text is free of phantom tables exactly if no `FROM` or `JOIN` in quotes introduces a bare
name. -/
theorem noPhantomTables_iff {sql : Text} (hlexed : (lexState sql).isOutside = true)
    (hpaired : PairedApostrophes sql) :
    NoPhantomTables sql ↔ ∀ k ∈ hits tableSource (maskLiterals sql), InQuotes sql k.start →
      ∀ r ∈ k.value.refs sql.length, r.quoted = true := by
  constructor
  · intro h k hk hin r hr
    by_contra hbare
    exact h.refs r (mem_tableRefs_iff.2 ⟨k, hk, hr⟩)
      ((isInsideQuotes_iff hlexed hpaired hk hr).2 ⟨hin, by simpa using hbare⟩)
  · intro h
    refine .of_refs fun r hr hinside => ?_
    obtain ⟨k, hk, hr⟩ := mem_tableRefs_iff.1 hr
    obtain ⟨hin, hbare⟩ := (isInsideQuotes_iff hlexed hpaired hk hr).1 hinside
    rw [h k hk hin r hr] at hbare
    cases hbare

/-- A text whose quoted names hold no `FROM` or `JOIN` with a blank behind it is free of phantom
tables. -/
theorem noPhantomTables_of_names {sql : Text} (hlexed : (lexState sql).isOutside = true)
    (hpaired : PairedApostrophes sql)
    (hquiet : ∀ before name, IsQuotedName sql before name → occurs spacedSource name = false) :
    NoPhantomTables sql := by
  refine .of_refs fun r hr hinside => ?_
  obtain ⟨k, hk, hr⟩ := mem_tableRefs_iff.1 hr
  have hin := ((isInsideQuotes_iff hlexed hpaired hk hr).1 hinside).1
  obtain ⟨before, name, hname, hoccurs⟩ := exists_name_of_hit hlexed hpaired hk hin
  rw [hquiet before name hname] at hoccurs
  cases hoccurs

/-- Quoted names of several words, keywords among them, mislead nobody. -/
theorem noPhantomTables_quoted_headers :
    (lexState "SELECT \"Unit Price\", \"From\" FROM \"Sales from May\" WHERE c = 'x'").isOutside = true ∧
      PairedApostrophes "SELECT \"Unit Price\", \"From\" FROM \"Sales from May\" WHERE c = 'x'" ∧
      NoPhantomTables "SELECT \"Unit Price\", \"From\" FROM \"Sales from May\" WHERE c = 'x'" := by
  have hlexed : (lexState
      "SELECT \"Unit Price\", \"From\" FROM \"Sales from May\" WHERE c = 'x'").isOutside = true := by
    decide +kernel
  have hpaired :
      PairedApostrophes "SELECT \"Unit Price\", \"From\" FROM \"Sales from May\" WHERE c = 'x'" := by
    decide +kernel
  exact ⟨hlexed, hpaired, (noPhantomTables_iff hlexed hpaired).2 (by decide +kernel)⟩

/-- A quoted name with a `FROM` and a blank in it makes a phantom table. -/
theorem phantomTable_of_quoted_header :
    (lexState "SELECT \"Date from start\" FROM t").isOutside = true ∧
      PairedApostrophes "SELECT \"Date from start\" FROM t" ∧
      (tableRefs "SELECT \"Date from start\" FROM t").map (·.name) = ["start", "t"] ∧
      checkExistence [⟨"t", [⟨"Date from start", .text, true⟩]⟩]
          "SELECT \"Date from start\" FROM t" =
        .rejected .schema (.unknownTable "start" ["t"]) ∧
      ¬ NoPhantomTables "SELECT \"Date from start\" FROM t" := by
  refine ⟨by decide +kernel, by decide +kernel, by decide +kernel, by decide +kernel, fun h => ?_⟩
  have hr : ⟨"start", none, none, false, 18, 23, "FROM"⟩ ∈
      tableRefs "SELECT \"Date from start\" FROM t" := by
    decide +kernel
  exact h.refs _ hr ⟨"SELECT ", "Date from start", ⟨by decide, by decide, by decide⟩, by decide,
    by decide⟩

end QueryGate
