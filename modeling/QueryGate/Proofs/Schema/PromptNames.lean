import QueryGate.Proofs.Gate.WrittenNames
import QueryGate.Schema.Prompt

/-!
# The names that the description shows

The description of a schema shows the names of tables as they are, and those of columns in quotes if
they hold more than small letters, digits and underscores. SQL writes a name in quotes in one case
more, where it begins with a digit, and makes no difference between tables and columns. So the
description is the one that writes every name as SQL does exactly if no table that it shows needs
quotes and no column is in that case (`describeSchema_eq_written_iff`).

What the description leaves out is quotes, so each name in it is the written one or shorter
(`EqOrShorter`), and as a whole it is the written one only if each of its names is.
-/

namespace QueryGate

/-! ## Texts that are equal or shorter -/

/-- A text is another one, or shorter. Joined to such texts it makes the same text only if each of
them is the other one. -/
def EqOrShorter (s t : Text) : Prop := s = t ∨ s.length < t.length

namespace EqOrShorter

variable {s t s' t' : Text}

theorem refl (t : Text) : EqOrShorter t t := .inl rfl

theorem append (h : EqOrShorter s t) (h' : EqOrShorter s' t') :
    EqOrShorter (s ++ s') (t ++ t') := by
  rcases h with rfl | h
  · rcases h' with rfl | h'
    · exact .refl _
    · right
      simp only [List.length_append]
      omega
  · right
    simp only [List.length_append]
    rcases h' with rfl | h' <;> omega

theorem append_eq_iff (h : EqOrShorter s t) (h' : EqOrShorter s' t') :
    s ++ s' = t ++ t' ↔ s = t ∧ s' = t' := by
  refine ⟨fun heq => ?_, fun ⟨hs, hs'⟩ => hs ▸ hs' ▸ rfl⟩
  have hlength := congrArg List.length heq
  rw [List.length_append, List.length_append] at hlength
  rcases h with rfl | h
  · exact ⟨rfl, List.append_cancel_left heq⟩
  · rcases h' with rfl | h' <;> omega

section Join

variable {separator : Text} {parts parts' : List Text}
  (h : List.Forall₂ EqOrShorter parts parts')

include h

theorem join : EqOrShorter (Text.join separator parts) (Text.join separator parts') := by
  unfold Text.join
  induction h with
  | nil => exact .refl _
  | cons hpart hparts ih =>
    cases hparts with
    | nil => rwa [List.intercalate_singleton, List.intercalate_singleton]
    | cons =>
      rw [List.intercalate_cons_cons, List.intercalate_cons_cons]
      exact (hpart.append (.refl separator)).append ih

theorem join_eq_iff :
    Text.join separator parts = Text.join separator parts' ↔ parts = parts' := by
  induction h with
  | nil => exact iff_of_true rfl rfl
  | cons hpart hparts ih =>
    have hrest : EqOrShorter (Text.join separator _) (Text.join separator _) := join hparts
    unfold Text.join at ih hrest ⊢
    cases hparts with
    | nil => rw [List.intercalate_singleton, List.intercalate_singleton, List.singleton_inj]
    | cons =>
      have hseparator := hpart.append (.refl separator)
      rw [List.intercalate_cons_cons, List.intercalate_cons_cons, hseparator.append_eq_iff hrest,
        hpart.append_eq_iff (.refl separator), ih]
      simp only [and_true, List.cons.injEq]

end Join

end EqOrShorter

/-! ## The description with other spellings -/

namespace Prompt

section Spelt

variable (table column : Text → Text)

/-- A column with its name spelt in a given way. -/
def columnSpelt (c : Column) : Text := column c.name ++ ':' :: c.type.label

/-- A table with its name and those of its columns spelt in given ways. -/
def tableSpelt (t : Table) : Text :=
  table t.name ++ '(' :: Text.join ", " (t.columns.map (columnSpelt column)) ++ [')']

/-- The tables that are shown. -/
def shown (tables : List Table) (most : Int) : List Table :=
  tables.take (shownCount most tables.length)

/-- The description with the names of tables and columns spelt in given ways. -/
def spelt (tables : List Table) (most : Int) : Text :=
  let remaining := tables.length - (shown tables most).length
  let more : List Text :=
    if remaining = 0 then [] else ["... and " ++ Text.ofNat remaining ++ " more tables"]
  Text.join ['\n']
    ([heading] ++ (shown tables most).map (tableSpelt table column) ++ more ++ [[], advice])

end Spelt

/-- The description spells tables as they are, and columns as `columnName` does. -/
theorem describeSchema_eq_spelt (tables : List Table) (most : Int) :
    describeSchema tables most = spelt (fun n => n) columnName tables most := rfl

section Shorter

variable {table column table' column' : Text → Text}
  (htable : ∀ n, EqOrShorter (table n) (table' n))
  (hcolumn : ∀ n, EqOrShorter (column n) (column' n))

include hcolumn

theorem columnsSpelt_shorter (columns : List Column) :
    List.Forall₂ EqOrShorter (columns.map (columnSpelt column))
      (columns.map (columnSpelt column')) := by
  rw [List.forall₂_map_left_iff, List.forall₂_map_right_iff, List.forall₂_same]
  exact fun c _ => (hcolumn c.name).append (.refl _)

theorem columnsSpelt_eq_iff {columns : List Column} :
    columns.map (columnSpelt column) = columns.map (columnSpelt column') ↔
      ∀ c ∈ columns, column c.name = column' c.name := by
  rw [List.map_inj_left]
  refine forall₂_congr fun c _ => ?_
  rw [columnSpelt, columnSpelt, (hcolumn c.name).append_eq_iff (.refl _), eq_self, and_true]

include htable

theorem tableSpelt_shorter (t : Table) :
    EqOrShorter (tableSpelt table column t) (tableSpelt table' column' t) := by
  have hcolumns : EqOrShorter (Text.join ", " _) (Text.join ", " _) :=
    .join (columnsSpelt_shorter hcolumn t.columns)
  exact ((htable t.name).append (.append (.refl ['(']) hcolumns)).append (.refl _)

theorem tableSpelt_eq_iff {t : Table} :
    tableSpelt table column t = tableSpelt table' column' t ↔
      table t.name = table' t.name ∧ ∀ c ∈ t.columns, column c.name = column' c.name := by
  have hjoined := columnsSpelt_shorter hcolumn t.columns
  have hcolumns : EqOrShorter ('(' :: Text.join ", " (t.columns.map (columnSpelt column)))
      ('(' :: Text.join ", " (t.columns.map (columnSpelt column'))) :=
    .append (.refl ['(']) (.join hjoined)
  rw [tableSpelt, tableSpelt, EqOrShorter.append_eq_iff ((htable t.name).append hcolumns) (.refl _),
    (htable t.name).append_eq_iff hcolumns, List.cons_inj_right, EqOrShorter.join_eq_iff hjoined,
    columnsSpelt_eq_iff hcolumn, eq_self, and_true]

/-- Two descriptions agree exactly if each name that they show is spelt alike. -/
theorem spelt_eq_iff {tables : List Table} {most : Int} :
    spelt table column tables most = spelt table' column' tables most ↔
      ∀ t ∈ shown tables most, table t.name = table' t.name ∧
        ∀ c ∈ t.columns, column c.name = column' c.name := by
  have hlines (before after : List Text) : List.Forall₂ EqOrShorter
      (before ++ (shown tables most).map (tableSpelt table column) ++ after)
      (before ++ (shown tables most).map (tableSpelt table' column') ++ after) := by
    have hsame (lines : List Text) : List.Forall₂ EqOrShorter lines lines :=
      List.forall₂_same.2 fun _ _ => .refl _
    refine List.rel_append (List.rel_append (hsame before) ?_) (hsame after)
    rw [List.forall₂_map_left_iff, List.forall₂_map_right_iff, List.forall₂_same]
    exact fun t _ => tableSpelt_shorter htable hcolumn t
  unfold spelt
  simp only [List.append_assoc] at hlines ⊢
  rw [EqOrShorter.join_eq_iff (hlines _ _), List.append_cancel_left_eq,
    List.append_cancel_right_eq, List.map_inj_left]
  exact forall₂_congr fun t _ => tableSpelt_eq_iff htable hcolumn

end Shorter

end Prompt

/-! ## How names are spelt -/

theorem renderName_eq_self_iff {n : Text} : renderName n false = n ↔ needsQuotes n = false := by
  unfold renderName
  rw [Bool.false_or]
  cases needsQuotes n with
  | true => exact iff_of_false (ne_inQuotes n).symm Bool.noConfusion
  | false => exact iff_of_true rfl rfl

theorem shorter_renderName (n : Text) : EqOrShorter n (renderName n false) := by
  unfold renderName
  split
  · right
    rw [inQuotes, List.length_append, List.length_cons]
    omega
  · exact .refl n

namespace Prompt

/-- A name that has to be quoted for its first character alone: a digit, before characters that a
database leaves as they are. -/
def IsDigitLed (n : Text) : Prop := n.all isPlainNameChar = true ∧ n.head?.any Char.isDigit = true

theorem showsQuotes_eq (n : Text) : showsQuotes n = !n.all isPlainNameChar := by
  rw [List.not_all_eq_any_not]
  rfl

theorem columnName_of_isDigitLed {n : Text} (h : IsDigitLed n) : columnName n = n := by
  rw [columnName, showsQuotes_eq, h.1, Bool.not_true, if_neg Bool.false_ne_true]

theorem columnName_of_not_isDigitLed {n : Text} (h : ¬ IsDigitLed n) :
    columnName n = renderName n false := by
  have hquotes : needsQuotes n = showsQuotes n := by
    rw [needsQuotes, showsQuotes_eq]
    cases hplain : n.all isPlainNameChar with
    | true =>
      have hdigit : n.head?.any Char.isDigit = false := Bool.eq_false_iff.2 fun hd => h ⟨hplain, hd⟩
      rw [hdigit, Bool.or_false]
    | false => rfl
  rw [columnName, renderName, Bool.false_or, hquotes]
  rfl

theorem needsQuotes_of_isDigitLed {n : Text} (h : IsDigitLed n) : needsQuotes n = true := by
  rw [needsQuotes, h.2, Bool.or_true]

theorem columnName_shorter (n : Text) : EqOrShorter (columnName n) (renderName n false) := by
  by_cases h : IsDigitLed n
  · rw [columnName_of_isDigitLed h]
    exact shorter_renderName n
  · exact .inl (columnName_of_not_isDigitLed h)

theorem columnName_eq_renderName_iff {n : Text} :
    columnName n = renderName n false ↔ ¬ IsDigitLed n := by
  refine ⟨fun heq h => ?_, columnName_of_not_isDigitLed⟩
  rw [columnName_of_isDigitLed h, eq_comm, renderName_eq_self_iff,
    needsQuotes_of_isDigitLed h] at heq
  cases heq

end Prompt

/-! ## What a shown name is read as -/

/-- A name that is shown without quotes is read as itself exactly if it is a bare name that a
database leaves as it is. -/
theorem readsBack_self_iff {n : Text} : ReadsBack n n ↔ IsBareName n ∧ lower n = n := by
  constructor
  · rintro ⟨i, hi, hread⟩
    have hread := hread [] rfl
    rw [List.append_nil] at hread
    cases n with
    | nil => cases hread
    | cons c w =>
      rw [Identifier.read?] at hread
      split at hread
      · -- between quotes it holds less than the whole name
        simp only at hread
        split at hread
        · cases hread
        · split at hread
          · cases hread
          · obtain ⟨rfl, -⟩ := Prod.mk.inj (Option.some.inj hread)
            have hlength := congrArg List.length hi
            have hle := (List.takeWhile_prefix (l := w) fun d => d != '"').length_le
            simp only [Identifier.effective, if_true, List.length_cons] at hlength
            omega
      · split at hread
        · rename_i hstart
          obtain ⟨rfl, hrest⟩ := Prod.mk.inj (Option.some.inj hread)
          have hparts := List.dropWhile_eq_nil_iff.1 hrest
          have hall : w.takeWhile isNamePart = w := List.takeWhile_eq_self_iff.2 hparts
          rw [hall] at hi
          exact ⟨⟨hstart, List.forall_mem_cons.2 ⟨isNamePart_of_isNameStart hstart, hparts⟩⟩, hi⟩
        · cases hread
  · rintro ⟨hbare, hlower⟩
    exact ⟨⟨n, false⟩, hlower, fun next hnext => hbare.read? hnext⟩

theorem isNameStart_eq_false_of_isDigit {c : Char} (h : c.isDigit = true) :
    isNameStart c = false := by
  have := forall_ascii (p := fun c => !c.isDigit || !isNameStart c) (by decide)
    (ascii_of_isDigit h)
  simpa [h] using this

namespace Prompt

theorem not_readsBack_of_isDigitLed {n : Text} (h : IsDigitLed n) : ¬ ReadsBack n n := by
  rw [readsBack_self_iff]
  rintro ⟨hbare, -⟩
  cases n with
  | nil => cases hbare.start
  | cons c w =>
    have hstart : isNameStart c = true := hbare.start
    rw [isNameStart_eq_false_of_isDigit h.2] at hstart
    cases hstart

/-- A column is read back from what is shown of it exactly if quotes are not left out. -/
theorem readsBack_columnName_iff {n : Text} (hne : n ≠ []) (hquote : '"' ∉ n) :
    ReadsBack n (columnName n) ↔ ¬ IsDigitLed n := by
  constructor
  · intro h hdigit
    rw [columnName_of_isDigitLed hdigit] at h
    exact not_readsBack_of_isDigitLed hdigit h
  · intro h
    rw [columnName_of_not_isDigitLed h]
    exact readsBack_renderName hne hquote

/-- The description with every name written as in SQL. -/
def written (tables : List Table) (most : Int) : Text :=
  spelt (renderName · false) (renderName · false) tables most

end Prompt

/-! ## The description as SQL writes it -/

/-- The description shows every name as SQL writes it exactly if no table that it shows needs
quotes and no column is a digit before plain characters. A table is read back as itself if it is a
bare name of small letters, and a column if it is not in that case. -/
theorem describeSchema_eq_written_iff (tables : List Table) (most : Int) :
    (describeSchema tables most = Prompt.written tables most ↔
        ∀ t ∈ Prompt.shown tables most, needsQuotes t.name = false ∧
          ∀ c ∈ t.columns, ¬ Prompt.IsDigitLed c.name) ∧
      ∀ t ∈ Prompt.shown tables most,
        (ReadsBack t.name t.name ↔ IsBareName t.name ∧ lower t.name = t.name) ∧
          ∀ c ∈ t.columns, c.name ≠ [] → '"' ∉ c.name →
            (ReadsBack c.name (Prompt.columnName c.name) ↔ ¬ Prompt.IsDigitLed c.name) := by
  constructor
  · rw [Prompt.describeSchema_eq_spelt, Prompt.written]
    refine (Prompt.spelt_eq_iff shorter_renderName Prompt.columnName_shorter).trans ?_
    refine forall₂_congr fun t _ => and_congr ?_ (forall₂_congr fun c _ => ?_)
    · rw [eq_comm, renderName_eq_self_iff]
    · exact Prompt.columnName_eq_renderName_iff
  · intro t _
    exact ⟨readsBack_self_iff, fun c _ hne hquote => Prompt.readsBack_columnName_iff hne hquote⟩

/-- A table with a capital letter and a column that begins with a digit are shown without quotes.
Neither is read back as what it names, and with the quotes that SQL writes both would be. -/
theorem bare_names_described :
    let t : Table := { name := "Orders", columns := [{ name := "1st" }] }
    describeSchema [t] 20 = Prompt.heading ++ "\nOrders(1st:text)\n\n" ++ Prompt.advice ∧
      Prompt.written [t] 20 =
        Prompt.heading ++ "\n\"Orders\"(\"1st\":text)\n\n" ++ Prompt.advice ∧
      describeSchema [t] 20 ≠ Prompt.written [t] 20 ∧
      ¬ ReadsBack t.name "Orders" ∧ ReadsBack t.name "\"Orders\"" ∧
      ¬ ReadsBack "1st" "1st" ∧ ReadsBack "1st" "\"1st\"" := by
  intro t
  have hquoted (n : Text) (hne : n ≠ []) (hquote : '"' ∉ n) : ReadsBack n (inQuotes n) :=
    show ReadsBack n (renderName n true) from readsBack_renderName hne hquote
  refine ⟨by decide +kernel, by decide +kernel, by decide +kernel, ?_, ?_, ?_, ?_⟩
  · exact fun h => absurd (readsBack_self_iff.1 h).2 (by decide +kernel)
  · exact hquoted "Orders" (by decide) (by decide)
  · exact Prompt.not_readsBack_of_isDigitLed ⟨by decide, by decide⟩
  · exact hquoted "1st" (by decide) (by decide)

end QueryGate
