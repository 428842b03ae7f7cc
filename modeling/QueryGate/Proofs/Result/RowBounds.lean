import Mathlib.Data.List.Infix
import QueryGate.Proofs.Gate.Numerals
import QueryGate.Result.Execution

/-!
# The rows that are returned

Two cuts shorten a result: only so many rows are fetched, and rows are taken only while their size
stays within the budget, the first one in any case. Together they leave the longest beginning of
the statement's rows that keeps both bounds, and the answer says that it was cut exactly if rows are
missing (`run_longest_within`).

What carries the loop is `KeptOf`: the rows taken stay within the budget, and the row after them
would not.
-/

namespace QueryGate

/-! ## Sizes -/

/-- The size of some rows together. -/
def totalSize : List Row → Nat
  | [] => 0
  | row :: rows => rowSize row + totalSize rows

theorem totalSize_append (rows more : List Row) :
    totalSize (rows ++ more) = totalSize rows + totalSize more := by
  induction rows with
  | nil => exact (Nat.zero_add _).symm
  | cons row rows ih => rw [List.cons_append, totalSize, totalSize, ih, Nat.add_assoc]

/-- Rows that the settings let through: no more than the greatest number, and if there are several,
no larger together than the budget. -/
structure WithinBounds (s : Settings) (rows : List Row) : Prop where
  count : rows.length ≤ s.maxRows.value
  size : 1 < rows.length → totalSize rows ≤ s.maxResultBytes.value

instance (s : Settings) (rows : List Row) : Decidable (WithinBounds s rows) :=
  decidable_of_iff (rows.length ≤ s.maxRows.value ∧
      (1 < rows.length → totalSize rows ≤ s.maxResultBytes.value))
    ⟨fun h => ⟨h.1, h.2⟩, fun h => ⟨h.count, h.size⟩⟩

/-- The longest beginning of some rows that the settings let through. -/
structure LongestWithin (s : Settings) (all rows : List Row) : Prop where
  beginning : rows <+: all
  within : WithinBounds s rows
  longest : ∀ other, other <+: all → WithinBounds s other → other <+: rows

/-! ## Portable rows -/

/-- Rows of a driver and what they become. -/
abbrev PortableRows (names : List Text) : List (List Value) → List Row → Prop :=
  List.Forall₂ fun values row => portableRow names values = .ok row

theorem exists_portableRow {names : List Text} {values : List Value}
    (h : ∀ v ∈ values, ∃ c, Cell.ofValue v = .ok c) :
    ∃ row, portableRow names values = .ok row := by
  obtain ⟨cells, hcells⟩ := exists_mapM_eq_ok_iff.2 fun v hv => h v (List.mem_of_mem_take hv)
  exact ⟨_, bind_eq_ok_iff.2 ⟨cells, hcells, rfl⟩⟩

/-! ## Rows within the budget -/

/-- How rows are divided into those that are taken and those that are left, with `used` of the
budget used before and the first row taken in any case. -/
structure KeptOf (budget used : Nat) (first : Bool) (rows rest : List Row) : Prop where
  size : first.toNat < rows.length → used + totalSize rows ≤ budget
  full : ∀ row ∈ rest.head?,
    first.toNat ≤ rows.length ∧ budget < used + totalSize rows + rowSize row

namespace KeptOf
variable {budget used : Nat} {first : Bool} {row : Row} {rows rest : List Row}

/-- A row that does not come first and goes over the budget ends the rows. -/
theorem cut (h : budget < used + rowSize row) : KeptOf budget used false [] (row :: rest) where
  size := fun h0 => absurd h0 (Nat.lt_irrefl 0)
  full := fun _ hrow => Option.some.inj hrow ▸ ⟨Nat.le_refl 0, h⟩

/-- A row that is taken adds its size to what is used. -/
theorem cons (h : first = true ∨ used + rowSize row ≤ budget)
    (hk : KeptOf budget (used + rowSize row) false rows rest) :
    KeptOf budget used first (row :: rows) rest where
  size := by
    intro hlen
    rw [totalSize, ← Nat.add_assoc]
    cases rows with
    | nil =>
      rcases h with rfl | h
      · exact absurd hlen (Nat.lt_irrefl 1)
      · exact h
    | cons next rows => exact hk.size (Nat.succ_pos _)
  full := by
    intro next hnext
    obtain ⟨-, hover⟩ := hk.full next hnext
    refine ⟨Nat.le_trans (Bool.toNat_le first) (Nat.succ_pos _), ?_⟩
    rwa [totalSize, ← Nat.add_assoc]

/-- With nothing used before, no longer beginning keeps within the budget. -/
theorem prefix_of_size_le (hk : KeptOf budget 0 true rows rest) {other : List Row}
    (hother : other <+: rows ++ rest) (hsize : 1 < other.length → totalSize other ≤ budget) :
    other <+: rows := by
  rcases List.prefix_or_prefix_of_prefix hother (List.prefix_append rows rest) with h | ⟨more, rfl⟩
  · exact h
  cases more with
  | nil => rw [List.append_nil]
  | cons row more =>
    -- A longer beginning holds the row behind, which goes over the budget and is not the first.
    obtain ⟨after, rfl⟩ := (List.prefix_append_right_inj rows).1 hother
    obtain ⟨hlen, hover⟩ := hk.full row rfl
    have hlong : 1 < (rows ++ row :: more).length := by
      rw [List.length_append, List.length_cons]
      exact Nat.lt_of_lt_of_le (Nat.lt_succ_of_le hlen) (Nat.add_le_add_left (Nat.succ_pos _) _)
    have hle := hsize hlong
    rw [totalSize_append, totalSize] at hle
    omega

/-- The rows that are taken of the fetched ones are the longest beginning within the bounds. -/
theorem longestWithin {s : Settings} {all : List Row}
    (hk : KeptOf s.maxResultBytes.value 0 true rows rest)
    (hsplit : all.take s.maxRows.value = rows ++ rest) : LongestWithin s all rows where
  beginning := (hsplit ▸ List.prefix_append rows rest).trans (List.take_prefix _ _)
  within :=
    { count := (hsplit ▸ List.prefix_append rows rest).length_le.trans (List.length_take_le _ _)
      size := fun hseveral => Nat.zero_add (totalSize rows) ▸ hk.size hseveral }
  longest := fun _ hother hwithin =>
    hk.prefix_of_size_le (hsplit ▸ List.prefix_take_iff.2 ⟨hother, hwithin.count⟩) hwithin.size

end KeptOf

/-- What the loop over the rows leaves. -/
theorem rowsWithin_of_portable {names : List Text} {l : List (List Value)} {all : List Row}
    (h : PortableRows names l all) (budget used : Nat) (first : Bool) :
    ∃ rows rest, rowsWithin budget names used first l = .ok (rows, !rest.isEmpty) ∧
      all = rows ++ rest ∧ KeptOf budget used first rows rest := by
  induction h generalizing used first with
  | nil =>
    exact ⟨[], [], rfl, rfl, fun h => absurd h (Nat.not_lt_zero _), fun _ h => nomatch h⟩
  | @cons values row l all hrow hl ih =>
    rw [rowsWithin, hrow]
    by_cases hcut : (!first && decide (budget < used + rowSize row)) = true
    · obtain ⟨hfirst, hover⟩ : first = false ∧ budget < used + rowSize row := by simpa using hcut
      subst hfirst
      refine ⟨[], row :: all, ?_, rfl, .cut hover⟩
      exact if_pos hcut
    · obtain ⟨rows, rest, hrest, rfl, hk⟩ := ih (used + rowSize row) false
      refine ⟨row :: rows, rest, ?_, rfl, .cons ?_ hk⟩
      · refine (if_neg hcut).trans ?_
        rw [hrest]
        rfl
      · cases first with
        | true => exact .inl rfl
        | false => exact .inr (by simpa using hcut)

/-- Whatever the rows behind them are, the rows that are taken are the portable forms of the
first. -/
theorem portable_of_rowsWithin {budget : Nat} {names : List Text} {used : Nat} {first cut : Bool}
    {l : List (List Value)} {rows : List Row}
    (h : rowsWithin budget names used first l = .ok (rows, cut)) :
    PortableRows names (l.take rows.length) rows := by
  induction l generalizing used first cut rows with
  | nil =>
    obtain rfl : [] = rows := (Prod.mk.inj (Except.ok.inj h)).1
    exact .nil
  | cons values l ih =>
    rw [rowsWithin] at h
    obtain ⟨row, hrow, h⟩ := bind_eq_ok_iff.1 h
    by_cases hcut : (!first && decide (budget < used + rowSize row)) = true
    · obtain rfl : [] = rows := (Prod.mk.inj (Except.ok.inj ((if_pos hcut).symm.trans h))).1
      exact .nil
    · obtain ⟨⟨more, cut'⟩, hmore, h⟩ := bind_eq_ok_iff.1 ((if_neg hcut).symm.trans h)
      obtain rfl : row :: more = rows := (Prod.mk.inj (Except.ok.inj h)).1
      exact .cons hrow (ih hmore)

/-! ## Results -/

/-- A result whose rows are portable is divided into the rows that are returned and, of those that
were fetched, the ones that are not. -/
theorem boundedResult_of_portable (s : Settings) (dialect : Text) {r : RowSet} {all : List Row}
    (h : PortableRows r.names r.rows all) :
    ∃ rows rest columns,
      boundedResult s dialect r = .ok (.finished rows columns
        (!rest.isEmpty || decide (s.maxRows.value < r.rows.length))) ∧
      all.take s.maxRows.value = rows ++ rest ∧
      KeptOf s.maxResultBytes.value 0 true rows rest := by
  obtain ⟨rows, rest, hrows, hall, hk⟩ := rowsWithin_of_portable
    (List.forall₂_take s.maxRows.value h) s.maxResultBytes.value 0 true
  rw [boundedResult]
  by_cases hr : r.rows.isEmpty = true
  · obtain rfl : all = [] := List.forall₂_nil_left_iff.1 (List.isEmpty_iff.1 hr ▸ h)
    obtain ⟨rfl, rfl⟩ := List.append_eq_nil_iff.1 (hall.symm.trans List.take_nil)
    refine ⟨[], [], [], ?_, hall, hk⟩
    rw [if_pos hr, List.isEmpty_iff.1 hr]
    rfl
  · refine ⟨rows, rest, columnTypes (dialect == numberedDialect) r.names r.typeCodes
      (r.rows.take s.maxRows.value), ?_, hall, hk⟩
    simp only [if_neg hr, hrows]
    rfl

/-- Beyond the row that shows that there are too many nothing is looked at. -/
theorem boundedResult_fetched (s : Settings) (dialect : Text) (r : RowSet) :
    boundedResult s dialect { r with rows := r.rows.take (s.maxRows.value + 1) } =
      boundedResult s dialect r := by
  have hempty : (r.rows.take (s.maxRows.value + 1)).isEmpty = r.rows.isEmpty := by
    cases r.rows <;> rfl
  have htake : (r.rows.take (s.maxRows.value + 1)).take s.maxRows.value =
      r.rows.take s.maxRows.value := by
    rw [List.take_take, Nat.min_eq_left (Nat.le_succ _)]
  have hmore : s.maxRows.value < (r.rows.take (s.maxRows.value + 1)).length ↔
      s.maxRows.value < r.rows.length := by
    rw [List.length_take]
    omega
  simp only [boundedResult, hempty, htake, hmore]

/-- A statement whose cells are all portable gives the longest beginning of its rows within the
bounds, and says that it was cut exactly if rows are missing. -/
theorem run_longest_within (s : Settings) (dialect statement : Text) (r : RowSet)
    (h : ∀ values ∈ r.rows, ∀ v ∈ values, ∃ c, Cell.ofValue v = .ok c) :
    ∃ all e, r.rows.mapM (portableRow r.names) = .ok all ∧
      (run s dialect statement (.rows r)).1 = e ∧ e.isSuccess = true ∧
      LongestWithin s all e.rows ∧
      (e.isTruncated = true ↔ e.rows.length < r.rows.length) := by
  obtain ⟨all, hall⟩ := exists_mapM_eq_ok_iff.2 fun values hv => exists_portableRow (h values hv)
  have hportable : PortableRows r.names r.rows all := mapM_eq_ok_iff.1 hall
  obtain ⟨rows, rest, columns, hresult, hsplit, hk⟩ := boundedResult_of_portable s dialect hportable
  have hrun : (run s dialect statement (.rows r)).1 = .finished rows columns
      (!rest.isEmpty || decide (s.maxRows.value < r.rows.length)) := by
    simp only [run, hresult]
  have hlen : rows.length + rest.length = min s.maxRows.value r.rows.length := by
    rw [← List.length_append, ← hsplit, List.length_take, hportable.length_eq]
  -- Rows are missing because the budget ended them, or because they were never fetched.
  have hmissing : (!rest.isEmpty || decide (s.maxRows.value < r.rows.length)) = true ↔
      rows.length < r.rows.length := by
    rw [Bool.or_eq_true, Bool.not_eq_true', List.isEmpty_eq_false_iff_exists_mem,
      decide_eq_true_eq, ← List.length_pos_iff_exists_mem]
    omega
  exact ⟨all, _, hall, hrun, rfl, hk.longestWithin hsplit, hmissing⟩

/-- A first row above the budget is returned alone. -/
theorem run_longest_within_large_first_row :
    ∃ (s : Settings) (r : RowSet), s.maxRows.value = 2 ∧ s.maxResultBytes.value = 3 ∧
      r.rows = [[.text "long"], [.text "x"], [.null]] ∧
      (∀ values ∈ r.rows, ∀ v ∈ values, ∃ c, Cell.ofValue v = .ok c) ∧
      LongestWithin s [[("n", .text "long")], [("n", .text "x")], [("n", .null)]]
        [[("n", .text "long")]] ∧
      (run s "sqlite" "SELECT n FROM t" (.rows r)).1 =
        .finished [[("n", .text "long")]] [⟨"n", .text⟩] true := by
  let s : Settings := { Settings.standard with maxRows := .of 2, maxResultBytes := .of 3 }
  let r : RowSet := ⟨["n"], [], [[.text "long"], [.text "x"], [.null]]⟩
  have h : ∀ values ∈ r.rows, ∀ v ∈ values, ∃ c, Cell.ofValue v = .ok c := by
    simp [r, Cell.ofValue]
  obtain ⟨all, e, hall, rfl, -, hlong, -⟩ :=
    run_longest_within s "sqlite" "SELECT n FROM t" r h
  obtain rfl := Except.ok.inj hall
  exact ⟨s, r, rfl, rfl, rfl, h, hlong, rfl⟩

end QueryGate
