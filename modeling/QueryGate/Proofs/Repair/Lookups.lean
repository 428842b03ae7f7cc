import QueryGate.Proofs.Matching.Unlike
import QueryGate.Proofs.Repair.Renames
import QueryGate.Proofs.Text.SmallLetters

/-!
# Names that are looked up

Each pass of the repair looks up some names, each in a list of known ones, and replaces those that
the lookup corrects (`repair_eq_passes`). A name that denotes a known one need not be what the
lookup finds: it is found by its spelling, in the letters it is written in, while the database folds
it. A name that nothing keeps from being found (`Lookup.Undisputed`) is left as it is, and so is one
that is like no known name; every other one is corrected (`Lookup.correction?_eq_none_iff`).
-/

namespace QueryGate

/-! ## Spellings of one name -/

/-- Two names that differ in case and in what separates their words. -/
def SpellsSame (candidate name : Text) : Prop :=
  lower name = lower candidate ∨
    normalForm candidate ≠ [] ∧ normalForm name = normalForm candidate

instance (candidate name : Text) : Decidable (SpellsSame candidate name) :=
  inferInstanceAs (Decidable (_ ∨ _))

/-- A name denotes one of its own spellings. -/
theorem SpellsSame.lower (name : Text) : SpellsSame name (lower name) := .inl (lower_lower name)

/-- A name that is not known as it is spelled is taken for the first other spelling of it. -/
theorem identical?_of_first {candidate n : Text} {earlier later : List Text}
    (hnot : candidate ∉ earlier ++ n :: later) (hearlier : ∀ m ∈ earlier, ¬ SpellsSame candidate m)
    (hn : SpellsSame candidate n) :
    Matching.identical? candidate (earlier ++ n :: later) =
      some ⟨n, .exact, Score.exact, none⟩ := by
  have hcontains : (earlier ++ n :: later).contains candidate = false := by
    simpa using hnot
  have hfind : (earlier ++ n :: later).find? (fun m => lower m == lower candidate ||
      (!(normalForm candidate).isEmpty && normalForm m == normalForm candidate)) = some n := by
    have hsame (m : Text) : (lower m == lower candidate ||
        (!(normalForm candidate).isEmpty && normalForm m == normalForm candidate)) =
          decide (SpellsSame candidate m) := by
      rw [Bool.eq_iff_iff, decide_eq_true_iff]
      simp [SpellsSame]
    simp only [hsame]
    exact List.find?_eq_some_iff_append.2 ⟨decide_eq_true hn, earlier, later, rfl,
      fun m hm => by simpa using hearlier m hm⟩
  unfold Matching.identical?
  simp only [hcontains, Bool.false_eq_true, if_false]
  rw [hfind, Option.map_some]

/-! ## Passes -/

/-- A name that is looked up: what it names, where it stands, and the names it may be taken for. -/
structure Lookup where
  what : Text
  identifier : Identifier
  span : Span
  known : List Text
deriving DecidableEq

def Lookup.correction? (context : Text) (l : Lookup) : Option Correction :=
  Repair.correction? l.what l.identifier l.span l.known context

/-- A text with the names that are looked up in it. -/
structure Pass where
  text : Text
  lookups : List Lookup
deriving DecidableEq

namespace Pass

def corrections (context : Text) (p : Pass) : List Correction :=
  p.lookups.filterMap (Lookup.correction? context)

def output (context : Text) (p : Pass) : Text := Repair.apply p.text (p.corrections context)

end Pass

namespace Lookup

/-- The tables that are referred to. -/
def tables (k : KnownNames) (refs : List TableRef) : List Lookup :=
  refs.map fun r => ⟨"Table", r.identifier, ⟨r.start, r.stop⟩, k.tables⟩

/-- The column of a qualified name. -/
def column (k : KnownNames) (q : QualifiedRef) (table : Text) : List Lookup :=
  if !q.column.quoted && isReserved q.column.name then []
  else [⟨"Column", q.column, q.columnSpan, k.columnsOf [table]⟩]

/-- The column of a qualified name, and its qualifier if that is bound to nothing. -/
def qualified (k : KnownNames) (context : Text) (bound : Repair.Bindings) (q : QualifiedRef) :
    List Lookup :=
  match Dictionary.find? (lower q.qualifier.name) bound with
  | some table => column k q table
  | none =>
    if isReserved q.qualifier.name then []
    else ⟨"Table", q.qualifier, q.qualifierSpan, k.tables⟩ ::
      match matchName q.qualifier.name k.tables context with
      | none => []
      | some m => column k q m.name

/-- The names in quotes that are neither tables nor aliases. -/
def quoted (k : KnownNames) (masked : Text) (bound : Repair.Bindings) (columns : List Text) :
    List Lookup :=
  (quotedNames masked).filterMap fun h =>
    if (Dictionary.find? (lower h.value) bound).isSome ||
        (declaredAliases masked).contains h.value ||
        k.tables.any (fun t => lower t == lower h.value) then none
    else some ⟨"Column", ⟨h.value, true⟩, ⟨h.start, h.stop⟩, columns⟩

/-- The bare names in select lists that the query does not declare. -/
def selected (sql : Text) (bound : Repair.Bindings) (columns : List Text) : List Lookup :=
  let literalMasked := maskLiterals sql
  let masked := maskQuoted literalMasked
  let columnNames := columns.map lower
  let outputs := (Repair.outputNames literalMasked masked).filter (!columnNames.contains ·)
  (distinct (selectedNames masked)).filterMap fun h =>
    if isReserved h.value || (Dictionary.find? (lower h.value) bound).isSome || h.value.length < 2
        || outputs.contains (lower h.value) then none
    else some ⟨"Column", ⟨h.value, false⟩, ⟨h.start, h.stop⟩, columns⟩

end Lookup

/-- Passes in turn, each over the text that the one before it left. -/
def passesFrom (context : Text) : Text → List (Text → List Lookup) → List Pass
  | _, [] => []
  | text, look :: looks =>
    let p : Pass := ⟨text, look text⟩
    p :: passesFrom context (p.output context) looks

/-- The passes of the repair. -/
def passes (k : KnownNames) (sql : Text) : List Pass :=
  if allBlank sql then []
  else
    let refs := tableRefs sql
    let bound := Repair.bindings k sql refs
    let columns := k.candidateColumns (distinct (refs.map (Repair.resolvedTable k sql)))
    passesFrom sql sql
      [fun _ => Lookup.tables k refs,
        fun text => (qualifiedRefs (maskLiterals text)).flatMap (Lookup.qualified k sql bound),
        fun text => Lookup.quoted k (maskLiterals text) bound columns,
        fun text => Lookup.selected text bound columns]

/-! ## The repair by its passes -/

section Corrections

variable {k : KnownNames} {context : Text} {bound : Repair.Bindings}

theorem filterMap_tables (refs : List TableRef) :
    (Lookup.tables k refs).filterMap (Lookup.correction? context) =
      Repair.tableCorrections k context refs := by
  rw [Lookup.tables, List.filterMap_map]
  rfl

theorem filterMap_column (q : QualifiedRef) (table : Text) :
    (Lookup.column k q table).filterMap (Lookup.correction? context) =
      (Repair.columnCorrection? k context q table).toList := by
  unfold Lookup.column Repair.columnCorrection?
  split
  · rfl
  · rw [List.filterMap_cons, List.filterMap_nil]
    unfold Lookup.correction?
    split <;> simp_all

/-- A qualifier that is taken for no table is not corrected. -/
theorem correction?_of_matchName_none {what : Text} {i : Identifier} {s : Span} {known : List Text}
    (h : matchName i.name known context = none) :
    Repair.correction? what i s known context = none := by
  rw [Repair.correction?, h]

theorem filterMap_qualified (q : QualifiedRef) :
    (Lookup.qualified k context bound q).filterMap (Lookup.correction? context) =
      Repair.qualifiedCorrections k context bound q := by
  unfold Lookup.qualified Repair.qualifiedCorrections
  cases Dictionary.find? (lower q.qualifier.name) bound with
  | some table => exact filterMap_column q table
  | none =>
    simp only
    split
    · rfl
    cases hmatch : matchName q.qualifier.name k.tables context with
    | none =>
      simp only [List.filterMap_cons, List.filterMap_nil, Lookup.correction?,
        correction?_of_matchName_none hmatch]
    | some m =>
      simp only [List.filterMap_cons, filterMap_column, Lookup.correction?]
      cases Repair.correction? "Table" q.qualifier q.qualifierSpan k.tables context <;> rfl

theorem filterMap_flatMap_qualified (qs : List QualifiedRef) :
    (qs.flatMap (Lookup.qualified k context bound)).filterMap (Lookup.correction? context) =
      qs.flatMap (Repair.qualifiedCorrections k context bound) := by
  rw [List.filterMap_flatMap]
  simp only [filterMap_qualified]

theorem filterMap_quoted (masked : Text) (columns : List Text) :
    (Lookup.quoted k masked bound columns).filterMap (Lookup.correction? context) =
      Repair.quotedCorrections k context masked bound columns := by
  unfold Lookup.quoted Repair.quotedCorrections
  rw [List.filterMap_filterMap]
  congr 1
  funext h
  simp only
  split <;> rfl

theorem filterMap_selected (text : Text) (columns : List Text) :
    (Lookup.selected text bound columns).filterMap (Lookup.correction? context) =
      Repair.selectCorrections context text bound columns := by
  unfold Lookup.selected Repair.selectCorrections
  simp only [List.filterMap_filterMap]
  congr 1
  funext h
  split <;> rfl

end Corrections

/-- The repair is its passes: what the last one leaves, with what all of them tell. -/
theorem repair_eq_passes (k : KnownNames) (sql : Text) :
    repair k sql =
      ⟨((passes k sql).getLast?.map (Pass.output sql)).getD sql,
        ((passes k sql).flatMap (Pass.corrections sql)).map (·.note)⟩ := by
  unfold repair passes
  split
  · rfl
  simp only [passesFrom, Pass.output, Pass.corrections, filterMap_tables,
    filterMap_flatMap_qualified, filterMap_quoted, filterMap_selected, List.getLast?_cons_cons,
    List.getLast?_singleton, Option.map_some, Option.getD_some, List.flatMap_cons,
    List.flatMap_nil, List.append_nil, List.append_assoc]

/-! ## What the passes look up -/

namespace Lookup

variable {names : Text → Prop} {k : KnownNames}

theorem known_of_column (hk : k.Within names) {q : QualifiedRef} {table : Text} {l : Lookup}
    (hl : l ∈ column k q table) : ∀ n ∈ l.known, names n := by
  unfold column at hl
  split at hl
  · cases hl
  · rw [List.mem_singleton.1 hl]
    exact hk.columnsOf [table]

theorem known_of_qualified (hk : k.Within names) {context : Text} {bound : Repair.Bindings}
    {q : QualifiedRef} {l : Lookup} (hl : l ∈ qualified k context bound q) :
    ∀ n ∈ l.known, names n := by
  unfold qualified at hl
  split at hl
  · exact known_of_column hk hl
  split at hl
  · cases hl
  rcases List.mem_cons.1 hl with rfl | hl
  · exact hk.tables
  split at hl
  · cases hl
  · exact known_of_column hk hl

theorem exists_look_of_passesFrom {context text : Text} {looks : List (Text → List Lookup)} {p : Pass}
    (hp : p ∈ passesFrom context text looks) : ∃ look ∈ looks, p.lookups = look p.text := by
  induction looks generalizing text with
  | nil => cases hp
  | cons look looks ih =>
    rcases List.mem_cons.1 hp with rfl | hp
    · exact ⟨look, List.mem_cons_self, rfl⟩
    · obtain ⟨look', hlook, heq⟩ := ih hp
      exact ⟨look', List.mem_cons_of_mem look hlook, heq⟩

/-- A pass looks names up among known ones only. -/
theorem known_of_passes (hk : k.Within names) {sql : Text} {p : Pass} (hp : p ∈ passes k sql)
    {l : Lookup} (hl : l ∈ p.lookups) : ∀ n ∈ l.known, names n := by
  have hcolumns := hk.candidateColumns (distinct ((tableRefs sql).map (Repair.resolvedTable k sql)))
  unfold passes at hp
  split at hp
  · cases hp
  obtain ⟨look, hlook, heq⟩ := exists_look_of_passesFrom hp
  rw [heq] at hl
  generalize k.candidateColumns _ = columns at hlook hcolumns
  simp only [List.mem_cons, List.not_mem_nil, or_false] at hlook
  rcases hlook with rfl | rfl | rfl | rfl
  · obtain ⟨r, -, rfl⟩ := List.mem_map.1 hl
    exact hk.tables
  · obtain ⟨q, -, hl⟩ := List.mem_flatMap.1 hl
    exact known_of_qualified hk hl
  · obtain ⟨h, -, hsome⟩ := List.mem_filterMap.1 hl
    split at hsome
    · cases hsome
    · obtain rfl := Option.some.inj hsome
      exact hcolumns
  · obtain ⟨h, -, hsome⟩ := List.mem_filterMap.1 hl
    split at hsome
    · cases hsome
    · obtain rfl := Option.some.inj hsome
      exact hcolumns

/-- What a lookup corrects it takes for a known name, and writes that. -/
theorem exists_match_of_correction? {context : Text} {l : Lookup} {c : Correction}
    (h : l.correction? context = some c) :
    ∃ m, matchName l.identifier.name l.known context = some m ∧
      c.edit.text = renderName m.name l.identifier.quoted := by
  unfold Lookup.correction? Repair.correction? at h
  split at h
  · cases h
  rename_i m hmatch
  split at h
  · cases h
  obtain rfl := Option.some.inj h
  exact ⟨m, hmatch, rfl⟩

end Lookup

/-! ## Existing names -/

namespace Lookup

/-- The known name that a name spelled like one is taken for: its own spelling, or the first known
name that spells the same. -/
def TakenFor (l : Lookup) (n : Text) : Prop :=
  n = l.identifier.name ∧ n ∈ l.known ∨
    l.identifier.name ∉ l.known ∧ SpellsSame l.identifier.name n ∧
      ∃ earlier later, l.known = earlier ++ n :: later ∧
        ∀ m ∈ earlier, ¬ SpellsSame l.identifier.name m

/-- Nothing keeps a name from being found as the database folds it: it is quoted, or written in
small letters, or it is not itself a known name in its capitals and no known name that spells the
same comes before the one it denotes. -/
def Undisputed (l : Lookup) : Prop :=
  l.identifier.quoted = true ∨ lower l.identifier.name = l.identifier.name ∨
    l.identifier.name ∉ l.known ∧
      ∃ earlier later, l.known = earlier ++ lower l.identifier.name :: later ∧
        ∀ n ∈ earlier, ¬ SpellsSame l.identifier.name n

variable {l : Lookup} {context : Text}

theorem TakenFor.matchName {n : Text} (h : l.TakenFor n) (hne : l.identifier.name ≠ []) :
    matchName l.identifier.name l.known context = some ⟨n, .exact, Score.exact, none⟩ := by
  refine matchName_of_identical? hne ?_
  rcases h with ⟨rfl, hmem⟩ | ⟨hnot, hsame, earlier, later, hknown, hearlier⟩
  · exact identical?_of_mem hmem
  · rw [hknown] at hnot ⊢
    exact identical?_of_first hnot hearlier hsame

/-- A name that denotes a known one is taken for a known one. -/
theorem exists_takenFor (hexists : l.identifier.effective ∈ l.known) : ∃ n, l.TakenFor n := by
  by_cases hown : l.identifier.name ∈ l.known
  · exact ⟨_, .inl ⟨rfl, hown⟩⟩
  have hsame : SpellsSame l.identifier.name l.identifier.effective := by
    rw [Identifier.effective]
    split
    · exact .inl rfl
    · exact .lower _
  obtain ⟨n, hfind⟩ := Option.isSome_iff_exists.1
    (@List.find?_isSome _ l.known (fun m => decide (SpellsSame l.identifier.name m)) |>.2
      ⟨_, hexists, decide_eq_true hsame⟩)
  obtain ⟨hn, earlier, later, hknown, hearlier⟩ := List.find?_eq_some_iff_append.1 hfind
  exact ⟨n, .inr ⟨hown, of_decide_eq_true hn, earlier, later, hknown,
    fun m hm => of_decide_eq_false (by simpa using hearlier m hm)⟩⟩

/-- A known name is taken for the name that it denotes exactly if nothing keeps it from being
found. -/
theorem takenFor_effective_iff (hexists : l.identifier.effective ∈ l.known) :
    l.TakenFor l.identifier.effective ↔ l.Undisputed := by
  unfold TakenFor Undisputed
  cases hquoted : l.identifier.quoted with
  | true =>
    rw [Identifier.effective, if_pos hquoted] at hexists ⊢
    exact iff_of_true (.inl ⟨rfl, hexists⟩) (.inl rfl)
  | false =>
    rw [Identifier.effective, hquoted, if_neg Bool.false_ne_true] at hexists ⊢
    simp only [hexists, and_true, Bool.false_eq_true, false_or, SpellsSame.lower, true_and]

theorem correction?_of_matched {n : Text} {m : NameMatch}
    (h : matchName l.identifier.name l.known context = some m) (hn : m.name = n) :
    (l.identifier.effective = n → l.correction? context = none) ∧
      (l.identifier.effective ≠ n → ∃ note, l.correction? context =
        some ⟨⟨l.span.start, l.span.stop, renderName n l.identifier.quoted⟩, note⟩) := by
  subst hn
  unfold Lookup.correction? Repair.correction?
  rw [h]
  constructor
  · intro heq
    exact if_pos heq
  · intro hne
    exact ⟨_, if_neg hne⟩

/-- A known name that nothing keeps from being found is not corrected. -/
theorem correction?_of_undisputed (hexists : l.identifier.effective ∈ l.known)
    (h : l.Undisputed) : l.correction? context = none := by
  by_cases hne : l.identifier.name = []
  · rw [Lookup.correction?, correction?_of_matchName_none]
    rw [hne]
    rfl
  · exact (correction?_of_matched (((takenFor_effective_iff hexists).2 h).matchName hne) rfl).1 rfl

/-- A known name that is taken for another one is replaced by it. -/
theorem exists_correction?_of_disputed (hexists : l.identifier.effective ∈ l.known)
    (h : ¬ l.Undisputed) : ∃ n note, l.TakenFor n ∧ n ≠ l.identifier.effective ∧
      l.correction? context =
        some ⟨⟨l.span.start, l.span.stop, renderName n false⟩, note⟩ := by
  obtain ⟨n, hn⟩ := exists_takenFor hexists
  have hother : l.identifier.effective ≠ n := by
    rintro rfl
    exact h ((takenFor_effective_iff hexists).1 hn)
  have hbare : l.identifier.quoted = false := Bool.eq_false_iff.2 fun hquoted => h (.inl hquoted)
  have hne : l.identifier.name ≠ [] := by
    intro hnil
    refine h (.inr (.inl ?_))
    rw [hnil]
    rfl
  obtain ⟨note, hsome⟩ := (correction?_of_matched (hn.matchName hne) rfl).2 hother
  rw [hbare] at hsome
  exact ⟨n, note, hn, hother.symm, hsome⟩

/-- The name denotes a known one, and nothing keeps it from being found. -/
structure Settled (l : Lookup) : Prop where
  known : l.identifier.effective ∈ l.known
  undisputed : l.Undisputed

theorem Settled.correction? (h : l.Settled) (context : Text) :
    l.correction? context = none := correction?_of_undisputed h.known h.undisputed

/-- The name is like no known one, so that it is taken for none. -/
def Strange (l : Lookup) (context : Text) : Prop :=
  l.identifier.name = [] ∨ ∀ n ∈ l.known, Matching.Unlike l.identifier.name (lower context) n

theorem strange_iff : l.Strange context ↔ matchName l.identifier.name l.known context = none :=
  matchName_eq_none_iff.symm

theorem Strange.correction? (h : l.Strange context) : l.correction? context = none :=
  correction?_of_matchName_none (strange_iff.1 h)

/-- A name is left exactly if it denotes a known one and nothing keeps it from being found, or is
like none. -/
theorem correction?_eq_none_iff : l.correction? context = none ↔ l.Settled ∨ l.Strange context := by
  constructor
  · intro h
    cases hmatch : matchName l.identifier.name l.known context with
    | none => exact .inr (strange_iff.2 hmatch)
    | some m =>
      left
      have heffective : l.identifier.effective = m.name := by
        by_contra hne
        obtain ⟨note, hsome⟩ := (correction?_of_matched hmatch rfl).2 hne
        rw [h] at hsome
        cases hsome
      have hknown : l.identifier.effective ∈ l.known := heffective ▸ mem_of_matchName hmatch
      refine ⟨hknown, ?_⟩
      by_contra hdisputed
      obtain ⟨n, note, -, -, hsome⟩ := exists_correction?_of_disputed hknown hdisputed
      rw [h] at hsome
      cases hsome
  · rintro (h | h)
    · exact h.correction? context
    · exact h.correction?

end Lookup

end QueryGate
