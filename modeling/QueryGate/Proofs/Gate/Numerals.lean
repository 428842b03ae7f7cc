import Mathlib.Data.List.Forall2
import QueryGate.Gate.Verdict
import QueryGate.Proofs.Sql.Subqueries
import QueryGate.Proofs.Text.Numeral

/-!
# Verdicts and faults

The gate rejects by a value, but it also converts numerals on its way: each `LIMIT` up to the first
that is above the cap, and the group items that look like positions. And it walks through what the
parser makes of the query. It comes to a verdict exactly if those numerals can be converted and that
walk comes to its end, where it gets so far (`checkQuery_isOk_iff`). A limit fails only by its
length. A position may also be made of digits without a value.
-/

namespace QueryGate

/-! ## Steps in turn -/

section Steps

variable {ε α β : Type} {l : List α}

theorem exists_mapM_eq_ok_iff {f : α → Except ε β} :
    (∃ bs, l.mapM f = .ok bs) ↔ ∀ a ∈ l, ∃ b, f a = .ok b := by
  induction l with
  | nil => exact ⟨fun _ a ha => (nomatch ha), fun _ => ⟨[], rfl⟩⟩
  | cons a l ih =>
    rw [List.mapM_cons, exists_bind_eq_ok_iff, List.forall_mem_cons, ← ih]
    constructor
    · rintro ⟨b, hb, hrest⟩
      obtain ⟨bs, hbs, -⟩ := exists_bind_eq_ok_iff.1 hrest
      exact ⟨⟨b, hb⟩, bs, hbs⟩
    · rintro ⟨⟨b, hb⟩, bs, hbs⟩
      exact ⟨b, hb, exists_bind_eq_ok_iff.2 ⟨bs, hbs, _, rfl⟩⟩

/-- A traversal yields what its function yields for each element. -/
theorem mapM_eq_ok_iff {f : α → Except ε β} {bs : List β} :
    l.mapM f = .ok bs ↔ List.Forall₂ (fun a b => f a = .ok b) l bs := by
  induction l generalizing bs with
  | nil => simp [pure, Except.pure]
  | cons a l ih =>
    rw [List.mapM_cons, bind_eq_ok_iff, List.forall₂_cons_left_iff]
    constructor
    · rintro ⟨b, hb, hrest⟩
      obtain ⟨bs', hbs, heq⟩ := bind_eq_ok_iff.1 hrest
      exact ⟨b, bs', hb, ih.1 hbs, (Except.ok.inj heq).symm⟩
    · rintro ⟨b, bs', hb, hbs, rfl⟩
      exact ⟨b, hb, bind_eq_ok_iff.2 ⟨bs', ih.2 hbs, rfl⟩⟩

theorem exists_foldlM_eq_ok_iff {f : β → α → Except ε β} {p : α → Prop}
    (hf : ∀ b a, (∃ b', f b a = .ok b') ↔ p a) (b : β) :
    (∃ b', l.foldlM f b = .ok b') ↔ ∀ a ∈ l, p a := by
  induction l generalizing b with
  | nil => exact ⟨fun _ a ha => (nomatch ha), fun _ => ⟨b, rfl⟩⟩
  | cons a l ih =>
    rw [List.foldlM_cons, exists_bind_eq_ok_iff, List.forall_mem_cons, ← hf b a]
    constructor
    · rintro ⟨b', hb', hrest⟩
      exact ⟨⟨b', hb'⟩, (ih b').1 hrest⟩
    · rintro ⟨⟨b', hb'⟩, hrest⟩
      exact ⟨b', hb', (ih b').2 hrest⟩

end Steps

theorem underscore_not_mem {t : Text} (ht : ∀ c ∈ t, isDigitLike c = true) : '_' ∉ t :=
  fun h => absurd (ht _ h) (by decide)

/-! ## Limits -/

namespace Structure

/-- The digits of every limit in a query, from left to right. -/
def limits (sql : Text) : List Text := (hits limitNumber (maskLiterals sql)).map (·.value)

/-- Digits that stand for a number above the cap. -/
def IsAbove (cap : RowCap) (digits : Text) : Prop :=
  ∃ n, readDigits digits = .ok n ∧ cap.rows < n

theorem digits_of_mem_limits {sql digits : Text} (h : digits ∈ limits sql) :
    digits ≠ [] ∧ ∀ c ∈ digits, isDecimalDigit c = true := by
  obtain ⟨hit, hhit, rfl⟩ := List.mem_map.1 h
  obtain ⟨a, b, rest, -, -, hread⟩ := mem_hitsFrom hhit
  rw [limitNumber] at hread
  split at hread
  · split at hread
    · simp only at hread
      split at hread
      · cases hread
      · rename_i hne
        rw [← (Prod.mk.inj (Option.some.inj hread)).1]
        exact ⟨by simpa using hne, fun c hc => List.mem_takeWhile_imp hc⟩
    · cases hread
  · cases hread

variable {cap : RowCap}

/-- Limits are converted in turn, and not behind one that is above the cap. -/
theorem limitAbove?_isOk_iff {l : List Text} (hl : ∀ ds ∈ l, ds ≠ [] ∧ '_' ∉ ds) :
    (∃ o, limitAbove? cap l = .ok o) ↔
      ∀ before ds after, l = before ++ ds :: after → (∀ x ∈ before, ¬ IsAbove cap x) →
        Numeral.Readable ds := by
  induction l with
  | nil => exact ⟨fun _ before ds after h => by simp at h, fun _ => ⟨none, rfl⟩⟩
  | cons ds l ih =>
    obtain ⟨⟨hne, hu⟩, hl⟩ := List.forall_mem_cons.1 hl
    rw [limitAbove?, exists_bind_eq_ok_iff]
    constructor
    · rintro ⟨n, hn, hrest⟩ before x after hsplit hbefore
      cases before with
      | nil =>
        obtain ⟨rfl, -⟩ := List.cons.inj hsplit
        exact (readDigits_isOk_iff hne hu).1 ⟨n, hn⟩
      | cons y before =>
        obtain ⟨rfl, htail⟩ := List.cons.inj hsplit
        obtain ⟨hlow, hbefore⟩ := List.forall_mem_cons.1 hbefore
        rw [if_neg fun h => hlow ⟨n, hn, h⟩] at hrest
        exact (ih hl).1 hrest before x after htail hbefore
    · intro h
      obtain ⟨n, hn⟩ := (readDigits_isOk_iff hne hu).2 (h [] ds l rfl fun _ hx => nomatch hx)
      refine ⟨n, hn, ?_⟩
      by_cases hlt : cap.rows < n
      · rw [if_pos hlt]
        exact ⟨some n, rfl⟩
      · rw [if_neg hlt]
        refine (ih hl).2 fun before x after hsplit hbefore => ?_
        refine h (ds :: before) x after (by rw [hsplit]; rfl) ?_
        refine List.forall_mem_cons.2 ⟨?_, hbefore⟩
        rintro ⟨m, hm, hcap⟩
        obtain rfl := Except.ok.inj (hn.symm.trans hm)
        exact hlt hcap

theorem limitAbove?_eq_none {l : List Text} (h : limitAbove? cap l = .ok none) :
    ∀ ds ∈ l, ¬ IsAbove cap ds := by
  induction l with
  | nil => exact fun ds hds => nomatch hds
  | cons ds l ih =>
    obtain ⟨n, hn, h⟩ := bind_eq_ok_iff.1 h
    split at h
    · cases h
    rename_i hlow
    refine List.forall_mem_cons.2 ⟨?_, ih h⟩
    rintro ⟨m, hm, hcap⟩
    obtain rfl := Except.ok.inj (hn.symm.trans hm)
    exact hlow hcap

theorem limitAbove?_eq_some {l : List Text} {n : Nat} (h : limitAbove? cap l = .ok (some n)) :
    ∃ ds ∈ l, IsAbove cap ds := by
  induction l with
  | nil => cases h
  | cons ds l ih =>
    obtain ⟨m, hm, h⟩ := bind_eq_ok_iff.1 h
    split at h
    · rename_i hcap
      exact ⟨ds, List.mem_cons_self, m, hm, hcap⟩
    · obtain ⟨x, hx, habove⟩ := ih h
      exact ⟨x, List.mem_cons_of_mem ds hx, habove⟩

end Structure

/-! ## Positions -/

namespace Grouping

/-- A group item that is taken for a position in the select list. -/
def IsPosition (item : Text) : Prop := item ≠ [] ∧ ∀ c ∈ item, isDigitLike c = true

/-- The group items that belong to a select list. -/
def itemsOf (sql masked : Text) (list : Span) : List Text :=
  match groupSpan? masked list with
  | none => []
  | some s => (topLevelItems masked s.start s.stop).map fun i => Text.slice sql i.start i.stop

/-- The group items of a query. -/
def items (sql : Text) : List Text :=
  (selectLists (maskLiterals sql)).flatMap (itemsOf sql (maskLiterals sql))

theorem add_isOk_iff (g : Groups) (item : Text) :
    (∃ g', g.add item = .ok g') ↔ (IsPosition item → Numeral.Readable item) := by
  unfold Groups.add
  split
  · rename_i h
    obtain ⟨hne, hd⟩ : item ≠ [] ∧ ∀ c ∈ item, isDigitLike c = true := by simpa using h
    rw [← readDigits_isOk_iff hne (underscore_not_mem hd)]
    constructor
    · rintro ⟨g', hg⟩ -
      cases hn : readDigits item with
      | error f =>
        rw [hn] at hg
        cases hg
      | ok n => exact ⟨n, rfl⟩
    · intro hread
      obtain ⟨n, hn⟩ := hread ⟨hne, hd⟩
      rw [hn]
      exact ⟨_, rfl⟩
  · rename_i h
    have hno : ¬ IsPosition item := fun hpos => h (by simpa [IsPosition] using hpos)
    refine ⟨fun _ hpos => absurd hpos hno, fun _ => ?_⟩
    split <;> exact ⟨_, rfl⟩

theorem uncoveredIn_isOk_iff (sql masked : Text) (list : Span) :
    (∃ cs, uncoveredIn sql masked list = .ok cs) ↔
      ∀ item ∈ itemsOf sql masked list, IsPosition item → Numeral.Readable item := by
  unfold uncoveredIn itemsOf
  cases groupSpan? masked list with
  | none => exact ⟨fun _ item h => (nomatch h), fun _ => ⟨[], rfl⟩⟩
  | some s =>
    rw [← exists_foldlM_eq_ok_iff add_isOk_iff ⟨[], []⟩]
    simp only [exists_bind_eq_ok_iff]
    exact ⟨fun ⟨g, hg, _⟩ => ⟨g, hg⟩, fun ⟨g, hg⟩ => ⟨g, hg, _, rfl⟩⟩

end Grouping

theorem ungroupedColumns_isOk_iff (sql : Text) :
    (∃ cs, ungroupedColumns sql (maskLiterals sql) = .ok cs) ↔
      ∀ item ∈ Grouping.items sql, Grouping.IsPosition item → Numeral.Readable item := by
  have hlists : (∃ cs, (selectLists (maskLiterals sql)).mapM
      (Grouping.uncoveredIn sql (maskLiterals sql)) = .ok cs) ↔
      ∀ item ∈ Grouping.items sql, Grouping.IsPosition item → Numeral.Readable item := by
    simp only [exists_mapM_eq_ok_iff, Grouping.uncoveredIn_isOk_iff, Grouping.items,
      List.mem_flatMap]
    exact ⟨fun h item ⟨list, hl, hi⟩ => h list hl item hi, fun h l hl i hi => h i ⟨l, hl, hi⟩⟩
  rw [← hlists, ungroupedColumns]
  simp only [exists_bind_eq_ok_iff]
  exact ⟨fun ⟨cs, hcs, _⟩ => ⟨cs, hcs⟩, fun ⟨cs, hcs⟩ => ⟨cs, hcs, _, rfl⟩⟩

/-! ## The verdict -/

theorem Structure.forbiddenInSubquery?_eq_none_iff {walk : Walk} :
    forbiddenInSubquery? walk = .ok none ↔
      (∀ s ∈ walk.found, Wording.forbiddenWord? (maskLiterals s) = none) ∧ walk.fault? = none := by
  unfold forbiddenInSubquery?
  rw [← List.findSome?_eq_none_iff]
  cases walk.found.findSome? fun s => Wording.forbiddenWord? (maskLiterals s) with
  | some word => exact ⟨fun h => (nomatch h), fun h => (nomatch h.1)⟩
  | none => cases walk.fault? <;> simp

theorem Structure.forbiddenInSubquery?_isOk_iff {walk : Walk} :
    (∃ o, forbiddenInSubquery? walk = .ok o) ↔
      ((∀ s ∈ walk.found, Wording.forbiddenWord? (maskLiterals s) = none) →
        walk.fault? = none) := by
  unfold forbiddenInSubquery?
  rw [← List.findSome?_eq_none_iff]
  cases walk.found.findSome? fun s => Wording.forbiddenWord? (maskLiterals s) with
  | some word => exact ⟨fun _ h => (nomatch h), fun _ => ⟨_, rfl⟩⟩
  | none => cases walk.fault? <;> simp

/-- What the second tier asks for is to be had: the numerals that it converts can be converted, and
where no limit is above the cap and no forbidden word is in the subqueries that are found, none is
missed. Only then are positions looked at. -/
structure Checkable (parser : Parser) (cap : RowCap) (sql : Text) : Prop where
  limits : ∀ before ds after, Structure.limits sql = before ++ ds :: after →
    (∀ x ∈ before, ¬ Structure.IsAbove cap x) → Numeral.Readable ds
  parsed : (∀ ds ∈ Structure.limits sql, ¬ Structure.IsAbove cap ds) →
    (∀ s ∈ (parser.subqueries sql).found, Wording.forbiddenWord? (maskLiterals s) = none) →
    parser.Reads sql
  positions : (∀ ds ∈ Structure.limits sql, ¬ Structure.IsAbove cap ds) →
    (∀ s ∈ (parser.subqueries sql).found, Wording.forbiddenWord? (maskLiterals s) = none) →
    ∀ item ∈ Grouping.items sql, Grouping.IsPosition item → Numeral.Readable item

theorem checkStructure_isOk_iff {parser : Parser} {cap : RowCap} {sql : Text} :
    (∃ o, checkStructure parser cap sql = .ok o) ↔ Checkable parser cap sql := by
  have hdigits : ∀ ds ∈ Structure.limits sql, ds ≠ [] ∧ '_' ∉ ds := by
    intro ds hds
    obtain ⟨hne, hd⟩ := Structure.digits_of_mem_limits hds
    refine ⟨hne, underscore_not_mem fun c hc => ?_⟩
    rw [isDigitLike, hd c hc, Bool.true_or]
  have hrules : (∃ o, checkStructure parser cap sql = .ok o) ↔
      ∃ v, Structure.violation? parser cap sql = .ok v := by
    rw [checkStructure, exists_bind_eq_ok_iff]
    refine ⟨fun ⟨v, hv, _⟩ => ⟨v, hv⟩, fun ⟨v, hv⟩ => ⟨v, hv, ?_⟩⟩
    cases v <;> exact ⟨_, rfl⟩
  rw [hrules, Structure.violation?, exists_bind_eq_ok_iff]
  constructor
  · rintro ⟨o, ho, hrest⟩
    have hsubqueries (hlow : ∀ ds ∈ Structure.limits sql, ¬ Structure.IsAbove cap ds)
        (hwords : ∀ s ∈ (parser.subqueries sql).found,
          Wording.forbiddenWord? (maskLiterals s) = none) :
        parser.Reads sql ∧ ∃ cs, ungroupedColumns sql (maskLiterals sql) = .ok cs := by
      cases o with
      | some n =>
        obtain ⟨ds, hds, habove⟩ := Structure.limitAbove?_eq_some ho
        exact absurd habove (hlow ds hds)
      | none =>
        simp only [exists_bind_eq_ok_iff] at hrest
        obtain ⟨w, hw, hrest⟩ := hrest
        have hreads := Structure.forbiddenInSubquery?_isOk_iff.1 ⟨w, hw⟩ hwords
        rw [Structure.forbiddenInSubquery?_eq_none_iff.2 ⟨hwords, hreads⟩] at hw
        obtain rfl := Except.ok.inj hw
        simp only [exists_bind_eq_ok_iff] at hrest
        obtain ⟨cs, hcs, -⟩ := hrest
        exact ⟨hreads, cs, hcs⟩
    exact ⟨(Structure.limitAbove?_isOk_iff hdigits).1 ⟨o, ho⟩,
      fun hlow hwords => (hsubqueries hlow hwords).1,
      fun hlow hwords => (ungroupedColumns_isOk_iff sql).1 (hsubqueries hlow hwords).2⟩
  · intro h
    obtain ⟨o, ho⟩ := (Structure.limitAbove?_isOk_iff hdigits).2 h.limits
    refine ⟨o, ho, ?_⟩
    cases o with
    | some n => exact ⟨_, rfl⟩
    | none =>
      have hlow := Structure.limitAbove?_eq_none ho
      obtain ⟨w, hw⟩ := Structure.forbiddenInSubquery?_isOk_iff.2 (h.parsed hlow)
      simp only [exists_bind_eq_ok_iff]
      refine ⟨w, hw, ?_⟩
      cases w with
      | some word => exact ⟨_, rfl⟩
      | none =>
        have hwords := (Structure.forbiddenInSubquery?_eq_none_iff.1 hw).1
        obtain ⟨cs, hcs⟩ := (ungroupedColumns_isOk_iff sql).2 (h.positions hlow hwords)
        simp only [exists_bind_eq_ok_iff]
        refine ⟨cs, hcs, ?_⟩
        cases cs <;> exact ⟨_, rfl⟩

/-- The gate comes to a verdict on a text exactly if the first tier rejects it or the second has
what it asks for. -/
theorem checkQuery_isOk_iff {parser : Parser} {cap : RowCap} {tables : List Table} {sql : Text} :
    (∃ o, checkQuery parser cap tables sql = .ok o) ↔
      ((checkWording sql).isValid = true → Checkable parser cap sql) := by
  rw [checkQuery, ← checkStructure_isOk_iff]
  by_cases hw : (checkWording sql).isValid = true
  · simp only [hw, Bool.not_true, Bool.false_eq_true, ite_false, exists_bind_eq_ok_iff,
      forall_const]
    refine ⟨fun ⟨o, ho, _⟩ => ⟨o, ho⟩, fun ⟨o, ho⟩ => ⟨o, ho, ?_⟩⟩
    split <;> exact ⟨_, rfl⟩
  · simp [hw]

end QueryGate
