import QueryGate.Proofs.Bound.Rebounding
import QueryGate.Proofs.Gate.RenamedStructure
import QueryGate.Sql.Scanner

/-!
# The bounds of accepted queries

The second tier looks for limits in the whole text, and bounding for one clause at the end of the
body. A number that bounding reads in a `LIMIT` is among those that the second tier has read
(`mem_limits_of_limitClause`), so that behind it bounding lowers nothing but `LIMIT ALL` and
`FETCH` clauses (`lowered_of_accepted`).
-/

namespace QueryGate

/-- A query is masked as its body is, with blanks in front and behind it blanks and semicolons. -/
theorem exists_around_maskLiterals (sql : Text) :
    ∃ g z, maskLiterals sql = g ++ (maskLiterals (withoutSemicolon sql).1 ++ z) ∧
      allBlank g = true ∧ ∀ c ∈ z, isBlank c = true ∨ c = ';' := by
  obtain ⟨g, hg, hsql⟩ := exists_blanks_append_skipBlanks sql
  obtain ⟨z, hz, hzc⟩ := exists_around_withoutSemicolon sql
  have hzquote : '\'' ∉ z := fun hmem => (hzc _ hmem).elim (by decide) (by decide)
  refine ⟨g, z, ?_, hg, hzc⟩
  rw [← maskLiterals_append_of_not_mem _ hzquote, ← hz,
    ← maskLiterals_prepend (not_mem_of_allBlank (by decide) hg), ← hsql]

theorem Bound.number?_of_all {w : Text} {s : Span} (h : Spells "ALL" w) :
    Bound.number? ⟨w, s⟩ = .ok none := by
  cases w with
  | nil => cases h
  | cons c w =>
    have hc : foldLetter c = 'a' := (List.cons.inj h).1
    have hdigit : isDecimalDigit c = false :=
      isDecimalDigit_eq_false_of_isLower_foldLetter (by rw [hc]; rfl)
    simp [Bound.number?, hdigit]

theorem Bound.exists_of_number?_digits {ds : Text} {s : Span} {asked : Option Nat}
    (hd : IsDigitRun ds) (h : Bound.number? ⟨ds, s⟩ = .ok asked) :
    ∃ n, readDigits ds = .ok n ∧ asked = some n := by
  have hne : ds.isEmpty = false := List.isEmpty_eq_false_iff.2 hd.1
  rw [Bound.number?, hne, if_neg (by decide), if_pos (List.all_eq_true.2 hd.2)] at h
  cases hn : readDigits ds with
  | error e =>
    rw [hn] at h
    cases h
  | ok n =>
    rw [hn] at h
    exact ⟨n, rfl, (Except.ok.inj h).symm⟩

/-- Behind blanks a word begins wherever one begins without them. -/
theorem atWordStart_append_blanks {p g : Text} (hp : atWordStart p.reverse = true)
    (hg : allBlank g = true) : atWordStart (g ++ p).reverse = true := by
  rw [List.reverse_append]
  cases hrev : p.reverse with
  | cons c r => simpa [atWordStart, hrev] using hp
  | nil =>
    cases hg' : g.reverse with
    | nil => rfl
    | cons c r =>
      have hc : isBlank c = true :=
        List.all_eq_true.1 hg c (List.mem_reverse.1 (hg' ▸ List.mem_cons_self))
      simp [atWordStart, isWordChar_eq_false_of_isBlank hc]

theorem head?_any_isDecimalDigit_of_around {tail z : Text}
    (htail : tail = [] ∨ tail.head?.any isBlank = true)
    (hz : ∀ c ∈ z, isBlank c = true ∨ c = ';') :
    (tail ++ z).head?.any isDecimalDigit = false := by
  rcases htail with rfl | hblank
  · cases z with
    | nil => rfl
    | cons c z =>
      rcases hz c List.mem_cons_self with hc | rfl
      · exact isDecimalDigit_eq_false_of_isBlank hc
      · change isDecimalDigit ';' = false
        decide
  · have hne : tail ≠ [] := by
      rintro rfl
      cases hblank
    rw [head?_append_any hne]
    exact head?_any_isDecimalDigit_of_blank (.inr hblank)

variable {cap : RowCap} {sql : Text}

/-- The number of the `LIMIT` that ends a body is a limit of the query. -/
theorem mem_limits_of_limitClause {p head written tail : Text}
    (hbody : maskLiterals (withoutSemicolon sql).1 = p ++ (head ++ (written ++ tail)))
    (hp : atWordStart p.reverse = true) (hc : LimitClause head written tail)
    (hd : IsDigitRun written) : written ∈ Structure.limits sql := by
  obtain ⟨g, z, hmask, hg, hz⟩ := exists_around_maskLiterals sql
  have hsplit : maskLiterals sql = (g ++ p) ++ (head ++ (written ++ (tail ++ z))) := by
    rw [hmask, hbody]
    simp only [List.append_assoc]
  have hread : Structure.limitNumber (g ++ p).reverse (head ++ (written ++ (tail ++ z))) =
      some (written, tail ++ z) :=
    Structure.limitNumber_eq_some_iff.2 ⟨atWordStart_append_blanks hp hg, head, hc.head, hd,
      head?_any_isDecimalDigit_of_around hc.blank_tail hz, rfl⟩
  have hne : head ++ (written ++ (tail ++ z)) ≠ [] := by simp [hc.head.ne_nil]
  obtain ⟨k, hk, hv⟩ := exists_mem_hits Structure.neverOverlaps_limitNumber hne hread
  exact List.mem_map.2 ⟨k, by rwa [hsplit], hv⟩

theorem Structure.kept_of_isValid {parser : Parser} {o : Outcome}
    (h : checkStructure parser cap sql = .ok o) (hvalid : o.isValid = true) :
    Structure.Kept parser cap sql := by
  obtain ⟨v, hv, ho⟩ := bind_eq_ok_iff.1 h
  cases v with
  | some v =>
    obtain rfl := Except.ok.inj ho
    cases hvalid
  | none => exact Structure.violation?_eq_none_iff.1 hv

/-- A body ends with the three parts of a clause, outside its literals. -/
def EndsWithClause (body head written tail : Text) : Prop :=
  ∃ a, body = a ++ (head ++ (written ++ tail)) ∧
    maskLiterals body = maskLiterals a ++ (head ++ (written ++ tail)) ∧
    atWordStart (maskLiterals a).reverse = true

/-- What is lowered in a query that the second tier accepts is `LIMIT ALL` or the number of a
`FETCH` clause, never the number of a `LIMIT`. -/
theorem lowered_of_accepted {parser : Parser} {o : Outcome} {b : Bounded}
    (hcheck : checkStructure parser cap sql = .ok o)
    (hvalid : o.isValid = true) (hbound : bound cap sql = .ok b) (hlowered : b.wasLowered = true) :
    ∃ head written tail, EndsWithClause (withoutSemicolon sql).1 head written tail ∧
      (LimitClause head written tail ∧ Spells "ALL" written ∧ b.asked? = none ∨
        FetchClause head written tail ∧ ∃ n, readDigits written = .ok n ∧ b.asked? = some n ∧
          cap.rows < n) := by
  have hkept := Structure.kept_of_isValid hcheck hvalid
  have hs : isSelect sql = true := by
    by_contra hno
    rw [bound, if_neg hno] at hbound
    obtain rfl := Except.ok.inj hbound
    cases hlowered
  obtain ⟨out, effect, hbody, -, rfl⟩ := exists_body_of_bound hbound hs
  rcases Bound.body_eq_ok hbody with ⟨-, n, -, -, -, -, rfl⟩ |
    ⟨hit, ds, asked, hh, hw, hnumber, habove, -, -, rfl⟩ | ⟨ds, -, -, rfl⟩
  · cases hlowered
  · obtain ⟨p, head, written, tail, hmask, hp, hc, hv⟩ := exists_clause_of_firstHit? hh
    have hquote : '\'' ∉ head ++ (written ++ tail) :=
      hc.madeOf.not_mem (by decide) (by decide) (by decide)
    obtain ⟨a, ha, -, rfl⟩ := exists_eq_append_of_maskLiterals hmask hquote
    rw [hv] at hw hnumber
    refine ⟨head, written, tail, ⟨a, ha, hmask, hp⟩, ?_⟩
    rcases hc with hlimit | hfetch
    · rcases hlimit.written with hd | hall
      · -- A number is one that the second tier has read.
        obtain ⟨n, hn, hle⟩ := hkept.limits written (mem_limits_of_limitClause hmask hp hlimit hd)
        rw [Bound.number?_of_digits hd hn] at hnumber
        exact absurd (habove n (Except.ok.inj hnumber).symm) (Nat.not_lt_of_le hle)
      · rw [Bound.number?_of_all hall] at hnumber
        exact .inl ⟨hlimit, hall, (Except.ok.inj hnumber).symm⟩
    · have hd := (hfetch.tail.resolve_left fun hnil => hw hnil.1).1
      obtain ⟨n, hn, rfl⟩ := Bound.exists_of_number?_digits hd hnumber
      exact .inr ⟨hfetch, n, hn, rfl, habove n rfl⟩
  · cases hlowered

/-- A limit inside a subquery is read by the second tier alone, and the last clause is lowered. -/
theorem lowered_of_accepted_fetch :
    let sql : Text := "SELECT a FROM (SELECT a FROM t LIMIT 9) s FETCH FIRST 99 ROWS ONLY;"
    let cap : RowCap := .ofNat 10 (by decide)
    let body : Text := "SELECT a FROM (SELECT a FROM t LIMIT 9) s FETCH FIRST 10 ROWS ONLY;"
    let b : Bounded := ⟨body, .lowered (some 99), 10⟩
    checkStructure .scanner cap sql = .ok (.accepted .structural none []) ∧
      bound cap sql = .ok b ∧
      ∃ head written tail, EndsWithClause (withoutSemicolon sql).1 head written tail ∧
        FetchClause head written tail ∧ readDigits written = .ok 99 := by
  intro sql cap body b
  have hcheck : checkStructure .scanner cap sql = .ok (.accepted .structural none []) := by
    decide +kernel
  have hb : bound cap sql = .ok b := by decide +kernel
  obtain ⟨head, written, tail, hends, ⟨-, -, hnone⟩ | ⟨hfetch, n, hn, hasked, -⟩⟩ :=
    lowered_of_accepted hcheck rfl hb rfl
  · cases hnone
  · obtain rfl : 99 = n := Option.some.inj hasked
    exact ⟨hcheck, hb, head, written, tail, hends, hfetch, hn⟩

end QueryGate
