import QueryGate.Pipeline
import QueryGate.Proofs.Bound.Bounding
import QueryGate.Result.Statement
import QueryGate.Sql.Scanner

/-!
# The bound of the statement that is sent

A query is bounded at its end, and what is sent ends at the first semicolon inside it, be it in a
literal or not. So the bound reaches the database exactly if no semicolon stands inside the query,
or what stands before the first is bounded by itself (`isBoundedBy_statementToSend_iff`).
-/

namespace QueryGate

/-- The outer bound of a query is a number no greater than the cap. -/
def IsBoundedBy (cap : RowCap) (sql : Text) : Prop :=
  ∃ n ≤ cap.rows, outerLimit? sql = .ok (some n)

/-- The query that preparation bounds: the corrected one, with its sort keys cast. -/
def queryToBound (tables : List Table) (question sql : Text) (outcome : Outcome) : Text :=
  let current := outcome.finalSql sql
  castSortKeys (referencedColumns tables current) question current

theorem finish_eq_ok {s : Settings} {tables : List Table} {question sql out : Text}
    (h : finish s tables question sql = .ok out) :
    ∃ b, bound s.rowCap (castSortKeys (referencedColumns tables sql) question sql) = .ok b ∧
      out = b.sql := by
  obtain ⟨b, hb, h⟩ := bind_eq_ok_iff.1 h
  exact ⟨b, hb, (Except.ok.inj h).symm⟩

/-- A query that is ready to run has been bounded. -/
theorem prepare_eq_ready {parser : Parser} {s : Settings} {tables : List Table}
    {question sql out : Text} {outcome : Outcome} {report : Option ColumnReport}
    (h : prepare parser s tables question sql = .ok (.ready out outcome report)) :
    ∃ b, bound s.rowCap (queryToBound tables question sql outcome) = .ok b ∧ out = b.sql := by
  unfold prepare at h
  split at h
  · cases h
  obtain ⟨outcome', -, h⟩ := bind_eq_ok_iff.1 h
  split at h
  · cases h
  simp only at h
  split at h
  · split at h
    · cases h
    obtain ⟨out', hout, h⟩ := bind_eq_ok_iff.1 h
    cases h
    exact finish_eq_ok hout
  · obtain ⟨out', hout, h⟩ := bind_eq_ok_iff.1 h
    cases h
    exact finish_eq_ok hout

/-- What is sent is the query without its semicolon, up to the first semicolon that is left. -/
theorem statementToSend_eq (sql : Text) :
    statementToSend sql =
      if ';' ∈ (withoutSemicolon sql).1 then
        trimEnd ((withoutSemicolon sql).1.takeWhile (· != ';'))
      else (withoutSemicolon sql).1 := by
  have hbody : (if (trim sql).getLast? == some ';' then trimEnd (trim sql).dropLast else trim sql) =
      (withoutSemicolon sql).1 := by
    rw [withoutSemicolon]
    by_cases hlast : (trim sql).getLast? = some ';'
    · rw [hlast]
      rfl
    · rw [if_neg (by simpa using hlast)]
      split
      · rename_i hlast'
        exact absurd hlast' hlast
      · rfl
  rw [statementToSend]
  simp only [hbody, List.contains_eq_mem, decide_eq_true_eq]

/-- The bound is sent exactly if no semicolon stands inside the bounded query, or what is sent in
its place, the query before it was bounded, has a bound of its own. -/
theorem isBoundedBy_statementToSend_iff {parser : Parser} {s : Settings} {tables : List Table}
    {question sql out : Text} {outcome : Outcome} {report : Option ColumnReport}
    (h : prepare parser s tables question sql = .ok (.ready out outcome report))
    (hselect : isSelect out = true) :
    IsBoundedBy s.rowCap (statementToSend out) ↔
      ';' ∉ (withoutSemicolon out).1 ∨
        IsBoundedBy s.rowCap (statementToSend (queryToBound tables question sql outcome)) := by
  obtain ⟨b, hb, rfl⟩ := prepare_eq_ready h
  have hquery : isSelect (queryToBound tables question sql outcome) = true := by
    by_contra hno
    rw [bound, if_neg hno] at hb
    obtain rfl := Except.ok.inj hb
    exact hno hselect
  obtain ⟨bounded, hend, hout⟩ := bound_eq_ok hb hquery
  rw [hout, statementToSend_eq, hend.withoutSemicolon_eq]
  by_cases hmem : ';' ∈ bounded
  · have hsent : statementToSend (queryToBound tables question sql outcome) =
        trimEnd (bounded.takeWhile (· != ';')) := by
      have hmem' := hend.semicolon_mem_iff.1 hmem
      rw [statementToSend_eq, if_pos hmem', hend.takeWhile_eq hmem']
    rw [if_pos hmem, hsent]
    simp only [hmem, not_true_eq_false, false_or]
  · rw [if_neg hmem]
    simp only [hmem, not_false_eq_true, true_or, iff_true]
    obtain ⟨n, hle, hn⟩ := hend.limit
    exact ⟨n, hle, hend.outerLimit?_eq.trans hn⟩

/-- A query without semicolons inside is bounded as it is sent. -/
theorem isBoundedBy_sent_plain_query :
    prepare .scanner .standard [⟨"t", [⟨"a", .text, true⟩]⟩] "" "SELECT a FROM t;" =
        .ok (.ready "SELECT a FROM t LIMIT 5000;" (.accepted .schema none [])
          (some ⟨[], [], ["t"], ["a"]⟩)) ∧
      IsBoundedBy Settings.standard.rowCap (statementToSend "SELECT a FROM t LIMIT 5000;") := by
  have h : prepare .scanner .standard [⟨"t", [⟨"a", .text, true⟩]⟩] "" "SELECT a FROM t;" =
      .ok (.ready "SELECT a FROM t LIMIT 5000;" (.accepted .schema none [])
        (some ⟨[], [], ["t"], ["a"]⟩)) := by
    decide +kernel
  exact ⟨h, (isBoundedBy_statementToSend_iff h (by decide +kernel)).2 (.inl (by decide +kernel))⟩

/-- A semicolon in a literal cuts the bound off. -/
theorem unbounded_sent_query :
    prepare .scanner .standard [⟨"t", [⟨"a", .text, true⟩]⟩] "" "SELECT a FROM t WHERE a = 'x;y'" =
        .ok (.ready "SELECT a FROM t WHERE a = 'x;y' LIMIT 5000" (.accepted .schema none [])
          (some ⟨[], [], ["t"], ["a"]⟩)) ∧
      isSelect "SELECT a FROM t WHERE a = 'x;y' LIMIT 5000" = true ∧
      statementToSend "SELECT a FROM t WHERE a = 'x;y' LIMIT 5000" =
        "SELECT a FROM t WHERE a = 'x" ∧
      ¬ IsBoundedBy Settings.standard.rowCap
        (statementToSend "SELECT a FROM t WHERE a = 'x;y' LIMIT 5000") := by
  refine ⟨by decide +kernel, by decide +kernel, by decide +kernel, ?_⟩
  rintro ⟨n, -, hn⟩
  have hnone : outerLimit? (statementToSend "SELECT a FROM t WHERE a = 'x;y' LIMIT 5000") =
      .ok none := by
    decide +kernel
  rw [hnone] at hn
  cases hn

end QueryGate
