import QueryGate.Gate.Wording
import QueryGate.Proofs.Sql.LiteralMask
import QueryGate.Proofs.Text.Parts

/-!
# One statement per query

What a text that passes the first tier keeps to (`Wording.Kept`), and what its count of semicolons
comes to. At most one semicolon stands outside literals, so an accepted text is a single statement
exactly if it has none there or if the one ends the text (`isSingleStatement_iff_of_accepted`). A
semicolon between two statements passes.
-/

namespace QueryGate

/-- The rules of the first tier, each kept by a text. -/
structure Wording.Kept (sql : Text) : Prop where
  notBlank : allBlank sql = false
  noDoubleDot : Text.hasPart ".." (maskLiterals sql) = false
  whole : breaksOff (maskLiterals sql) = false
  noForbiddenWord : forbiddenWord? (maskLiterals sql) = none
  notSuspicious : isSuspicious sql = false
  begins : beginsStatement sql = true
  semicolons : (maskLiterals sql).count ';' ≤ 1
  noTransaction : occurs (oneWord transactionWords) (maskLiterals sql) = false

theorem Wording.violation?_eq_none_iff {sql : Text} : violation? sql = none ↔ Kept sql := by
  constructor
  · intro h
    unfold violation? at h
    simp only at h
    split at h
    · cases h
    rename_i h1
    split at h
    · cases h
    rename_i h2
    split at h
    · cases h
    rename_i h3
    split at h
    · cases h
    rename_i h4
    split at h
    · cases h
    rename_i h5
    split at h
    · cases h
    rename_i h6
    split at h
    · cases h
    rename_i h7
    split at h
    · cases h
    rename_i h8
    exact ⟨by simpa using h1, by simpa using h2, by simpa using h3, h4, by simpa using h5,
      by simpa using h6, Nat.le_of_not_lt h7, by simpa using h8⟩
  · intro h
    unfold violation?
    simp only [h.notBlank, h.noDoubleDot, h.whole, h.noForbiddenWord, h.notSuspicious, h.begins,
      h.noTransaction, Nat.not_lt.2 h.semicolons, Bool.not_true, Bool.false_eq_true, ite_false]

/-- A text is accepted by the first tier exactly if it keeps to its rules. -/
theorem checkWording_isValid_iff {sql : Text} :
    (checkWording sql).isValid = true ↔ Wording.Kept sql := by
  rw [← Wording.violation?_eq_none_iff]
  unfold checkWording
  cases Wording.violation? sql <;> simp [Outcome.isValid]

/-! ## Where semicolons stand -/

/-- A text is a single statement: whatever semicolon stands outside its literals is followed by
nothing but blanks. -/
def IsSingleStatement (sql : Text) : Prop :=
  ∀ before after, sql = before ++ ';' :: after → (maskLiterals sql)[before.length]? = some ';' →
    allBlank after = true

theorem isSingleStatement_iff_forall_lt {sql : Text} :
    IsSingleStatement sql ↔
      ∀ i < sql.length, (maskLiterals sql)[i]? = some ';' → allBlank (sql.drop (i + 1)) = true := by
  constructor
  · intro h i hi hmask
    have hget : sql[i] = ';' := by
      have hsql := getElem?_maskLiterals hmask (by decide)
      exact (List.getElem?_eq_some_iff.1 hsql).2
    refine h (sql.take i) _ ?_ ?_
    · rw [← hget, ← List.drop_eq_getElem_cons hi, List.take_append_drop]
    · rwa [List.length_take_of_le (Nat.le_of_lt hi)]
  · rintro h before after rfl hmask
    have hblank := h before.length (by simp) hmask
    rwa [List.drop_append, List.drop_eq_nil_of_le (Nat.le_succ _), List.nil_append,
      Nat.add_sub_cancel_left, List.drop_one, List.tail_cons] at hblank

instance (sql : Text) : Decidable (IsSingleStatement sql) :=
  decidable_of_iff _ isSingleStatement_iff_forall_lt.symm

/-- Of the semicolons outside literals the last one, if only blanks follow it, is the only one if
there is at most one. -/
theorem length_eq_of_single_semicolon {sql before after b : Text}
    (hcount : (maskLiterals sql).count ';' ≤ 1) (hsql : sql = before ++ ';' :: after)
    (hafter : allBlank after = true) (hb : (maskLiterals sql)[b.length]? = some ';') :
    b.length = before.length := by
  have hquote : '\'' ∉ after := not_mem_of_allBlank (by decide) hafter
  have hquote' : '\'' ∉ ';' :: after := List.not_mem_cons_of_ne_of_not_mem (by decide) hquote
  have hmask : maskLiterals sql = maskLiterals before ++ ';' :: after := by
    rw [hsql, maskLiterals_append_of_not_mem before hquote']
  rw [hmask, List.count_append, List.count_cons_self] at hcount
  have hbefore : ';' ∉ maskLiterals before := by
    rw [← List.count_eq_zero]
    omega
  have hafter' : ';' ∉ after := not_mem_of_allBlank (by decide) hafter
  rw [hmask] at hb
  rcases Nat.lt_trichotomy b.length before.length with hlt | heq | hgt
  · rw [List.getElem?_append_left (by simpa using hlt)] at hb
    exact absurd (List.mem_of_getElem? hb) hbefore
  · exact heq
  · rw [List.getElem?_append_right (by simpa using Nat.le_of_lt hgt), length_maskLiterals,
      List.getElem?_cons, if_neg (by omega)] at hb
    exact absurd (List.mem_of_getElem? hb) hafter'

/-- An accepted text has at most one semicolon outside its literals, and it is a single statement
exactly if it has none or ends in it, blanks aside. -/
theorem isSingleStatement_iff_of_accepted {sql : Text} (h : (checkWording sql).isValid = true) :
    (maskLiterals sql).count ';' ≤ 1 ∧
      (IsSingleStatement sql ↔ ';' ∉ maskLiterals sql ∨ (trim sql).getLast? = some ';') := by
  have hcount : (maskLiterals sql).count ';' ≤ 1 := (checkWording_isValid_iff.1 h).semicolons
  refine ⟨hcount, ?_⟩
  rw [getLast?_trim_eq_some_iff (by decide)]
  constructor
  · intro hs
    by_cases hmem : ';' ∈ maskLiterals sql
    · right
      obtain ⟨i, hi⟩ := List.mem_iff_getElem?.1 hmem
      have hsql := getElem?_maskLiterals hi (by decide)
      obtain ⟨hlt, hget⟩ := List.getElem?_eq_some_iff.1 hsql
      have hsplit : sql = sql.take i ++ ';' :: sql.drop (i + 1) := by
        rw [← hget, ← List.drop_eq_getElem_cons hlt, List.take_append_drop]
      have hlen : (sql.take i).length = i := by
        rw [List.length_take]
        omega
      exact ⟨_, _, hsplit, hs _ _ hsplit (by rwa [hlen])⟩
    · exact .inl hmem
  · rintro (hno | ⟨before, after, hsql, hafter⟩) b a hsql' hb
    · exact absurd (List.mem_of_getElem? hb) hno
    · have hlen := length_eq_of_single_semicolon hcount hsql hafter hb
      rw [hsql] at hsql'
      obtain ⟨-, htail⟩ := List.append_inj hsql' hlen.symm
      rwa [← (List.cons.inj htail).2]

/-- A query that ends in its one semicolon is accepted, and is a single statement. -/
theorem isSingleStatement_closed_query :
    (checkWording "SELECT a FROM t WHERE b = 'x;y';".toList).isValid = true ∧
      IsSingleStatement "SELECT a FROM t WHERE b = 'x;y';".toList := by
  have h : (checkWording "SELECT a FROM t WHERE b = 'x;y';".toList).isValid = true := by
    decide +kernel
  exact ⟨h, (isSingleStatement_iff_of_accepted h).2.2 (.inr (by decide +kernel))⟩

/-- Two statements with one semicolon between them are accepted, and are no single statement. -/
theorem accepted_chained_statements :
    (checkWording "SELECT a FROM t; DROP TABLE t".toList).isValid = true ∧
      ¬ IsSingleStatement "SELECT a FROM t; DROP TABLE t".toList := by
  have h : (checkWording "SELECT a FROM t; DROP TABLE t".toList).isValid = true := by
    decide +kernel
  refine ⟨h, fun hs => ?_⟩
  have hblank := hs "SELECT a FROM t".toList " DROP TABLE t".toList (by decide) (by decide)
  exact absurd hblank (by decide)

end QueryGate
