import Mathlib.Data.List.DropRight
import QueryGate.Proofs.Gate.SingleStatement
import QueryGate.Proofs.Pipeline.SentStatement

/-!
# Statements sent whole

What a single statement is without the blanks around it and its closing semicolon (`IsBody`), and
when just that is sent. A single statement may hold semicolons in its literals, and what is sent
ends before the first of them, so it is sent whole exactly if it has none there
(`isBody_statementToSend_iff`).
-/

namespace QueryGate

/-- A blank or a semicolon. -/
def isClosingChar (c : Char) : Bool := isBlank c || c == ';'

/-- What may follow the body of a statement: blanks, and among them at most one semicolon. -/
def IsClosing (after : Text) : Prop :=
  allBlank after = true ∨ ∃ g h, after = g ++ ';' :: h ∧ allBlank g = true ∧ allBlank h = true

/-- The body of a statement: the text without the blanks around it, its closing semicolon and the
blanks before that. -/
structure IsBody (sql body : Text) : Prop where
  around : ∃ before after, sql = before ++ body ++ after ∧ allBlank before = true ∧ IsClosing after
  begins : body.head?.any isBlank = false
  ends : body.getLast?.any isClosingChar = false

/-- Every semicolon of the text stands outside its literals. -/
def NoLiteralSemicolon (sql : Text) : Prop :=
  ∀ i : Nat, sql[i]? = some ';' → (maskLiterals sql)[i]? = some ';'

instance (sql : Text) : Decidable (NoLiteralSemicolon sql) :=
  decidable_of_iff (∀ i < sql.length, sql[i]? = some ';' → (maskLiterals sql)[i]? = some ';')
    ⟨fun h i hi => h i (List.getElem?_eq_some_iff.1 hi).1 hi, fun h i _ => h i⟩

theorem isBlank_semicolon : isBlank ';' = false := by decide

theorem isClosingChar_of_isBlank {c : Char} (hc : isBlank c = true) : isClosingChar c = true := by
  rw [isClosingChar, hc, Bool.true_or]

theorem isClosingChar_eq_false_iff {c : Char} :
    isClosingChar c = false ↔ isBlank c = false ∧ c ≠ ';' := by
  rw [isClosingChar, Bool.or_eq_false_iff, beq_eq_false_iff_ne]

theorem isClosingChar_of_allBlank {t : Text} (h : allBlank t = true) :
    ∀ c ∈ t, isClosingChar c = true :=
  fun c hc => isClosingChar_of_isBlank (List.all_eq_true.1 h c hc)

theorem IsClosing.isClosingChar {after : Text} (h : IsClosing after) :
    ∀ c ∈ after, isClosingChar c = true := by
  rcases h with hall | ⟨g, t, rfl, hg, ht⟩
  · exact isClosingChar_of_allBlank hall
  · rw [List.forall_mem_append, List.forall_mem_cons]
    exact ⟨isClosingChar_of_allBlank hg, by decide, isClosingChar_of_allBlank ht⟩

theorem IsClosing.apostrophe_not_mem {after : Text} (h : IsClosing after) : '\'' ∉ after :=
  fun hmem => absurd (h.isClosingChar _ hmem) (by decide)

/-! ## The body of a statement -/

namespace IsBody

variable {sql body body' : Text}

/-- Reading the text from its two ends gives the body. -/
theorem eq_dropWhile (h : IsBody sql body) :
    (sql.rdropWhile isClosingChar).dropWhile isBlank = body := by
  obtain ⟨before, after, rfl, hbefore, hafter⟩ := h.around
  have hcut : (before ++ body ++ after).rdropWhile isClosingChar =
      (before ++ body).rdropWhile isClosingChar := by
    rw [List.rdropWhile, List.reverse_append, List.dropWhile_append_of_pos, List.rdropWhile]
    exact fun c hc => hafter.isClosingChar c (List.mem_reverse.1 hc)
  rw [hcut]
  rcases List.eq_nil_or_concat' body with rfl | ⟨b, c, rfl⟩
  · rw [List.append_nil, List.rdropWhile_eq_nil_iff.2 (isClosingChar_of_allBlank hbefore),
      List.dropWhile_nil]
  · have hc : ¬ isClosingChar c = true := by
      simpa using h.ends
    rw [← List.append_assoc, List.rdropWhile_concat_neg _ _ _ hc, List.append_assoc]
    exact (skipBlanks_append hbefore h.begins)

/-- A statement has one body. -/
theorem unique (h : IsBody sql body) (h' : IsBody sql body') : body = body' :=
  h.eq_dropWhile.symm.trans h'.eq_dropWhile

end IsBody

/-- What stands around a text without its semicolon. -/
theorem exists_around_body (sql : Text) :
    ∃ before after, sql = before ++ (withoutSemicolon sql).1 ++ after ∧ allBlank before = true ∧
      ((allBlank after = true ∧ (withoutSemicolon sql).1.getLast? ≠ some ';') ∨
        ∃ g h, after = g ++ ';' :: h ∧ allBlank g = true ∧ allBlank h = true) := by
  obtain ⟨s, hs, hsql⟩ := exists_blanks_append_skipBlanks sql
  obtain ⟨e, he, hskip⟩ := exists_trimEnd_append_blanks (skipBlanks sql)
  have htrim : sql = s ++ (trim sql ++ e) := by
    rw [trim, ← hskip]
    exact hsql
  unfold withoutSemicolon
  simp only
  split
  · rename_i hlast
    obtain ⟨g, hg, hdrop⟩ := exists_trimEnd_append_blanks (trim sql).dropLast
    refine ⟨s, g ++ ';' :: e, ?_, hs, .inr ⟨g, e, rfl, hg, he⟩⟩
    calc
      sql = s ++ (trim sql ++ e) := htrim
      _ = s ++ (((trim sql).dropLast ++ [';']) ++ e) := by
        rw [List.dropLast_append_getLast? _ hlast]
      _ = s ++ trimEnd (trim sql).dropLast ++ (g ++ ';' :: e) := by
        conv =>
          lhs
          rw [hdrop]
        simp only [List.append_assoc, List.singleton_append]
  · rename_i hlast
    refine ⟨s, e, ?_, hs, .inl ⟨he, fun h => hlast h⟩⟩
    rw [List.append_assoc]
    exact htrim

theorem head?_withoutSemicolon (sql : Text) : (withoutSemicolon sql).1.head?.any isBlank = false := by
  have htrim := head?_trim sql
  unfold withoutSemicolon
  simp only
  split
  · obtain ⟨g, -, hdrop⟩ := exists_trimEnd_append_blanks (trim sql).dropLast
    obtain ⟨z, hz⟩ : trimEnd (trim sql).dropLast <+: trim sql :=
      (List.prefix_iff_exists_append_eq.2 ⟨g, hdrop.symm⟩).trans (List.dropLast_prefix _)
    cases hb : trimEnd (trim sql).dropLast with
    | nil => rfl
    | cons c u =>
      rw [← hz, hb] at htrim
      exact htrim
  · exact htrim

/-- A semicolon of a single statement is followed by nothing but blanks, if it stands outside the
literals. -/
theorem IsSingleStatement.allBlank_of_cons {sql before after : Text} (h : IsSingleStatement sql)
    (hsql : sql = before ++ ';' :: after) (hafter : '\'' ∉ after) : allBlank after = true := by
  refine h before after hsql ?_
  have hmask : maskLiterals sql = maskLiterals before ++ ';' :: after := by
    rw [hsql, maskLiterals_append_of_not_mem before
      (List.not_mem_cons_of_ne_of_not_mem (by decide) hafter)]
  rw [hmask, List.getElem?_append_right (by rw [length_maskLiterals]), length_maskLiterals,
    Nat.sub_self, List.getElem?_cons_zero]

/-- The body of a single statement is what is left without its semicolon. A semicolon that still
ended it would stand outside the literals with another one behind it. -/
theorem isBody_withoutSemicolon {sql : Text} (h : IsSingleStatement sql) :
    IsBody sql (withoutSemicolon sql).1 := by
  obtain ⟨before, after, hsql, hbefore, hafter⟩ := exists_around_body sql
  have hclosing : IsClosing after := hafter.imp_left And.left
  refine ⟨⟨before, after, hsql, hbefore, hclosing⟩, head?_withoutSemicolon sql, ?_⟩
  cases hlast : (withoutSemicolon sql).1.getLast? with
  | none => rfl
  | some c =>
    have hblank : isBlank c = false := by
      have hend := getLast?_withoutSemicolon sql
      rwa [hlast] at hend
    have hc : c ≠ ';' := by
      rintro rfl
      have hcut : sql = (before ++ (withoutSemicolon sql).1.dropLast) ++ ';' :: after := by
        conv =>
          lhs
          rw [hsql, ← List.dropLast_append_getLast? _ hlast]
        simp only [List.append_assoc, List.singleton_append]
      have hall := h.allBlank_of_cons hcut hclosing.apostrophe_not_mem
      rcases hafter with ⟨-, hne⟩ | ⟨g, e, rfl, -, -⟩
      · exact hne hlast
      · exact not_mem_of_allBlank isBlank_semicolon hall (List.mem_append_right _ List.mem_cons_self)
    exact isClosingChar_eq_false_iff.2 ⟨hblank, hc⟩

/-- The semicolons in the body of a single statement are those in its literals. -/
theorem IsBody.semicolon_not_mem_iff {sql body : Text} (hb : IsBody sql body)
    (h : IsSingleStatement sql) : ';' ∉ body ↔ NoLiteralSemicolon sql := by
  obtain ⟨before, after, hsql, hbefore, hclosing⟩ := hb.around
  have hmask : maskLiterals sql = maskLiterals (before ++ body) ++ after := by
    rw [hsql, maskLiterals_append_of_not_mem _ hclosing.apostrophe_not_mem]
  constructor
  · intro hno i hi
    have hno' : ';' ∉ before ++ body := by
      rw [List.mem_append, not_or]
      exact ⟨not_mem_of_allBlank isBlank_semicolon hbefore, hno⟩
    have hle : (before ++ body).length ≤ i := by
      by_contra hlt
      rw [hsql, List.getElem?_append_left (Nat.lt_of_not_le hlt)] at hi
      exact hno' (List.mem_of_getElem? hi)
    rw [hsql, List.getElem?_append_right hle] at hi
    rwa [hmask, List.getElem?_append_right (by rwa [length_maskLiterals]), length_maskLiterals]
  · intro hall hmem
    obtain ⟨b, b', rfl⟩ := List.append_of_mem hmem
    have hcut : sql = (before ++ b) ++ ';' :: (b' ++ after) := by
      rw [hsql]
      simp only [List.append_assoc, List.cons_append]
    have hblank : allBlank (b' ++ after) = true := by
      refine h _ _ hcut (hall _ ?_)
      rw [hcut, List.getElem?_append_right (Nat.le_refl _), Nat.sub_self, List.getElem?_cons_zero]
    have hall' : ∀ c ∈ ';' :: b', isClosingChar c = true :=
      List.forall_mem_cons.2
        ⟨by decide, fun c hc => isClosingChar_of_allBlank hblank c (List.mem_append_left _ hc)⟩
    have hends := hb.ends
    rw [List.getLast?_append_of_ne_nil _ (List.cons_ne_nil _ _),
      List.getLast?_eq_getLast_of_ne_nil (List.cons_ne_nil _ _), Option.any_some,
      hall' _ (List.getLast_mem _)] at hends
    cases hends

/-! ## What is sent -/

/-- Of a single statement just the body is sent, exactly if no literal holds a semicolon. -/
theorem isBody_statementToSend_iff {sql : Text} (h : IsSingleStatement sql) :
    IsBody sql (statementToSend sql) ↔ NoLiteralSemicolon sql := by
  have hbody := isBody_withoutSemicolon h
  rw [← hbody.semicolon_not_mem_iff h, statementToSend_eq]
  constructor
  · intro hsent hmem
    rw [if_pos hmem] at hsent
    obtain ⟨g, -, hg⟩ := exists_trimEnd_append_blanks ((withoutSemicolon sql).1.takeWhile (· != ';'))
    rw [← hsent.unique hbody] at hmem
    have hmem' := List.mem_append_left g hmem
    rw [← hg] at hmem'
    exact absurd (List.mem_takeWhile_imp hmem') (by decide)
  · intro hno
    rw [if_neg hno]
    exact hbody

/-- Blanks around a statement and its semicolon are not sent. -/
theorem isBody_sent_spaced_statement :
    IsSingleStatement "  SELECT a FROM t WHERE b = 'it''s' ; " ∧
      IsBody "  SELECT a FROM t WHERE b = 'it''s' ; " "SELECT a FROM t WHERE b = 'it''s'" := by
  have h : IsSingleStatement "  SELECT a FROM t WHERE b = 'it''s' ; " := by decide +kernel
  have hsent : statementToSend "  SELECT a FROM t WHERE b = 'it''s' ; " =
      "SELECT a FROM t WHERE b = 'it''s'" := by
    decide +kernel
  refine ⟨h, ?_⟩
  rw [← hsent]
  exact (isBody_statementToSend_iff h).2 (by decide +kernel)

/-- A semicolon in a literal cuts a single statement, here one that is its own body. -/
theorem not_isBody_cut_statement :
    IsSingleStatement "SELECT a FROM t WHERE a = 'x;y'" ∧
      IsBody "SELECT a FROM t WHERE a = 'x;y'" "SELECT a FROM t WHERE a = 'x;y'" ∧
      statementToSend "SELECT a FROM t WHERE a = 'x;y'" = "SELECT a FROM t WHERE a = 'x" ∧
      ¬ IsBody "SELECT a FROM t WHERE a = 'x;y'"
        (statementToSend "SELECT a FROM t WHERE a = 'x;y'") := by
  have hbody : IsBody "SELECT a FROM t WHERE a = 'x;y'" "SELECT a FROM t WHERE a = 'x;y'" :=
    ⟨⟨[], [], by decide, by decide, .inl (by decide)⟩, by decide, by decide⟩
  refine ⟨by decide +kernel, hbody, by decide +kernel, fun hsent => ?_⟩
  exact absurd (hsent.unique hbody) (by decide +kernel)

end QueryGate
