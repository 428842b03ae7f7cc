import QueryGate.Proofs.Bound.Rebounding
import QueryGate.Proofs.Sql.LiteralSpans

/-!
# The edit that bounding makes

Bounding makes at most one edit, and says truly which: the number of the last clause is replaced by
the cap, or a clause with the cap is put in, or nothing is changed (`bound_edits_once`). Either edit
is behind the last apostrophe, so that every string literal is kept.
-/

namespace QueryGate

namespace Bound

/-- The number, or `ALL`, of the clause at the end of a body is replaced by some digits. -/
def LoweredTo (digits body bounded : Text) : Prop :=
  ∃ a head written tail, body = a ++ (head ++ (written ++ tail)) ∧
    OutsideLiterals body (a ++ head).length ∧ IsBoundClause head written tail ∧ written ≠ [] ∧
    bounded = a ++ (head ++ (digits ++ tail))

/-- A clause with some digits is put in at a place outside literals. -/
def AddedTo (digits body bounded : Text) : Prop :=
  ∃ a off, body = a ++ off ∧ OutsideLiterals body a.length ∧ bounded = a ++ (clause digits ++ off)

variable {cap : RowCap} {body bounded digits : Text} {effect : BoundEffect}

theorem LoweredTo.length_le (h : LoweredTo digits body bounded) :
    bounded.length ≤ body.length + digits.length := by
  obtain ⟨a, head, written, tail, rfl, -, -, -, rfl⟩ := h
  simp only [List.length_append]
  omega

theorem AddedTo.length_eq (h : AddedTo digits body bounded) :
    bounded.length = body.length + (7 + digits.length) := by
  obtain ⟨a, off, rfl, -, rfl⟩ := h
  have hclause : (clause digits).length = 7 + digits.length := List.length_append
  simp only [List.length_append, hclause]
  omega

/-- The two edits are told apart by the length of what they leave. -/
theorem LoweredTo.not_addedTo (h : LoweredTo digits body bounded) :
    ¬ AddedTo digits body bounded := fun hadded => by
  have := h.length_le
  have := hadded.length_eq
  omega

/-- The number that the cap replaces is another one. -/
theorem lowerTo_ne {p head written tail : Text} {asked : Option Nat} {s : Span}
    (hw : number? ⟨written, s⟩ = .ok asked) (habove : ∀ n, asked = some n → cap.rows < n)
    (hds : writeDigits cap.rows = .ok digits) :
    p ++ (head ++ (digits ++ tail)) ≠ p ++ (head ++ (written ++ tail)) := by
  intro heq
  obtain rfl : digits = written := by simpa using heq
  rw [number?_of_digits (isDigitRun_of_writeDigits hds) (readDigits_of_writeDigits hds)] at hw
  exact Nat.lt_irrefl _ (habove _ (Except.ok.inj hw).symm)

/-- What bounding makes of a body, and what it says that it did. Its literals are kept. -/
theorem edit_of_body (h : Bound.body cap body = .ok (bounded, effect)) :
    literals bounded = literals body ∧
      ((bounded = body ∧ ∃ n, effect = .within n) ∨
        (LoweredTo (Text.ofNat cap.rows) body bounded ∧ bounded ≠ body ∧
          ∃ asked, effect = .lowered asked) ∨
        AddedTo (Text.ofNat cap.rows) body bounded ∧ effect = .added) := by
  rcases body_eq_ok h with ⟨hit, n, hh, hn, hle, rfl, rfl⟩ |
    ⟨hit, ds, asked, hh, hw, hnumber, habove, hds, rfl, rfl⟩ | ⟨ds, hds, rfl, rfl⟩
  · exact ⟨rfl, .inl ⟨rfl, n, rfl⟩⟩
  · have hd := isDigitRun_of_writeDigits hds
    obtain ⟨a, head, written, tail, rfl, hp, hc, hv⟩ := exists_clause_of_body hh
    have hquote : '\'' ∉ head ++ (written ++ tail) :=
      hc.madeOf.not_mem (by decide) (by decide) (by decide)
    rw [hv] at hw hnumber ⊢
    have hlowered : '\'' ∉ head ++ (ds ++ tail) :=
      (hc.replace hw hd).madeOf.not_mem (by decide) (by decide) (by decide)
    have htail : '\'' ∉ written ++ tail := fun hmem => hquote (List.mem_append_right head hmem)
    rw [lowerTo_append]
    refine ⟨by rw [literals_append hlowered, literals_append hquote],
      .inr (.inl ⟨?_, ?_, asked, rfl⟩)⟩
    · refine ⟨a, head, written, tail, rfl, ?_, hc, hw, by rw [(writeDigits_eq_ok hds).1]⟩
      rw [← List.append_assoc]
      exact outsideLiterals_append htail
    · exact lowerTo_ne hnumber habove hds
  · obtain ⟨a, off, rfl, -, hoff, hadd⟩ := exists_addTo_eq ds body
    have hquote : '\'' ∉ off := by
      rcases hoff with rfl | hoff
      · simp
      · exact (madeOf_of_isOffset hoff).not_mem (by decide) (by decide) (by decide)
    obtain ⟨rfl, -⟩ := writeDigits_eq_ok hds
    have hdigits : '\'' ∉ Text.ofNat cap.rows := fun hmem =>
      absurd (Text.isDigit_of_mem_ofNat hmem) (by decide)
    have hword : '\'' ∉ (" LIMIT " : Text) := by decide
    have hclause : '\'' ∉ clause (Text.ofNat cap.rows) ++ off := fun hmem =>
      (List.mem_append.1 hmem).elim (fun h => (List.mem_append.1 h).elim hword hdigits) hquote
    rw [hadd]
    refine ⟨by rw [literals_append hclause, literals_append hquote], .inr (.inr ⟨?_, rfl⟩)⟩
    exact ⟨a, off, rfl, outsideLiterals_append hquote, rfl⟩

end Bound

/-! ## Whole queries -/

/-- The blanks around a query and its semicolon are in no literal. -/
theorem literals_withoutSemicolon (sql : Text) :
    literals (withoutSemicolon sql).1 = literals sql := by
  obtain ⟨g, hg, hsql⟩ := exists_blanks_append_skipBlanks sql
  obtain ⟨z, hz, hzc⟩ := exists_around_withoutSemicolon sql
  have hzquote : '\'' ∉ z := fun hmem => (hzc _ hmem).elim (by decide) (by decide)
  rw [hsql, literals_prepend (not_mem_of_allBlank (by decide) hg), ← hsql, hz,
    literals_append hzquote]

theorem withoutSemicolon_snd_iff {sql : Text} :
    (withoutSemicolon sql).2 = true ↔ (trim sql).getLast? = some ';' := by
  unfold withoutSemicolon
  simp only
  split
  · rename_i hlast
    exact iff_of_true rfl hlast
  · rename_i hlast
    exact iff_of_false Bool.false_ne_true hlast

/-- Bounding leaves the body of a `SELECT` as it is, or replaces the number of its last clause by
the cap, or puts in one clause with the cap, just as it says. A semicolon at the end and every
literal are kept. -/
theorem bound_edits_once {cap : RowCap} {sql : Text} {b : Bounded} (hs : isSelect sql = true)
    (h : bound cap sql = .ok b) :
    ∃ out, b.sql = (if (withoutSemicolon sql).2 then out ++ [';'] else out) ∧
      out.getLast? ≠ some ';' ∧
      (b.sql.getLast? = some ';' ↔ (trim sql).getLast? = some ';') ∧
      (out = (withoutSemicolon sql).1 ↔ b.isApplied = false) ∧
      (b.isApplied = true →
        (Bound.LoweredTo (Text.ofNat cap.rows) (withoutSemicolon sql).1 out ↔
          b.wasLowered = true) ∧
        (Bound.AddedTo (Text.ofNat cap.rows) (withoutSemicolon sql).1 out ↔
          b.wasLowered = false)) ∧
      literals b.sql = literals sql := by
  obtain ⟨out, effect, hbody, hend, rfl⟩ := exists_body_of_bound h hs
  obtain ⟨hliterals, hedit⟩ := Bound.edit_of_body hbody
  have hkept :
      literals (if (withoutSemicolon sql).2 then out ++ [';'] else out) = literals sql := by
    rw [← literals_withoutSemicolon sql, ← hliterals]
    split
    · exact literals_append (by decide)
    · rfl
  refine ⟨out, rfl, hend.getLast?_ne_semicolon, ?_, ?_, ?_, hkept⟩
  · rw [← withoutSemicolon_snd_iff]
    cases (withoutSemicolon sql).2 with
    | true => simp
    | false => simpa using hend.getLast?_ne_semicolon
  · rcases hedit with ⟨heq, n, rfl⟩ | ⟨-, hne, asked, rfl⟩ | ⟨hadded, rfl⟩
    · exact iff_of_true heq rfl
    · exact iff_of_false hne Bool.noConfusion
    · refine iff_of_false (fun heq => ?_) Bool.noConfusion
      have := hadded.length_eq
      rw [heq] at this
      omega
  · intro happlied
    rcases hedit with ⟨-, n, rfl⟩ | ⟨hlowered, -, asked, rfl⟩ | ⟨hadded, rfl⟩
    · exact Bool.noConfusion happlied
    · exact ⟨iff_of_true hlowered rfl, iff_of_false hlowered.not_addedTo Bool.noConfusion⟩
    · exact ⟨iff_of_false (fun hlowered => hlowered.not_addedTo hadded) Bool.noConfusion,
        iff_of_true hadded rfl⟩

/-- The clause that counts is behind the literals, and a literal that looks like one is kept. -/
theorem bound_edits_once_behind_literal :
    let sql : Text := " SELECT 'it''s LIMIT 9' FROM t limit all OFFSET 2 ; "
    let b : Bounded :=
      ⟨"SELECT 'it''s LIMIT 9' FROM t limit 10 OFFSET 2;", .lowered none, 10⟩
    isSelect sql = true ∧ bound (.ofNat 10 (by decide)) sql = .ok b ∧
      Bound.LoweredTo "10" "SELECT 'it''s LIMIT 9' FROM t limit all OFFSET 2"
        "SELECT 'it''s LIMIT 9' FROM t limit 10 OFFSET 2" ∧
      literals b.sql = [("'it''s LIMIT 9'" : Text)] := by
  intro sql b
  have hs : isSelect sql = true := by decide +kernel
  have hb : bound (.ofNat 10 (by decide)) sql = .ok b := by decide +kernel
  have hcut : withoutSemicolon sql =
      (("SELECT 'it''s LIMIT 9' FROM t limit all OFFSET 2" : Text), true) := by decide +kernel
  obtain ⟨out, hout, -, -, -, hedit, hliterals⟩ := bound_edits_once hs hb
  rw [hcut] at hout hedit
  obtain rfl : ("SELECT 'it''s LIMIT 9' FROM t limit 10 OFFSET 2" : Text) = out :=
    List.append_cancel_right hout
  exact ⟨hs, hb, (hedit rfl).1.2 rfl, hliterals.trans (by decide +kernel)⟩

end QueryGate
