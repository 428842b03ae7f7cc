import QueryGate.Pipeline
import QueryGate.Proofs.Text.Ascii
import QueryGate.Proofs.Text.Parts
import QueryGate.Sql.Scanner

/-!
# What is asked of an executor

A query reaches the executor only if it was prepared, and then once and as it was prepared
(`answer_of_prepared`). An answer is a success exactly if the query was prepared and came to no
error; any other answer gives a reason that is recognised as a refusal, and that stays as it is when
it is refused again (`refusal_refusal`).
-/

namespace QueryGate

/-! ## Refusals -/

/-- What a refusal says: its reason, in general words if there is none. -/
theorem exists_refusal_eq (reason : Text) :
    ∃ detail, detail ≠ [] ∧ trim detail = detail ∧ refusal reason =
      if refusalPrefix.isPrefixOf (lower detail) then detail
      else refusalPrefix ++ ": " ++ detail := by
  by_cases h : (trim reason).isEmpty = true
  · refine ⟨"The query could not be answered from the available data.", by decide,
      by decide +kernel, ?_⟩
    rw [refusal, if_pos h]
  · refine ⟨trim reason, by simpa using h, trim_trim reason, ?_⟩
    rw [refusal, if_neg h]

theorem lower_prefixed (t : Text) :
    refusalPrefix.isPrefixOf (lower (refusalPrefix ++ ": " ++ t)) = true := by
  have hascii : Ascii refusalPrefix := by decide
  rw [List.isPrefixOf_iff_prefix, List.append_assoc, lower, hascii.lowerFrom_append]
  exact List.prefix_append refusalPrefix _

/-- A refusal has no blanks around it. -/
theorem trim_refusal (reason : Text) : trim (refusal reason) = refusal reason := by
  obtain ⟨detail, hne, htrim, heq⟩ := exists_refusal_eq reason
  rw [heq]
  split
  · exact htrim
  · refine trim_eq_self rfl ?_
    rw [List.getLast?_append, Option.or_of_isSome (by simpa using hne), ← htrim]
    exact getLast?_trimEnd _

theorem isRefusal_refusal (reason : Text) : isRefusal (refusal reason) = true := by
  rw [isRefusal, trim_refusal]
  obtain ⟨detail, -, -, heq⟩ := exists_refusal_eq reason
  rw [heq]
  split
  · assumption
  · exact lower_prefixed detail

/-- A text that is a refusal already is repeated, without the blanks around it. -/
theorem refusal_eq_trim {t : Text} (h : isRefusal t = true) : refusal t = trim t := by
  have hne : (trim t).isEmpty = false := by
    rw [List.isEmpty_eq_false_iff]
    intro hempty
    rw [isRefusal, hempty] at h
    cases h
  have hprefix : refusalPrefix.isPrefixOf (lower (trim t)) = true := h
  simp only [refusal, hne, Bool.false_eq_true, if_false, hprefix, if_true]

/-- To refuse with a refusal is to repeat it. -/
theorem refusal_refusal (reason : Text) : refusal (refusal reason) = refusal reason := by
  rw [refusal_eq_trim (isRefusal_refusal reason), trim_refusal]

/-! ## Prepared queries -/

theorem Prepared.error?_eq_none_iff {p : Prepared} : p.error? = none ↔ p.isReady = true := by
  cases p <;> simp [Prepared.error?, Prepared.isReady]

theorem Prepared.sql?_isSome (p : Prepared) : p.sql?.isSome = p.isReady := by
  cases p <;> rfl

/-- Whatever turns a query down says so with a refusal. -/
theorem Prepared.exists_error? {p : Prepared} (h : p.isReady = false) :
    ∃ reason, p.error? = some (refusal reason) := by
  cases p with
  | ready => cases h
  | _ => exact ⟨_, rfl⟩

/-! ## Requests -/

/-- How an executor behaves: in a state of its own it comes to an outcome, or fails to. -/
abbrev Behaviour (σ ε : Type) := Text → σ → Except ε Execution × σ

/-- An executor that behaves in a certain way, with a record of what was asked of it. -/
def recorded {σ ε : Type} (behave : Behaviour σ ε) (sql : Text) :
    ExceptT ε (StateM (σ × List Text)) Execution :=
  ExceptT.mk fun (state, requests) =>
    let (outcome, state) := behave sql state
    (outcome, (state, requests ++ [sql]))

/-- Answers a question; beside the answer, the state the executor is left in and what was asked of
it. -/
def answerRecorded {σ ε : Type} (behave : Behaviour σ ε) (parser : Parser) (s : Settings)
    (tables : List Table) (question sql : Text) (state : σ) :
    Except ε (Except Fault Answer) × σ × List Text :=
  (answerWith (recorded behave) parser s tables question sql).run.run (state, [])

section Requests
variable {σ ε : Type} {behave : Behaviour σ ε} {parser : Parser} {s : Settings}
  {tables : List Table} {question sql : Text} {state : σ} {p : Prepared}

/-- A query that was turned down is answered without a request. -/
theorem answerRecorded_of_turnedDown (hp : prepare parser s tables question sql = .ok p)
    (hsql : p.sql? = none) : answerRecorded behave parser s tables question sql state =
      (.ok (.ok (.turnedDown p)), state, []) := by
  simp only [answerRecorded, answerWith, hp, hsql]
  rfl

/-- A query that is ready is asked of the executor, and its outcome is the answer. -/
theorem answerRecorded_of_ready (hp : prepare parser s tables question sql = .ok p) {ready : Text}
    (hsql : p.sql? = some ready) : answerRecorded behave parser s tables question sql state =
      ((behave ready state).1.map fun e => .ok (.executed ready p e),
        (behave ready state).2, [ready]) := by
  simp only [answerRecorded, answerWith, hp, hsql]
  rcases hb : behave ready state with ⟨failure | e, after⟩ <;>
    simp only [recorded, ExceptT.run, ExceptT.mk, ExceptT.bind, ExceptT.bindCont, bind,
      StateT.bind, StateT.run, hb] <;> rfl

/-- An answer is consistent with how its query was prepared: it is a success exactly if the query
was ready and came to no error, and it gives a reason that is a refusal otherwise. -/
structure Answer.Consistent (p : Prepared) (a : Answer) : Prop where
  prepared : a.prepared = p
  sql : a.sql? = p.sql?
  success : a.isSuccess = true ↔ p.error? = none ∧ ∃ e, a.execution? = some e ∧ e.error? = none
  refused : a.isSuccess = false →
    ∃ message, a.error? = some message ∧ isRefusal message = true ∧ refusal message = message
  unasked : p.sql? = none → a.execution? = none

theorem Answer.consistent_turnedDown (h : p.sql? = none) : (Answer.turnedDown p).Consistent p := by
  have hready : p.isReady = false := by rw [← p.sql?_isSome, h]; rfl
  refine ⟨rfl, h.symm, ?_, fun _ => ?_, fun _ => rfl⟩
  · exact iff_of_false nofun (by rintro ⟨-, e, ⟨⟩, -⟩)
  · obtain ⟨reason, hreason⟩ := Prepared.exists_error? hready
    exact ⟨_, hreason, isRefusal_refusal reason, refusal_refusal reason⟩

theorem Answer.consistent_executed {ready : Text} (h : p.sql? = some ready) (e : Execution) :
    (Answer.executed ready p e).Consistent p := by
  have hready : p.isReady = true := by rw [← p.sql?_isSome, h]; rfl
  refine ⟨rfl, h.symm, ?_, fun hfailed => ?_, fun hnone => nomatch h.symm.trans hnone⟩
  · rw [and_iff_right (Prepared.error?_eq_none_iff.2 hready)]
    cases e with
    | finished => exact iff_of_true rfl ⟨_, rfl, rfl⟩
    | failed => exact iff_of_false nofun (by rintro ⟨e, ⟨⟩, ⟨⟩⟩)
  · cases e with
    | finished => cases hfailed
    | failed message => exact ⟨_, rfl, isRefusal_refusal message, refusal_refusal message⟩

/-- What is asked of an executor, and what is answered: a prepared query is asked once, as it was
prepared, and a query that was turned down is not asked; unless the executor fails to come to an
outcome there is an answer, and it is consistent. -/
theorem answer_of_prepared (behave : Behaviour σ ε) (parser : Parser) (s : Settings)
    (tables : List Table) (question sql : Text) (state : σ) (p : Prepared)
    (hp : prepare parser s tables question sql = .ok p) :
    ∃ answered after, answerRecorded behave parser s tables question sql state =
        (answered, after, p.sql?.toList) ∧
      (p.sql?.isSome = true ↔ p.error? = none) ∧
      (∀ failure, answered = .error failure →
        ∃ ready, p.sql? = some ready ∧ (behave ready state).1 = .error failure) ∧
      ∀ result, answered = .ok result → ∃ a, result = .ok a ∧ Answer.Consistent p a ∧
        ∀ ready, p.sql? = some ready →
          ∃ e, (behave ready state).1 = .ok e ∧ a.execution? = some e := by
  have hsome : p.sql?.isSome = true ↔ p.error? = none := by
    rw [p.sql?_isSome, Prepared.error?_eq_none_iff]
  cases hsql : p.sql? with
  | none =>
    rw [hsql] at hsome
    refine ⟨_, _, answerRecorded_of_turnedDown hp hsql, hsome, fun _ h => (nomatch h), ?_⟩
    rintro result ⟨⟩
    exact ⟨_, rfl, Answer.consistent_turnedDown hsql, fun _ h => (nomatch h)⟩
  | some ready =>
    rw [hsql] at hsome
    refine ⟨_, _, answerRecorded_of_ready hp hsql, hsome, ?_⟩
    cases hb : (behave ready state).1 with
    | error failure =>
      refine ⟨?_, fun _ h => (nomatch h)⟩
      rintro _ ⟨⟩
      exact ⟨ready, rfl, hb⟩
    | ok e =>
      refine ⟨fun _ h => (nomatch h), ?_⟩
      rintro result ⟨⟩
      refine ⟨_, rfl, Answer.consistent_executed hsql e, ?_⟩
      rintro _ ⟨⟩
      exact ⟨e, hb, rfl⟩

/-- A driver that fails without a word is asked once, and the answer gives a reason. -/
theorem answer_of_prepared_silent_failure :
    ∃ (behave : Behaviour Nat Empty) (p : Prepared) (a : Answer),
      prepare .scanner .standard [⟨"t", [⟨"a", .text, true⟩]⟩] "" "SELECT a FROM t;" = .ok p ∧
      answerRecorded behave .scanner .standard [⟨"t", [⟨"a", .text, true⟩]⟩] ""
          "SELECT a FROM t;" 0 =
        (.ok (.ok a), 1, [("SELECT a FROM t LIMIT 5000;" : Text)]) ∧
      a.Consistent p ∧ a.isSuccess = false ∧ a.error? =
        some "not_available: The query could not be answered from the available data." := by
  let behave : Behaviour Nat Empty := fun _ n =>
    (Except.ok (.failed [] .executionDriverError), n + 1)
  have h : prepare .scanner .standard [⟨"t", [⟨"a", .text, true⟩]⟩] "" "SELECT a FROM t;" =
      .ok (.ready "SELECT a FROM t LIMIT 5000;" (.accepted .schema none [])
        (some ⟨[], [], ["t"], ["a"]⟩)) := by
    decide +kernel
  obtain ⟨answered, after, heq, -, -, hok⟩ := answer_of_prepared behave _ _ _ _ _ 0 _ h
  obtain ⟨rfl, hafter⟩ := Prod.mk.inj (heq.symm.trans (answerRecorded_of_ready h rfl))
  obtain ⟨rfl, -⟩ := Prod.mk.inj hafter
  obtain ⟨a, ha, hconsistent, -⟩ := hok _ rfl
  obtain rfl := Except.ok.inj ha
  exact ⟨behave, _, _, h, heq, hconsistent, rfl, by decide +kernel⟩

/-- What is answered with an executor of the library itself. -/
theorem answer_consistent (x : Executor) (reply : Reply)
    (hp : prepare parser s tables question sql = .ok p) :
    ∃ a seen, answer parser s tables (some x) reply question sql = .ok (a, seen) ∧ a.Consistent p ∧
      (p.sql? = none → seen = .nothing) := by
  cases hsql : p.sql? with
  | none =>
    refine ⟨_, _, ?_, Answer.consistent_turnedDown hsql, fun _ => rfl⟩
    simp only [answer, answerWith, hp, hsql]
    rfl
  | some ready =>
    refine ⟨_, (x.execute ready reply).2, ?_,
      Answer.consistent_executed hsql (x.execute ready reply).1, fun h => nomatch h⟩
    simp only [answer, answerWith, hp, hsql]
    rfl

end Requests

end QueryGate
