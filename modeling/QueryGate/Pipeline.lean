import QueryGate.Bound
import QueryGate.ColumnCheck
import QueryGate.Gate.Verdict
import QueryGate.NumericSort
import QueryGate.Refusal
import QueryGate.Result.Execution

/-!
# From question to answer

A query is prepared against one snapshot of the schema: the gate, the check of columns, the casts
of sort keys, and the bound on rows. The first stage that turns it down ends its way; a query that
was turned down is never executed.
-/

namespace QueryGate

/-- What preparation makes of a query. -/
inductive Prepared
  /-- The writer of the SQL had none to offer. -/
  | declined (message : Text)
  | rejected (outcome : Outcome)
  | unknownColumns (outcome : Outcome) (report : ColumnReport)
  /-- The SQL is ready to run; there is no report if columns are not checked. -/
  | ready (sql : Text) (outcome : Outcome) (report : Option ColumnReport)
deriving DecidableEq, Repr

namespace Prepared

def sql? : Prepared → Option Text
  | .ready sql _ _ => some sql
  | _ => none

def outcome? : Prepared → Option Outcome
  | .declined _ => none
  | .rejected o | .unknownColumns o _ | .ready _ o _ => some o

def report? : Prepared → Option ColumnReport
  | .declined _ | .rejected _ => none
  | .unknownColumns _ r => some r
  | .ready _ _ r => r

def notes : Prepared → List Text
  | .declined _ | .rejected _ => []
  | .unknownColumns o _ | .ready _ o _ => o.notes

/-- The refusal that the question is answered with. -/
def error? : Prepared → Option Text
  | .declined message => some (refusal message)
  | .rejected o => some (refusal (o.error?.getD []))
  | .unknownColumns _ r => some (refusal (r.error?.getD []))
  | .ready .. => none

/-- The kind of error of a query that was turned down. -/
def errorKind? : Prepared → Option ErrorKind
  | .declined _ | .ready .. => none
  | .rejected o => o.errorKind?
  | .unknownColumns .. => some .columnResolution

def isReady : Prepared → Bool
  | .ready .. => true
  | _ => false

end Prepared

/-- The columns of the tables that a query names, each once. -/
def referencedColumns (tables : List Table) (sql : Text) : List Column :=
  distinct (((tableRefs sql).filterMap fun r => findTable? tables r.name).flatMap (·.columns))

/-- Casts the sort keys of a query and bounds it. -/
def finish (s : Settings) (tables : List Table) (question sql : Text) : Except Fault Text := do
  let cast := castSortKeys (referencedColumns tables sql) question sql
  return (← bound s.rowCap cast).sql

/-- Prepares a query for a question. -/
def prepare (parser : Parser) (s : Settings) (tables : List Table) (question sql : Text) :
    Except Fault Prepared :=
  if isRefusal sql then .ok (.declined sql)
  else do
    let outcome ← checkQuery parser s.rowCap tables sql
    if !outcome.isValid then return .rejected outcome
    else
      let current := outcome.finalSql sql
      if s.enforceColumnCheck then
        let report := checkColumns tables current
        if !report.isValid then return .unknownColumns outcome report
        else return .ready (← finish s tables question current) outcome (some report)
      else return .ready (← finish s tables question current) outcome none

/-- What comes of a query. -/
inductive Answer
  | turnedDown (p : Prepared)
  | executed (sql : Text) (p : Prepared) (e : Execution)

namespace Answer

def prepared : Answer → Prepared
  | .turnedDown p | .executed _ p _ => p

def execution? : Answer → Option Execution
  | .turnedDown _ => none
  | .executed _ _ e => some e

/-- Whether there are rows to answer with, perhaps none. -/
def isSuccess : Answer → Bool
  | .turnedDown _ => false
  | .executed _ _ e => e.isSuccess

def sql? : Answer → Option Text
  | .turnedDown _ => none
  | .executed sql _ _ => some sql

/-- The refusal that the question is answered with. -/
def error? : Answer → Option Text
  | .turnedDown p => p.error?
  | .executed _ _ e => e.error?.map refusal

/-- The kind of error of a query that came to nothing. -/
def errorKind? : Answer → Option ErrorKind
  | .turnedDown p => p.errorKind?
  | .executed _ _ e => e.errorKind?

end Answer

/-- Prepares a query and, if it is ready, puts it to `execute`, whatever that does. -/
def answerWith {m : Type → Type} [Monad m] (execute : Text → m Execution) (parser : Parser)
    (s : Settings) (tables : List Table) (question sql : Text) : m (Except Fault Answer) :=
  match prepare parser s tables question sql with
  | .error f => pure (.error f)
  | .ok p =>
    match p.sql? with
    | none => pure (.ok (.turnedDown p))
    | some ready => do
      let e ← execute ready
      return .ok (.executed ready p e)

/-- Answers a question with an executor, if there is one, and a database that replies in a certain
way; beside the answer, what the database saw. -/
def answer (parser : Parser) (s : Settings) (tables : List Table) (executor : Option Executor)
    (reply : Reply) (question sql : Text) : Except Fault (Answer × Seen) :=
  match executor with
  | none => .error .noExecutor
  | some x =>
    let request (ready : Text) : StateM Seen Execution := fun _ => x.execute ready reply
    match (answerWith request parser s tables question sql).run .nothing with
    | (.ok a, seen) => .ok (a, seen)
    | (.error f, _) => .error f

end QueryGate
