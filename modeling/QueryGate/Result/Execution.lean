import QueryGate.ErrorKind
import QueryGate.Result.Cell
import QueryGate.Result.Statement
import QueryGate.Settings
import QueryGate.Text.Dictionary

/-!
# Execution within bounds

A statement runs under a limit of time, of rows and of size. How the database behaves is a value,
`Reply`; `execute` says what comes of it, and what the database sees of the request (`Seen`). A
failure is an outcome with a message, never a fault.
-/

namespace QueryGate

/-! ## How a database behaves -/

inductive Failure
  | poolTimeout
  | driver (message : Text)
  /-- The server stopped the statement at its own limit. -/
  | stoppedByServer
  /-- An error of the layer above the driver. -/
  | layer (message : Text)
  /-- A limit of time other than the request's own. -/
  | timeout
  | other (message : Text)
deriving DecidableEq, Repr

/-- How a connection can be told to stop. -/
inductive StopSupport
  | cancel
  | interrupt
  | both
  | neither
  /-- It has a way to stop, which fails. -/
  | failing
deriving DecidableEq, Repr

/-- What a statement returns. -/
structure RowSet where
  names : List Text
  /-- The types of the columns by number, where the driver gives any. -/
  typeCodes : List Datum
  rows : List (List Value)

/-- How a database answers a request. -/
inductive Reply
  | rows (r : RowSet)
  | noRows
  | fails (failure : Failure)
  | failsToConnect (failure : Failure)
  /-- The statement runs beyond the limit. -/
  | runsTooLong (stop : StopSupport)
  /-- No connection is free within the limit. -/
  | connectsTooLate

/-! ## What comes of a request -/

/-- How a connection was told to stop. -/
inductive Stopped
  | cancel
  | interrupt
  | failed
deriving DecidableEq, Repr

/-- What the database saw of a request. -/
structure Seen where
  statement : Option Text
  /-- How many rows were asked for. -/
  fetched : Option Nat
  committed : Bool
  stopped : Option Stopped
deriving DecidableEq, Repr

/-- A request that never reached the database. -/
def Seen.nothing : Seen := ⟨none, none, false, none⟩

structure ResultColumn where
  name : Text
  type : ColumnType
deriving DecidableEq, Repr

/-- A row by column name: of two columns with one name the later counts. -/
abbrev Row := Dictionary Cell

inductive Execution
  | finished (rows : List Row) (columns : List ResultColumn) (truncated : Bool)
  | failed (message : Text) (kind : ErrorKind)
deriving DecidableEq

namespace Execution

def isSuccess : Execution → Bool
  | .finished .. => true
  | .failed .. => false

def rows : Execution → List Row
  | .finished rows _ _ => rows
  | .failed .. => []

def columns : Execution → List ResultColumn
  | .finished _ columns _ => columns
  | .failed .. => []

def isTruncated : Execution → Bool
  | .finished _ _ truncated => truncated
  | .failed .. => false

def error? : Execution → Option Text
  | .finished .. => none
  | .failed message _ => some message

def errorKind? : Execution → Option ErrorKind
  | .finished .. => none
  | .failed _ kind => some kind

def timedOut : Execution :=
  .failed "Query execution exceeded maximum time limit." .executionTimeout

def ofFailure : Failure → Execution
  | .poolTimeout =>
    .failed "Timed out waiting for a database connection (connection pool exhausted)."
      .executionTimeout
  | .stoppedByServer | .timeout => timedOut
  | .driver message => .failed (trim message) .executionDriverError
  | .layer message => .failed message .executionDriverError
  | .other message =>
    .failed (if message.isEmpty then "Database execution error" else message) .executionDriverError

end Execution

/-! ## Rows within bounds -/

/-- The size of a row: the characters of its names and of its cells. -/
def rowSize (r : Row) : Nat := r.foldr (fun e size => e.1.length + e.2.sizeText.length + size) 0

/-- A row of a driver with its values made portable. -/
def portableRow (names : List Text) (values : List Value) : Except Fault Row := do
  let cells ← (values.take names.length).mapM Cell.ofValue
  return Dictionary.ofEntries (names.zip cells)

/-- Rows as long as their size stays within the budget, the first in any case, and whether some
were left out. -/
def rowsWithin (budget : Nat) (names : List Text) :
    (used : Nat) → (first : Bool) → List (List Value) → Except Fault (List Row × Bool)
  | _, _, [] => .ok ([], false)
  | used, first, values :: more => do
    let row ← portableRow names values
    let used := used + rowSize row
    if !first && budget < used then return ([], true)
    else
      let (rows, cut) ← rowsWithin budget names used false more
      return (row :: rows, cut)

/-- The type of each column: by number where the dialect has numbers and the driver gives one, and
else by the values. -/
def columnTypes (useCodes : Bool) (names : List Text) (codes : List Datum)
    (rows : List (List Value)) : List ResultColumn :=
  names.zipIdx.map fun (name, i) =>
    let byCode := match codes[i]? with
      | some (.int n) => if useCodes then some (ColumnType.ofNumber n) else none
      | _ => none
    ⟨name, byCode.getD (ColumnType.ofValues (rows.filterMap (·[i]?)))⟩

/-- The dialect that numbers its types. -/
def numberedDialect : Text := "postgresql"

/-- A result within the bounds on rows and size. -/
def boundedResult (s : Settings) (dialect : Text) (r : RowSet) : Except Fault Execution :=
  if r.rows.isEmpty then .ok (.finished [] [] false)
  else do
    let kept := r.rows.take s.maxRows.value
    let (rows, cut) ← rowsWithin s.maxResultBytes.value r.names 0 true kept
    return .finished rows (columnTypes (dialect == numberedDialect) r.names r.typeCodes kept)
      (cut || s.maxRows.value < r.rows.length)

/-! ## Requests -/

/-- How a connection that runs too long is stopped. -/
def StopSupport.use : StopSupport → Option Stopped
  | .cancel | .both => some .cancel
  | .interrupt => some .interrupt
  | .neither => none
  | .failing => some .failed

/-- What comes of a statement, and what the database sees of it. -/
def run (s : Settings) (dialect statement : Text) : Reply → Execution × Seen
  | .rows r =>
    let seen : Seen := ⟨some statement, some (s.maxRows.value + 1), true, none⟩
    match boundedResult s dialect r with
    | .ok e => (e, seen)
    | .error f => (Execution.ofFailure (.other f.message), seen)
  | .noRows => (.finished [] [] false, ⟨some statement, none, true, none⟩)
  | .fails f => (Execution.ofFailure f, ⟨some statement, none, false, none⟩)
  | .failsToConnect f => (Execution.ofFailure f, .nothing)
  | .runsTooLong stop => (.timedOut, ⟨some statement, none, true, stop.use⟩)
  | .connectsTooLate => (.timedOut, .nothing)

/-- A connection to a database, open or closed. -/
structure Executor where
  settings : Settings
  dialect : Text
  isClosed : Bool

namespace Executor

/-- What comes of a request, and what the database sees of it. -/
def execute (x : Executor) (sql : Text) (reply : Reply) : Execution × Seen :=
  let statement := statementToSend sql
  if statement.isEmpty then
    (.failed "No SQL statement to execute." .executionDriverError, .nothing)
  else if x.isClosed then (.failed "Executor is closed." .executionDriverError, .nothing)
  else run x.settings x.dialect statement reply

/-- The executor with its connections given up. -/
def close (x : Executor) : Executor := { x with isClosed := true }

/-- How often connections were given up: once, when the executor was first closed. -/
def disposals (x : Executor) : Nat := if x.isClosed then 1 else 0

end Executor

end QueryGate
