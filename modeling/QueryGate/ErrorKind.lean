import QueryGate.Datum
import QueryGate.Fault

/-!
# Kinds of error

Which stage turned a query down.
-/

namespace QueryGate

/-- The stage that turned a query down. -/
inductive ErrorKind
  | syntaxSafety
  | structural
  | schemaResolution
  | columnResolution
  | executionTimeout
  | executionDriverError
deriving DecidableEq, Repr

namespace ErrorKind

/-- Every kind, in the order of the stages. -/
def all : List ErrorKind :=
  [.syntaxSafety, .structural, .schemaResolution, .columnResolution, .executionTimeout,
    .executionDriverError]

def label : ErrorKind → Text
  | .syntaxSafety => "syntax_safety"
  | .structural => "structural"
  | .schemaResolution => "schema_resolution"
  | .columnResolution => "column_resolution"
  | .executionTimeout => "execution_timeout"
  | .executionDriverError => "execution_driver_error"

def title (k : ErrorKind) : Text := k.label.map Char.toUpper

/-- Whether other SQL for the same question may be tried: unsafe SQL is never tried again. -/
def isRetryable (k : ErrorKind) : Bool := k != .syntaxSafety

/-- The kind that a value is the word for. -/
def ofDatum (d : Datum) : Except Fault ErrorKind :=
  match all.find? fun k => k.label == d.plainText with
  | some k => match d with
    | .text _ => .ok k
    | _ => .error (.unknownKind d.shown)
  | none => .error (.unknownKind d.shown)

end ErrorKind

end QueryGate
