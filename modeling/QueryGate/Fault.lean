import QueryGate.Text.Numeral

/-!
# Faults

A query that is rejected is an ordinary answer. A fault is what keeps an answer from being given at
all: settings that make no sense, a number that cannot be read, a value that has no text form, a
text that is too much for a parser.
-/

namespace QueryGate

/-- Why no answer could be given. -/
inductive Fault
  /-- A numeral in the SQL that cannot be converted, or a number that cannot be written into it. -/
  | numeral (error : NumeralError)
  /-- A row cap that is no positive whole number, as it is shown. -/
  | rowCap (shown : Text)
  /-- A setting that is no positive whole number, as it is shown. -/
  | limit (setting shown : Text)
  /-- An environment variable that holds no whole number, as it is shown. -/
  | notInteger (name shown : Text)
  /-- An environment variable that holds neither yes nor no, as it is shown. -/
  | notFlag (name shown : Text)
  | noDatabase
  /-- A schema that belongs to the database system. -/
  | systemSchema (name : Text)
  | noExecutor
  /-- No kind of error has this name, as it is shown. -/
  | unknownKind (shown : Text)
  /-- A decimal number with more digits than an operation keeps. -/
  | decimalTooLong
  /-- A key that an object cannot have, by its kind. -/
  | badKey (kind : Text)
  /-- A field that is missing, as it is shown. -/
  | missingField (shown : Text)
  /-- A value, by its kind, in place of a mapping. -/
  | notMapping (kind : Text)
  /-- A value, by its kind, in place of a list. -/
  | notList (kind : Text)
  /-- A text that cannot be parsed, with what the parser says. -/
  | unparsed (message : Text)
  /-- Groups of SQL inside one another, more than can be walked through. -/
  | tooDeep
deriving DecidableEq, Repr

def Fault.message : Fault → Text
  | .numeral error => error.message
  | .rowCap shown => "max_rows must be a positive integer, got " ++ shown
  | .limit setting shown => setting ++ " must be a positive integer, got " ++ shown
  | .notInteger name shown => name ++ " must be an integer, got " ++ shown
  | .notFlag name shown => name ++ " must be a boolean flag, got " ++ shown
  | .noDatabase => "DATABASE_URL is not set"
  | .systemSchema name => "Refusing to expose system schema '" ++ name ++ ['\'']
  | .noExecutor => "SQLGuardPipeline.run() requires an executor"
  | .unknownKind shown => shown ++ " is not a valid ErrorKind"
  | .decimalTooLong => "[<class 'decimal.InvalidOperation'>]"
  | .badKey kind => "keys must be str, int, float, bool or None, not " ++ kind
  | .missingField shown => shown
  | .notMapping kind => '\'' :: kind ++ "' object has no attribute 'items'"
  | .notList kind => '\'' :: kind ++ "' object is not iterable"
  | .unparsed message => message
  | .tooDeep => "maximum recursion depth exceeded"

/-- The number that digits stand for. -/
def readDigits (t : Text) : Except Fault Nat := (Numeral.toNat t).mapError .numeral

/-- The digits that a number is written with. -/
def writeDigits (n : Nat) : Except Fault Text := (Numeral.ofNat n).mapError .numeral

/-- The digits that an integer is written with, after a minus sign if it is negative. -/
def writeInt (n : Int) : Except Fault Text := (writeDigits n.natAbs).map fun _ => Text.ofInt n

end QueryGate
