import QueryGate.Datum
import QueryGate.Fault
import QueryGate.Gate.RowCap
import QueryGate.Text.Case

/-!
# Settings

The bounds under which queries are checked and run. Each bound is a positive whole number; the
first that is not is reported. Bounds come from plain data by name, or from environment variables
under a prefix.
-/

namespace QueryGate

/-- A positive whole number. -/
structure Limit where
  value : Nat
  value_pos : 0 < value

def Limit.of (n : Nat) (h : 0 < n := by decide) : Limit := ⟨n, h⟩

/-- The bounds under which queries are checked and run. -/
structure Settings where
  maxRows : Limit
  maxExecutionTimeMs : Limit
  poolMaxSize : Limit
  poolAcquireTimeoutMs : Limit
  poolIdleTimeoutMs : Limit
  maxResultBytes : Limit
  enforceColumnCheck : Bool
  databaseUrl : Option Text

namespace Settings

def standard : Settings where
  maxRows := Limit.of 5000
  maxExecutionTimeMs := Limit.of 5000
  poolMaxSize := Limit.of 5
  poolAcquireTimeoutMs := Limit.of 2000
  poolIdleTimeoutMs := Limit.of 30000
  maxResultBytes := Limit.of 10000000
  enforceColumnCheck := true
  databaseUrl := none

def rowCap (s : Settings) : RowCap := RowCap.ofNat s.maxRows.value s.maxRows.value_pos

/-! ## From plain data -/

/-- The limit that a field gives. -/
def limitField (name : Text) (fallback : Limit) (fields : List (Text × Datum)) :
    Except Fault Limit :=
  match Datum.entry? name fields with
  | none => .ok fallback
  | some (.int (.ofNat (n + 1))) => .ok ⟨n + 1, n.succ_pos⟩
  | some d => .error (.limit name d.shown)

/-- The settings that fields give; a field that is absent keeps its standard value. -/
def ofFields (fields : List (Text × Datum)) : Except Fault Settings := do
  return {
    maxRows := ← limitField "max_rows" standard.maxRows fields
    maxExecutionTimeMs := ← limitField "max_execution_time_ms" standard.maxExecutionTimeMs fields
    poolMaxSize := ← limitField "pool_max_size" standard.poolMaxSize fields
    poolAcquireTimeoutMs :=
      ← limitField "pool_acquire_timeout_ms" standard.poolAcquireTimeoutMs fields
    poolIdleTimeoutMs := ← limitField "pool_idle_timeout_ms" standard.poolIdleTimeoutMs fields
    maxResultBytes := ← limitField "max_result_bytes" standard.maxResultBytes fields
    enforceColumnCheck :=
      ((Datum.entry? "enforce_column_check" fields).map Datum.holds).getD
        standard.enforceColumnCheck
    databaseUrl := match Datum.entry? "database_url" fields with
      | some (.text url) => some url
      | _ => standard.databaseUrl }

/-! ## From the environment -/

/-- What the names of the variables begin with. -/
def variablePrefix : Text := "SQLGUARD_"

abbrev Environment := List (Text × Text)

/-- The content of a variable, unless it is absent or blank. -/
def content? (env : Environment) (name : Text) : Option Text :=
  ((env.find? fun e => e.1 == name).map (·.2)).filter (!allBlank ·)

/-- The field that a variable with a whole number gives, if it is set. -/
def numberField (env : Environment) (setting : Text) : Except Fault (List (Text × Datum)) :=
  let name := variablePrefix ++ setting.map Char.toUpper
  match content? env name with
  | none => .ok []
  | some raw =>
    match Numeral.toInt raw with
    | .ok n => .ok [(setting, .int n)]
    | .error _ => .error (.notInteger name (quoted raw))

def yesWords : List Text := ["1", "true", "yes", "on"]

def noWords : List Text := ["0", "false", "no", "off"]

/-- The field that a variable with a yes or no gives, if it is set. -/
def flagField (env : Environment) (setting : Text) : Except Fault (List (Text × Datum)) :=
  let name := variablePrefix ++ setting.map Char.toUpper
  match content? env name with
  | none => .ok []
  | some raw =>
    let word := lower (trim raw)
    if yesWords.contains word then .ok [(setting, .bool true)]
    else if noWords.contains word then .ok [(setting, .bool false)]
    else .error (.notFlag name (quoted raw))

def numberSettings : List Text :=
  Text.ofStrings ["max_rows", "max_execution_time_ms", "pool_max_size", "pool_acquire_timeout_ms",
    "pool_idle_timeout_ms", "max_result_bytes"]

/-- The field that the variable with the address of a database gives, unless it is empty. -/
def urlField (env : Environment) : List (Text × Datum) :=
  match env.find? fun e => e.1 == ("DATABASE_URL" : Text) with
  | some (_, url) => if url.isEmpty then [] else [("database_url", .text url)]
  | none => []

/-- The settings that an environment gives. Every variable is read before any bound is judged. -/
def ofEnvironment (env : Environment) : Except Fault Settings := do
  let numbers ← numberSettings.mapM (numberField env)
  let flag ← flagField env "enforce_column_check"
  ofFields (numbers.flatten ++ flag ++ urlField env)

/-! ## Times in seconds -/

/-- A number of milliseconds in seconds. -/
def seconds (ms : Limit) : Binary64 :=
  match Binary64.ofRatio false ms.value 1 with
  | .finite negative mantissa exponent =>
    Binary64.ofRat ((Binary64.finite negative mantissa exponent).toRat / 1000)
  | x => x

end Settings

end QueryGate
