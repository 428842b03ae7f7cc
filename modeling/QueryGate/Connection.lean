import QueryGate.Settings

/-!
# Connections

How a database is connected to under given settings: the size of the pool of connections, how long
a query waits for one, and what the driver of the database is told.
-/

namespace QueryGate

/-- A bounded pool of connections. -/
structure PoolOptions where
  size : Nat
  maxOverflow : Nat
  /-- How many seconds a query waits for a connection. -/
  timeout : Binary64
  /-- After how many seconds an idle connection is replaced. -/
  recycle : Int

/-- What the driver of the database is told. -/
inductive DriverOptions
  | nothing
  /-- A connection may be used by another thread than the one that opened it. -/
  | anyThread
  /-- How many seconds to wait for a connection, and a limit that the server enforces. -/
  | serverLimit (connectTimeout : Int) (options : Text)

/-- How a database is connected to. A connection is tested before each use. -/
structure EngineOptions where
  backend : Text
  pool : Option PoolOptions
  driver : DriverOptions

namespace EngineOptions

/-- The kind of database that an address names: its scheme without a driver. -/
def backendOf (url : Text) : Text := url.takeWhile fun c => c != '+' && c != ':'

def poolFor (s : Settings) : PoolOptions :=
  { size := s.poolMaxSize.value
    maxOverflow := 0
    timeout := Settings.seconds s.poolAcquireTimeoutMs
    recycle := max 1 (Settings.seconds s.poolIdleTimeoutMs).toRat.floor }

/-- The limit that the server enforces. -/
def serverLimitFor (s : Settings) : DriverOptions :=
  .serverLimit (max 1 (Settings.seconds s.poolAcquireTimeoutMs).toRat.ceil)
    ("-c statement_timeout=" ++ Text.ofNat s.maxExecutionTimeMs.value)

/-- The options for an address, or else for the one in the settings. -/
def of (url : Option Text) (s : Settings) : Except Fault EngineOptions :=
  match url.filter (!·.isEmpty) <|> s.databaseUrl.filter (!·.isEmpty) with
  | none => .error .noDatabase
  | some url =>
    let backend := backendOf url
    if backend = "sqlite" then .ok ⟨backend, none, .anyThread⟩
    else if backend = "postgresql" then .ok ⟨backend, some (poolFor s), serverLimitFor s⟩
    else .ok ⟨backend, some (poolFor s), .nothing⟩

end EngineOptions

end QueryGate
