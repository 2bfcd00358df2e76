import GraphQuery.Entries
import GraphQuery.Fault
import GraphQuery.Log
import GraphQuery.QueryResult
import GraphQuery.Settings

/-!
# Connections

The drivers of an application, each registered under the name of a
connection, and the transactions bound to the connections.  A query runs in
the transaction bound to its connection, or else in a session of its own.
Drivers are known by what they do: every call of a driver is an event, which
the driver may answer with a failure depending on what happened to it
before.
-/

namespace GraphQuery

/-- A call of a driver.  Sessions are numbered from 1 for every driver. -/
inductive DriverEvent where
  | session (n : Nat) (database : Option String)
  | run (n : Nat) (query : String) (parameters : List (String × Value))
  | begin (n : Nat)
  | runInTransaction (n : Nat) (query : String)
      (parameters : List (String × Value))
  | commit (n : Nat)
  | rollback (n : Nat)
  | closeSession (n : Nat)
  | verify
  | close
  /-- The reading of the records of an answer. -/
  | data
  deriving Inhabited

/-- The name of a call of a driver. -/
def DriverEvent.name : DriverEvent → String
  | session _ _ => "session"
  | run _ _ _ => "run"
  | begin _ => "begin"
  | runInTransaction _ _ _ => "tx_run"
  | commit _ => "commit"
  | rollback _ => "rollback"
  | closeSession _ => "session_close"
  | verify => "verify"
  | close => "close"
  | data => "data"

/-- Whether an event opens a session. -/
def DriverEvent.opensSession : DriverEvent → Bool
  | session _ _ => true
  | _ => false

/-- A driver: what it answers every query with, and how it fails. -/
structure Driver where
  label : String
  records : List Record := []
  /-- The failure a call is answered with, given the calls before it. -/
  fails : List DriverEvent → DriverEvent → Option DriverFailure :=
    fun _ _ => none
  deriving Inhabited

/-- A driver that always fails in the calls of the given names. -/
def Driver.failing (label : String) (records : List Record)
    (failures : List (String × DriverFailure)) : Driver :=
  { label, records, fails := fun _ event => failures.lookup event.name }

/-- A transaction bound to a connection: its driver and the number of its
session. -/
structure BoundTransaction where
  driver : Nat
  session : Nat
  deriving DecidableEq, Repr, Inhabited

/-- Drivers by connection, the transactions bound, and what has happened. -/
structure Connections where
  drivers : Array Driver := #[]
  /-- The driver of every connection, in the order of registration. -/
  registered : List (String × Nat) := []
  default : String
  database : Option String := none
  /-- The transactions bound, in the order they began. -/
  transactions : List (String × BoundTransaction) := []
  /-- All calls of drivers, in order. -/
  events : List (Nat × DriverEvent) := []
  log : List LogEvent := []
  deriving Inhabited

/-- A step on connections, which keeps what was done before a failure. -/
abbrev Connecting (α : Type) := ExceptT Fault (StateM Connections) α

namespace Connections

/-- Connections to the given drivers.  Without a default connection that of
the settings is taken. -/
def ofDrivers (drivers : List (String × Driver)) (default : Option String)
    (database : Option String) (settings : Settings) : Connections :=
  { drivers := (drivers.map Prod.snd).toArray
    registered := putEntries ((drivers.map Prod.fst).zipIdx) []
    default := match default with
      | some connection =>
        if connection.isEmpty then settings.defaultConnection else connection
      | none => settings.defaultConnection
    database }

/-- The connection meant by an argument. -/
def resolve (c : Connections) (connection : Option String) : String :=
  match connection with
  | some name => if name.isEmpty then c.default else name
  | none => c.default

/-- What has happened to a driver. -/
def history (c : Connections) (driver : Nat) : List DriverEvent :=
  (c.events.filter fun event => event.1 == driver).map Prod.snd

/-- The number of the next session of a driver. -/
def nextSession (c : Connections) (driver : Nat) : Nat :=
  ((c.history driver).filter DriverEvent.opensSession).length + 1

/-- The failure the next call of a driver is answered with. -/
def failure? (c : Connections) (driver : Nat) (event : DriverEvent) :
    Option DriverFailure :=
  c.drivers[driver]?.bind fun d => d.fails (c.history driver) event

/-- The records of a driver. -/
def recordsOf (c : Connections) (driver : Nat) : List Record :=
  match c.drivers[driver]? with
  | some d => d.records
  | none => []

/-- The label of a driver. -/
def labelOf (c : Connections) (driver : Nat) : String :=
  match c.drivers[driver]? with
  | some d => d.label
  | none => ""

end Connections

namespace Connecting

/-- The connection meant by an argument. -/
def resolve (connection : Option String) : Connecting String := do
  return (← get).resolve connection

/-- Log an event about a connection. -/
def log (level : Severity) (event : String)
    (fields : List (String × Value)) : Connecting Unit :=
  modify fun c => { c with log := c.log ++ [{ level, event, fields }] }

/-- Call a driver. -/
def act (driver : Nat) (event : DriverEvent) : Connecting Unit := do
  let c ← get
  let failure := c.failure? driver event
  set { c with events := c.events ++ [(driver, event)] }
  match failure with
  | some failure => throw (.driver failure)
  | none => return ()

/-- Read the records of an answer.  The records come with the answer to a
query that has just been run, so where reading them succeeds the driver is
not called again, and nothing is added to its history; a failure to read
them is an event of its own. -/
def collect (driver : Nat) : Connecting QueryResult := do
  let c ← get
  if (c.failure? driver .data).isSome then act driver .data
  return { records := c.recordsOf driver }

/-- The driver registered for a connection. -/
def driver (connection : Option String) : Connecting Nat := do
  let c ← get
  let connection := c.resolve connection
  match c.registered.lookup connection with
  | some driver => return driver
  | none => throw (.unknownConnection connection (c.registered.map Prod.fst))

/-- Open a session and answer with its number. -/
def openSession (driver : Nat) : Connecting Nat := do
  let c ← get
  let n := c.nextSession driver
  act driver (.session n c.database)
  return n

/-- Do something with a session and close it, whatever happens.  A failure
to close it takes the place of an earlier one. -/
def closing {α : Type} (driver session : Nat) (body : Connecting α) :
    Connecting α := do
  let outcome : Except Fault α ← ExceptT.lift body.run
  act driver (.closeSession session)
  outcome

/-- Turn what the database itself answers a query with into a failed query. -/
def explaining {α : Type} (connection query : String)
    (parameterNames : List String) (body : Connecting α) : Connecting α :=
  tryCatch body fun fault =>
    match fault with
    | .driver (.service message) =>
      throw (.queryFailed connection query parameterNames message)
    | other => throw other

/-- Log an error on its way out of a function. -/
def logging {α : Type} (function : String) (body : Connecting α) :
    Connecting α :=
  tryCatch body fun fault => do
    modify fun c => { c with log := c.log ++
      [LogEvent.failure function .error fault.report] }
    throw fault

/-- Run a query in the transaction bound to its connection, or in a session
of its own. -/
def runQuery (query : String) (parameters : List (String × Value))
    (connection : Option String) :
    Connecting QueryResult :=
  logging "run" do
    let connection ← resolve connection
    let names := (parameters.map Prod.fst).mergeSort fun a b => decide (a ≤ b)
    log .debug "Executing Neo4j query"
      [("connection", .text connection), ("query", .text query),
        ("parameter_names", .texts names)]
    explaining connection query names do
      match (← get).transactions.lookup connection with
      | some bound =>
        act bound.driver (.runInTransaction bound.session query parameters)
        collect bound.driver
      | none =>
        let driver ← driver (some connection)
        let session ← openSession driver
        closing driver session do
          act driver (.run session query parameters)
          collect driver

/-- Begin a transaction and bind it to a connection. -/
def beginTransaction (connection : Option String) : Connecting Unit := do
  let connection ← resolve connection
  if ((← get).transactions.lookup connection).isSome then
    throw (.transactionBound connection)
  let driver ← driver (some connection)
  let session ← openSession driver
  tryCatch (act driver (.begin session)) fun fault => do
    act driver (.closeSession session)
    throw fault
  modify fun c => { c with transactions := c.transactions ++
    [(connection, ⟨driver, session⟩)] }
  log .debug "Began transaction" [("connection", .text connection)]

/-- Release the transaction bound to a connection. -/
def unbind (connection operation : String) : Connecting BoundTransaction := do
  let c ← get
  match c.transactions.lookup connection with
  | some bound =>
    set { c with transactions := dropEntry connection c.transactions }
    return bound
  | none => throw (.noTransaction connection operation)

/-- Commit the transaction bound to a connection and close its session. -/
def commitTransaction (connection : Option String) : Connecting Unit := do
  let connection ← resolve connection
  let bound ← unbind connection "commit_transaction"
  closing bound.driver bound.session
    (act bound.driver (.commit bound.session))
  log .debug "Committed transaction" [("connection", .text connection)]

/-- Roll back the transaction bound to a connection and close its session. -/
def rollbackTransaction (connection : Option String) : Connecting Unit := do
  let connection ← resolve connection
  let bound ← unbind connection "rollback_transaction"
  closing bound.driver bound.session
    (act bound.driver (.rollback bound.session))
  log .debug "Rolled back transaction" [("connection", .text connection)]

/-- Whether a transaction is bound to a connection. -/
def inTransaction (connection : Option String) : Connecting Bool := do
  let connection ← resolve connection
  return ((← get).transactions.lookup connection).isSome

/-- Check that the database of a connection can be reached. -/
def verifyConnectivity (connection : Option String) : Connecting Unit := do
  act (← driver connection) .verify
  log .info "Connected to Neo4j"
    [("connection", .text (← resolve connection))]

/-- Register a driver under the name of a connection. -/
def addConnection (connection : String) (driver : Driver) : Connecting Unit :=
  modify fun c => { c with
    drivers := c.drivers.push driver
    registered := putEntry connection c.drivers.size c.registered }

/-- Roll back the transactions bound, then close every driver. -/
def close : Connecting Unit := do
  (← get).transactions.forM fun (connection, _) =>
    rollbackTransaction (some connection)
  (← get).registered.forM fun (connection, driver) => do
    act driver .close
    log .info "Closed Neo4j connection" [("connection", .text connection)]

end Connecting

/-- A call of the connections. -/
inductive ConnectionCall where
  | run (query : String) (parameters : List (String × Value))
      (connection : Option String)
  | beginTransaction (connection : Option String)
  | commitTransaction (connection : Option String)
  | rollbackTransaction (connection : Option String)
  | inTransaction (connection : Option String)
  | verifyConnectivity (connection : Option String)
  | driver (connection : Option String)
  | defaultConnection
  | addConnection (connection : String) (driver : Driver)
  | close
  /-- Enter a block at whose end the connections are closed. -/
  | enter
  /-- Leave the block. -/
  | leave
  deriving Inhabited

/-- What a call of the connections is answered with. -/
inductive ConnectionAnswer where
  | nothing
  | result (r : QueryResult)
  | bool (b : Bool)
  | text (s : String)
  deriving Inhabited

/-- Carry out a call of the connections. -/
def ConnectionCall.perform : ConnectionCall → Connecting ConnectionAnswer
  | run query parameters connection => do
    return .result (← Connecting.runQuery query parameters connection)
  | beginTransaction connection => do
    Connecting.beginTransaction connection
    return .nothing
  | commitTransaction connection => do
    Connecting.commitTransaction connection
    return .nothing
  | rollbackTransaction connection => do
    Connecting.rollbackTransaction connection
    return .nothing
  | inTransaction
      connection => do return .bool (← Connecting.inTransaction connection)
  | verifyConnectivity connection => do
    Connecting.verifyConnectivity connection
    return .nothing
  | driver connection => do
    let found ← Connecting.driver connection
    return .text ((← get).labelOf found)
  | defaultConnection => do return .text (← get).default
  | addConnection connection added => do
    Connecting.addConnection connection added
    return .nothing
  | close => do
    Connecting.close
    return .nothing
  | enter => return .nothing
  | leave => do
    Connecting.close
    return .nothing

/-- Connections made from settings: one driver under the default connection,
and the event of its making.  The default is that of the settings `ambient`
if the given ones name none. -/
def Connections.ofSettings (settings ambient : Settings) (driver : Driver) :
    Connections :=
  { Connections.ofDrivers [(settings.defaultConnection, driver)]
    (some settings.defaultConnection)
      settings.database ambient with
    log :=
      [{ level := .info
         event := "Created Neo4j driver"
         fields := [("uri", .text settings.uri),
           ("connection", .text settings.defaultConnection)] }] }

end GraphQuery
