import GraphQuery.Builder.Change
import GraphQuery.Connections

/-!
# Sessions of builder calls

A script of builder calls is a list of steps.  A step acts on the builder in
a register; the steps of a callback act on the builder the callback is
handed.  Running a script gives a session: the workspace of all builders
made, the registers, and the connections queries are run on.  A failing step
keeps what it did before it failed, and a failing step of a callback makes
the call it was passed to fail.
-/

namespace GraphQuery

/-- What sends a query to the database.  Writing calls record their values
on the builder first; `first` and the calls after it run a changed query and
leave the builder as it is. -/
inductive Run where
  | execute
  | get (projections : List String)
  | returnAll
  | returnRaw (texts : List String)
  | set (values : List (String × Value))
  | setLabels (labels : List String)
  | create (values : List (String × Value))
  | batchCreate (rows : List (List (String × Value)))
  | merge (values : List (String × Value))
  | delete (names : List String)
  | forceDelete (names : List String)
  | remove (items : List String)
  | first
  /-- The first column of the first record. -/
  | only
  | pluck (property : String)
  /-- Count rows, or the values of a property. -/
  | count (property : Option PropertyArgument) (distinct : Bool)
  | aggregate (function : String) (property : PropertyArgument)
  | percentile (function : String) (property : PropertyArgument)
      (fraction : Value)
  deriving Inhabited

/-- The aggregations that have calls of their own, with their functions. -/
def namedAggregations : List (String × String) :=
  [("average", "avg"), ("collect", "collect"), ("max", "max"),
    ("min", "min"), ("sum", "sum"),
   ("std_dev", "stdDev"), ("std_dev_p", "stdDevP")]

/-- The percentiles that have calls of their own, with their functions. -/
def namedPercentiles : List (String × String) :=
  [("percentile_cont", "percentileCont"),
    ("percentile_disc", "percentileDisc")]

/-- The column the result of an aggregation is returned in. -/
def aggregateColumn : String := "aggregate"

mutual

/-- A call of a builder, or of the connections. -/
inductive Call where
  /-- Make a new query. -/
  | start (how : QueryStart)
  /-- Make a new query from the pattern of a walk. -/
  | startFromWalk (steps : List (Pattern.WalkStep Assignment))
  | change (c : Change)
  /-- Make a sub-query to be called later. -/
  | subQuery
  | whereExists (body : Callback) (negate : Bool) (chain : String)
  | whereCount (body : Callback) (count : Value) (operator chain : String)
  | whereGroup (body : Callback) (negate : Bool) (chain : String)
  /-- Call the sub-query a callback builds. -/
  | calling (body : Callback)
  /-- Call the sub-query in a register. -/
  | callingRegister (register : String)
  /-- Unite with the query a callback starts and builds. -/
  | unioning (how : QueryStart) (body : Callback)
  /-- Unite with the query in a register. -/
  | unioningRegister (register : String)
  /-- Unite with nothing. -/
  | unioningNothing
  /-- Attach what is in a register for running the query. -/
  | attach (register : String)
  | toText (kind : QueryKind)
  | toClauses (kind : QueryKind)
  /-- The text together with the parameters. -/
  | build (kind : QueryKind)
  | run (r : Run)
  | connection (c : ConnectionCall)
  /-- A call there is not. -/
  | unknown

/-- What a call does with the builder it makes: the steps to take on it and
the register it is kept in. -/
inductive Callback where
  | mk (steps : List Step) (register : Option String)

/-- A call by its name, with the register of what it is made on and of what
it makes. -/
inductive Step where
  | mk (method : String) (call : Call) (on : Option String)
      (into : Option String)

end

instance : Inhabited Call := ⟨.unknown⟩

instance : Inhabited Callback := ⟨.mk [] none⟩

instance : Inhabited Step := ⟨.mk "" .unknown none none⟩

/-- What a call is answered with. -/
inductive Reply where
  | nothing
  | text (s : String)
  | clauses (clauses : List Clause)
  | built (text : String) (parameters : List (String × Value))
  | result (r : QueryResult)
  | value (v : Value)
  | connection (a : ConnectionAnswer)
  deriving Inhabited

/-- What a register holds. -/
inductive Register where
  | builder (b : BuilderId)
  | connections
  deriving DecidableEq, Repr, Inhabited

/-- The state a script is run in. -/
structure Session where
  workspace : Workspace := {}
  registers : List (String × Register) := []
  connections : Connections := { default := "" }
  deriving Inhabited

namespace Session

/-- The register of the connections. -/
def connectionsRegister : String := "ctx"

/-- The register a query is kept in unless another one is named. -/
def queryRegister : String := "q"

/-- The register a sub-query is kept in unless another one is named. -/
def subQueryRegister : String := "sub"

/-- A session without connections. -/
def ofSettings (settings : Settings) :
    Session := { workspace := { settings } }

/-- A session with connections. -/
def withConnections (settings : Settings) (connections : Connections) :
    Session :=
  { workspace := { settings }
    registers := [(connectionsRegister, .connections)]
    connections }

/-- The builder a register holds. -/
def builder? (s : Session) (register : String) : Option BuilderId :=
  match s.registers.lookup register with
  | some (.builder b) => some b
  | _ => none

end Session

/-- A step in a session, which keeps what was done before a failure. -/
abbrev Acting (α : Type) := ExceptT Fault (StateM Session) α

namespace Acting

/-- Take a step in the workspace. -/
def build {α : Type} (action : Building α) : Acting α := do
  let s ← get
  let (outcome, workspace) := action.run.run s.workspace
  set { s with workspace }
  outcome

/-- Take a step on the connections; what it logs goes to the log of the
workspace. -/
def connect {α : Type} (action : Connecting α) : Acting α := do
  let s ← get
  let (outcome, connections) :=
    action.run.run { s.connections with log := [] }
  set { s with
    workspace :=
  { s.workspace with log := s.workspace.log ++ connections.log }
    connections := { connections with log := [] } }
  outcome

/-- Keep something in a register. -/
def keep (register : String) (content : Register) : Acting Unit :=
  modify fun s =>
    { s with registers := putEntry register content s.registers }

/-- The content of a register. -/
def lookup (register : String) : Acting Register := do
  match (← get).registers.lookup register with
  | some content => return content
  | none => throw (.noSuchBuilder register)

/-- Attach what is in a register to a builder. -/
def attach (b : BuilderId) (register : String) : Acting Unit := do
  let runner : Runner := match ← lookup register with
    | .connections => .connections
    | .builder _ => .builder
  build (Building.amend b fun builder =>
    { builder with runner := some runner })

/-- Call a sub-query. -/
def callSubQuery (b inner : BuilderId) : Acting Unit :=
  build (Building.edit b fun body =>
    { body with subQueries := body.subQueries ++ [inner] })

/-- Call the sub-query in a register: one that was made from a query with
the same parameters. -/
def callRegister (b : BuilderId) (register : String) : Acting Unit := do
  match ← lookup register with
  | .connections => throw .notASubQuery
  | .builder inner =>
    let caller ← build (Building.builder b)
    let called ← build (Building.builder inner)
    if called.whole then throw .notASubQuery
    if called.stack != caller.stack then throw .foreignSubQuery
    callSubQuery b inner

/-- Unite a query with a second one.  One that has bound no parameters yet
binds them with the first query from now on. -/
def unite (b second : BuilderId) : Acting Unit := do
  let one ← build (Building.builder b)
  let other ← build (Building.builder second)
  if other.stack != one.stack then
    if ((← get).workspace.stack other.stack).size > 0 then throw .unionSeparate
    build (Building.amend second fun builder =>
      { builder with stack := one.stack })
  build (Building.edit b fun body => { body with union := some second })

/-- Unite a query with the one in a register. -/
def uniteRegister (b : BuilderId) (register : String) : Acting Unit := do
  match ← lookup register with
  | .connections => throw .notAQuery
  | .builder second => unite b second

/-- Compile a query and send it to the database. -/
def send (b : BuilderId) (kind : QueryKind) (operation : String)
    (change : Content → Content := id) : Acting QueryResult := do
  let builder ← build (Building.builder b)
  match builder.runner with
  | none => throw (.notAttached operation)
  | some runner => do
    let clauses ← build (Building.compile b kind change)
    let parameters := ((← get).workspace.stackOf b).entries
    match runner with
    | .connections =>
      connect (Connecting.runQuery (clausesText clauses)
        parameters builder.connection)
    | .builder => throw .notARunner

/-- Change a copy of a query, compile it and send it to the database. -/
def sendCopy (b : BuilderId) (kind : QueryKind) (operation : String)
    (change : Content → Content) : Acting QueryResult := do
  build (Building.copy b)
  send b kind operation change

/-- Return an aggregation of a query, under a name of its own. -/
def aggregate (b : BuilderId) (function : String)
    (arguments : List Expression) :
    Acting Value := do
  let result ← sendCopy b .read function fun q =>
    { q with returns := [.aliased (.call function arguments) aggregateColumn]
      }
  match (← result.first).lookup aggregateColumn with
  | some value => return value
  | none => throw (.missingColumn aggregateColumn)

/-- The first record of a query. -/
def first (b : BuilderId) : Acting Record := do
  (← sendCopy b .full "first" fun q => { q with limit := some 1 }).first

/-- Change a builder, then run it. -/
def changeAndSend (b : BuilderId) (change : Change) (kind : QueryKind)
    (operation : String) :
    Acting Reply := do
  build (change.perform b)
  return .result (← send b kind operation)

/-- Run a query. -/
def runQuery (b : BuilderId) : Run → Acting Reply
  | .execute => do return .result (← send b .full "execute")
  | .get projections => changeAndSend b (.return_ projections) .read "get"
  | .returnAll => changeAndSend b .returnAll .read "return_all"
  | .returnRaw texts => changeAndSend b (.returnRaw texts) .read "return_raw"
  | .set values => changeAndSend b (.setMany values) .set "set"
  | .setLabels labels => changeAndSend b (.setLabels labels) .set "set"
  | .create values =>
    if values.isEmpty then do return .result (← send b .create "create")
    else changeAndSend b (.write .creating values) .create "create"
  | .batchCreate rows =>
    changeAndSend b (.writeBatch rows) .create "batch_create"
  | .merge values =>
    if values.isEmpty then do return .result (← send b .merge "merge")
    else changeAndSend b (.write .merging values) .merge "merge"
  | .delete names => changeAndSend b (.delete names) .delete "delete"
  | .forceDelete names =>
    changeAndSend b (.detachDelete names) .delete "force_delete"
  | .remove items => changeAndSend b (.remove items) .remove "remove"
  | .first => do return .value (.map (← first b))
  | .only => do return .value (QueryResult.firstColumn (← first b))
  | .pluck property => do
    let (owner, key) :=
      propertyReference (← build (Building.entry b)) property
    let result ← sendCopy b .read "pluck" fun q =>
      { q with returns := [.aliased (.property owner key) key] }
    return .value (.list (result.pluck key))
  | .count property distinct => do
    let entry ← build (Building.entry b)
    let counted := match property with
      | some argument => argument.expression entry
      | none => .raw "*"
    return .value (← aggregate b "count"
      [if distinct then .distinct counted else counted])
  | .aggregate function property => do
    let entry ← build (Building.entry b)
    return .value (← aggregate b function [property.expression entry])
  | .percentile function property fraction => do
    let parameter ← build (Building.bind b fraction)
    let entry ← build (Building.entry b)
    return .value (← aggregate b function [property.expression entry,
      parameter])

end Acting

/-- Whether a call is open to sub-queries. -/
def Call.reads : Call → Bool
  | change c => c.reads
  | subQuery | whereExists _ _ _ | whereCount _ _ _ _ | whereGroup
      _ _ _ | calling _
  | callingRegister _ => true
  | _ => false

/-- How a call that makes a new query makes it. -/
def Call.making? : Call → Option (Building BuilderId)
  | start how => some (Building.start how)
  | startFromWalk steps => some (Building.startFromWalk steps)
  | _ => none

/-- A call of the connections. -/
def Call.onConnections? : Call → Option ConnectionCall
  | connection c => some c
  | _ => none

/-- What a step acts on: what its register holds, else the builder at hand,
else the query. -/
def Step.target (current : Option BuilderId) (on : Option String) :
    Acting Register :=
  match on, current with
  | some register, _ => Acting.lookup register
  | none, some b => return .builder b
  | none, none => Acting.lookup Session.queryRegister

mutual

/-- Carry out a call on a builder.  The answer comes with the builder that
was made, if one was. -/
def Call.perform (b : BuilderId) (method : String) (into : Option String) :
    Call → Acting (Reply × Option BuilderId)
  | .change c => do
    Acting.build (c.perform b)
    return (.nothing, none)
  | .subQuery => do
    let inner ← Acting.build (Building.newSubQuery b)
    Acting.keep (into.getD Session.subQueryRegister) (.builder inner)
    return (.nothing, some inner)
  | .whereExists body negate chain => do
    let inner ← Acting.build (Building.newSubQuery b)
    body.run inner
    Acting.build (Building.whereExists b inner negate chain)
    return (.nothing, none)
  | .whereCount body count spelling chain => do
    let operator ← comparison "where_count" spelling
    let inner ← Acting.build (Building.newSubQuery b)
    body.run inner
    Acting.build (Building.whereCount b inner operator count chain)
    return (.nothing, none)
  | .whereGroup body negate chain => do
    let inner ← Acting.build (Building.newSubQuery b)
    body.run inner
    Acting.build (Building.whereGroup b inner negate chain)
    return (.nothing, none)
  | .calling body => do
    let inner ← Acting.build (Building.newSubQuery b)
    body.run inner
    Acting.callSubQuery b inner
    return (.nothing, none)
  | .callingRegister register => do
    Acting.callRegister b register
    return (.nothing, none)
  | .unioning how body => do
    let outer ← Acting.build (Building.builder b)
    let second ← Acting.build
        (Building.startWith outer.stack outer.sequence how)
    body.run second
    Acting.unite b second
    return (.nothing, none)
  | .unioningRegister register => do
    Acting.uniteRegister b register
    return (.nothing, none)
  | .unioningNothing => throw .unionMissing
  | .attach register => do
    Acting.attach b register
    return (.nothing, none)
  | .toText kind => do
    return (.text (clausesText (← Acting.build (Building.compile b kind))),
      none)
  | .toClauses kind => do
    return (.clauses (← Acting.build (Building.compile b kind)), none)
  | .build kind => do
    let clauses ← Acting.build (Building.compile b kind)
    return (.built (clausesText clauses)
      ((← get).workspace.stackOf b).entries, none)
  | .run r => do return (← Acting.runQuery b r, none)
  | .start _ => throw (.noSuchMethod method)
  | .startFromWalk _ => throw (.noSuchMethod method)
  | .connection _ => throw (.noSuchMethod method)
  | .unknown => throw (.noSuchMethod method)

/-- Take the steps of a callback on the builder it is handed. -/
def Callback.run (b : BuilderId) : Callback → Acting Unit
  | .mk steps register => do
    match register with
    | some name => Acting.keep name (.builder b)
    | none => pure ()
    Step.runAll b steps

/-- Take a step.  The answer comes with the builder the step leaves one
with: the new one if it made one, else the one it acted on. -/
def Step.run (current : Option BuilderId) :
    Step → Acting (Reply × Option BuilderId)
  | .mk method call on into => do
    match on, call.making? with
    | none, some making =>
      let made ← Acting.build making
      Acting.keep (into.getD Session.queryRegister) (.builder made)
      return (.nothing, some made)
    | _, _ =>
      match ← Step.target current on with
      | .connections =>
        match call.onConnections? with
        | some c => return (.connection (← Acting.connect c.perform), none)
        | none => throw (.noSuchMethod method)
      | .builder b =>
        let builder ← Acting.build (Building.builder b)
        if !builder.whole && !call.reads then throw (.noSuchMethod method)
        let (reply, made) ← call.perform b method into
        return (reply, made <|> some b)

/-- Take steps on a builder until one fails. -/
def Step.runAll (b : BuilderId) : List Step → Acting Unit
  | [] => return ()
  | step :: rest => do
    let _ ← step.run (some b)
    Step.runAll b rest

end

/-- What a step of a script is answered with. -/
structure StepOutcome where
  reply : Except Fault Reply
  /-- The builder the step leaves one with. -/
  builder : Option BuilderId
  /-- What was logged. -/
  log : List LogEvent
  /-- What the drivers saw, with their labels. -/
  events : List (String × DriverEvent)

/-- The register a step is about, even if it fails. -/
def Step.register : Step → String
  | .mk _ _ on _ => on.getD Session.queryRegister

/-- Take a step of a script. -/
def Session.step (s : Session) (step : Step) : StepOutcome × Session :=
  let seen := s.connections.events.length
  let (outcome, after) := (step.run none).run.run
    { s with workspace := { s.workspace with log := [] } }
  ({ reply := outcome.map Prod.fst
     builder := match outcome with
       | .ok (_, b) => b
       | .error _ => after.builder? step.register
     log := after.workspace.log
     events := (after.connections.events.drop seen).map fun (driver, event) =>
       (after.connections.labelOf driver, event) }, after)

/-- The session a script leads to. -/
def Session.after (s : Session) (script : List Step) : Session :=
  script.foldl (fun s step => (s.step step).2) s

/-- What the steps of a script are answered with. -/
def Session.outcomes (s : Session) : List Step → List StepOutcome
  | [] => []
  | step :: rest => (s.step step).1 :: (s.step step).2.outcomes rest

end GraphQuery
