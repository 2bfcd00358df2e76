import GraphQuery.Proofs.Secrecy.Alike
import GraphQuery.Proofs.Secrecy.Outline

/-!
# Connections do not look at values

A driver is blind if what it fails at does not depend on the values it is
given.  Over blind drivers, a query that is run cannot be told apart from
the same query with other values: it is logged in the same way and answered
in the same way (`Connecting.alike_runQuery`).
-/

namespace GraphQuery

/-- A call of a driver without the values it is given. -/
def DriverEvent.blank : DriverEvent → DriverEvent
  | run n query parameters => .run n query (blankParameters parameters)
  | runInTransaction n query parameters =>
    .runInTransaction n query (blankParameters parameters)
  | event => event

/-- An event opens a session whatever values are sent. -/
theorem DriverEvent.opensSession_blank (event : DriverEvent) :
    event.blank.opensSession = event.opensSession := by
  cases event <;> rfl

/-- A driver that fails in the same calls whatever values it is given. -/
def Driver.Blind (d : Driver) : Prop :=
  ∀ history event, d.fails (history.map DriverEvent.blank) event.blank =
    d.fails history event

/-- A driver that always fails in the calls of the given names does not look
at values. -/
theorem Driver.blind_failing (label : String) (records : List Record)
    (failures : List (String × DriverFailure)) :
    (failing label records failures).Blind := by
  intro history event
  cases event <;> rfl

/-- Two states of connections to blind drivers are the same but for values. -/
structure Connections.Like (c d : Connections) : Prop where
  drivers : c.drivers = d.drivers
  blind : ∀ driver ∈ c.drivers, driver.Blind
  registered : c.registered = d.registered
  default : c.default = d.default
  database : c.database = d.database
  transactions : c.transactions = d.transactions
  events : c.events.map (fun event => (event.1, event.2.blank)) =
    d.events.map fun event => (event.1, event.2.blank)
  log : c.log = d.log

namespace Connections

variable {c d : Connections}

/-- A name is resolved alike. -/
theorem Like.resolve (h : c.Like d) (connection : Option String) :
    c.resolve connection = d.resolve connection := by
  unfold Connections.resolve
  rw [h.default]

/-- A history without values is that of the events without values. -/
theorem map_blank_history (c : Connections) (n : Nat) :
    (c.history n).map DriverEvent.blank =
      ((c.events.map fun event => (event.1, event.2.blank)).filter
        fun event => event.1 == n).map
        Prod.snd := by
  rw [history, List.filter_map, List.map_map, List.map_map]
  rfl

/-- Histories of like connections differ in values alone. -/
theorem Like.history (h : c.Like d) (n : Nat) :
    (c.history n).map DriverEvent.blank =
      (d.history n).map DriverEvent.blank := by
  rw [map_blank_history, map_blank_history, h.events]

/-- The next session has the same number in like connections. -/
theorem Like.nextSession (h : c.Like d) (n : Nat) :
    c.nextSession n = d.nextSession n := by
  have hopens : DriverEvent.opensSession ∘ DriverEvent.blank =
      DriverEvent.opensSession := by
    funext event
    exact event.opensSession_blank
  have hlength : ∀ c : Connections,
      ((c.history n).filter DriverEvent.opensSession).length =
      (((c.history n).map DriverEvent.blank).filter
        DriverEvent.opensSession).length := by
    intro c
    rw [List.filter_map, List.length_map, hopens]
  rw [Connections.nextSession, Connections.nextSession, hlength, h.history,
    ← hlength]

/-- A blind driver fails at the same calls. -/
theorem Like.failure? (h : c.Like d) (n : Nat) {event event' : DriverEvent}
    (hevent : event.blank = event'.blank) :
    c.failure? n event = d.failure? n event' := by
  rw [Connections.failure?, Connections.failure?, ← h.drivers]
  cases hdriver : c.drivers[n]? with
  | none => rfl
  | some driver =>
    have hblind := h.blind driver (Array.mem_of_getElem? hdriver)
    show driver.fails (c.history n) event = driver.fails (d.history n) event'
    rw [← hblind, h.history, hevent, hblind]

/-- The same records are answered with. -/
theorem Like.recordsOf (h : c.Like d) (n : Nat) :
    c.recordsOf n = d.recordsOf n := by
  rw [Connections.recordsOf, Connections.recordsOf, h.drivers]

end Connections

namespace Connecting

open Likeness

/-- Connections are compared without values. -/
def likeness : Likeness Connections where
  states := Connections.Like
  faults := Eq

/-- No fault of the connections is an excuse. -/
theorem strict (fault : Fault) : ¬ likeness.excused fault := id

/-- A name is resolved alike in a run. -/
theorem alike_resolve (connection : Option String) :
    likeness.Alike Eq (resolve connection) (resolve connection) :=
  alike_get_bind fun _ _ h => alike_pure (h.resolve connection)

/-- An event is logged alike. -/
theorem alike_log (level : Severity) (event : String)
    (fields : List (String × Value)) :
    likeness.Alike Eq (log level event fields) (log level event fields) := by
  apply alike_modify
  intro c d h
  exact { h with log := by rw [h.log] }

/-- A blind driver is called alike, whatever values are sent. -/
theorem alike_act (n : Nat) {event event' : DriverEvent}
    (hevent : event.blank = event'.blank) :
    likeness.Alike Eq (act n event) (act n event') := by
  apply alike_get_bind
  intro c d h
  have hevents : (c.events ++ [(n, event)]).map (fun event =>
      (event.1, event.2.blank)) =
      (d.events ++ [(n, event')]).map fun event =>
        (event.1, event.2.blank) := by
    rw [List.map_append, List.map_append, h.events, List.map_singleton,
      List.map_singleton, hevent]
  dsimp only
  rw [h.failure? n hevent]
  refine (alike_set ?_).bind fun _ _ _ => ?_
  · exact ⟨h.drivers, h.blind, h.registered, h.default, h.database,
      h.transactions, hevents, h.log⟩
  · split
    · exact alike_throw rfl
    · exact alike_pure rfl

/-- Its records are read alike. -/
theorem alike_collect (n : Nat) :
    likeness.Alike Eq (collect n) (collect n) := by
  apply alike_get_bind
  intro c d h
  rw [h.failure? n rfl, h.recordsOf]
  split
  · exact (alike_act n rfl).bind fun _ _ _ => alike_pure rfl
  · exact alike_pure rfl

/-- A driver is looked up alike. -/
theorem alike_driver (connection : Option String) :
    likeness.Alike Eq (driver connection) (driver connection) := by
  apply alike_get_bind
  intro c d h
  dsimp only
  rw [h.resolve, h.registered]
  split
  · exact alike_pure rfl
  · exact alike_throw rfl

/-- A session is opened alike. -/
theorem alike_openSession (n : Nat) :
    likeness.Alike Eq (openSession n) (openSession n) := by
  apply alike_get_bind
  intro c d h
  dsimp only
  rw [h.nextSession, h.database]
  exact (alike_act n rfl).bind fun _ _ _ => alike_pure rfl

/-- A session is closed alike after what is done with it alike. -/
theorem alike_closing {α : Type} {R : α → α → Prop} (n session : Nat)
    {body body' : Connecting α} (h : likeness.Alike R body body') :
    likeness.Alike R (closing n session body) (closing n session body') := by
  refine (h.outcome strict).bind fun r r' hr => ?_
  exact (alike_act n rfl).bind fun _ _ _ => alike_lift hr

/-- A failure is turned into a failed query alike. -/
theorem alike_explaining {α : Type} {R : α → α → Prop}
    (connection query : String) (names : List String)
    {body body' : Connecting α} (h : likeness.Alike R body body') :
    likeness.Alike R (explaining connection query names body)
      (explaining connection query names body') := by
  refine h.tryCatch strict ?_
  rintro fault _ rfl
  split <;> exact alike_throw rfl

/-- An error is logged alike on its way out. -/
theorem alike_logging {α : Type} {R : α → α → Prop} (function : String)
    {body body' : Connecting α} (h : likeness.Alike R body body') :
    likeness.Alike R (logging function body) (logging function body') := by
  refine h.tryCatch strict ?_
  rintro fault _ rfl
  refine (alike_modify fun c d h => ?_).bind fun _ _ _ => alike_throw rfl
  exact { h with log := by rw [h.log] }

/-- Parameters that differ in values alone have the same names. -/
theorem keys_eq_of_blankParameters_eq
    {parameters parameters' : List (String × Value)}
    (h : blankParameters parameters = blankParameters parameters') :
    parameters.map Prod.fst = parameters'.map Prod.fst := by
  have hkeys : ∀ parameters : List (String × Value),
      parameters.map Prod.fst = (blankParameters parameters).map
        Prod.fst := by
    intro parameters
    rw [blankParameters, List.map_map]
    rfl
  rw [hkeys, h, ← hkeys]

/-- **A query that is run cannot be told apart from the same query with
other values.** -/
theorem alike_runQuery (query : String)
    {parameters parameters' : List (String × Value)}
    (h : blankParameters parameters = blankParameters parameters')
    (connection : Option String) :
    likeness.Alike Eq (runQuery query parameters connection)
      (runQuery query parameters' connection) := by
  unfold runQuery
  rw [keys_eq_of_blankParameters_eq h]
  apply alike_logging
  refine (alike_resolve _).bind_eq fun connection => ?_
  refine (alike_log _ _ _).bind_eq fun _ => ?_
  apply alike_explaining
  apply alike_get_bind
  intro c d hcd
  rw [hcd.transactions]
  split
  · next bound _ =>
    have hevent :
        (DriverEvent.runInTransaction bound.session query parameters).blank =
        (DriverEvent.runInTransaction bound.session
          query parameters').blank := by
      rw [DriverEvent.blank, h, DriverEvent.blank]
    exact (alike_act _ hevent).bind_eq fun _ => alike_collect _
  · refine (alike_driver _).bind_eq fun n =>
      (alike_openSession n).bind_eq fun session => ?_
    have hevent : (DriverEvent.run session query parameters).blank =
        (DriverEvent.run session query parameters').blank := by
      rw [DriverEvent.blank, h, DriverEvent.blank]
    exact alike_closing _ _ ((alike_act _ hevent).bind_eq fun _ =>
      alike_collect _)

/-- A transaction is begun alike. -/
theorem alike_beginTransaction (connection : Option String) :
    likeness.Alike Eq (beginTransaction connection)
    (beginTransaction connection) := by
  refine (alike_resolve connection).bind_eq fun connection => ?_
  apply alike_get_bind
  intro c d h
  rw [h.transactions]
  split
  · exact alike_throw rfl
  · refine (alike_driver _).bind_eq fun n =>
      (alike_openSession n).bind_eq fun session => ?_
    have hbegin : likeness.Alike Eq
        (tryCatch (act n (.begin session)) fun fault => do
          act n (.closeSession session)
          throw fault)
        (tryCatch (act n (.begin session)) fun fault => do
          act n (.closeSession session)
          throw fault) := by
      apply (alike_act n rfl).tryCatch strict
      rintro fault _ rfl
      exact (alike_act n rfl).bind_eq fun _ => alike_throw rfl
    refine hbegin.bind_eq fun _ => ?_
    refine (alike_modify fun c d h => ?_).bind_eq fun _ => alike_log _ _ _
    exact { h with transactions := by rw [h.transactions] }

/-- It is released alike. -/
theorem alike_unbind (connection operation : String) :
    likeness.Alike Eq (unbind connection operation)
    (unbind connection operation) := by
  apply alike_get_bind
  intro c d h
  rw [h.transactions]
  split
  · refine (alike_set ?_).bind_eq fun _ => alike_pure rfl
    exact { h with transactions := rfl }
  · exact alike_throw rfl

/-- It is committed alike. -/
theorem alike_commitTransaction (connection : Option String) :
    likeness.Alike Eq (commitTransaction connection)
    (commitTransaction connection) := by
  refine (alike_resolve connection).bind_eq fun connection => ?_
  refine (alike_unbind _ _).bind_eq fun bound => ?_
  exact (alike_closing _ _ (alike_act _ rfl)).bind_eq fun _ => alike_log _ _ _

/-- It is rolled back alike. -/
theorem alike_rollbackTransaction (connection : Option String) :
    likeness.Alike Eq (rollbackTransaction connection)
    (rollbackTransaction connection) := by
  refine (alike_resolve connection).bind_eq fun connection => ?_
  refine (alike_unbind _ _).bind_eq fun bound => ?_
  exact (alike_closing _ _ (alike_act _ rfl)).bind_eq fun _ => alike_log _ _ _

/-- It is asked for alike. -/
theorem alike_inTransaction (connection : Option String) :
    likeness.Alike Eq (inTransaction connection)
    (inTransaction connection) := by
  refine (alike_resolve connection).bind_eq fun connection => ?_
  apply alike_get_bind
  intro c d h
  apply alike_pure
  rw [h.transactions]

/-- A driver is tried alike. -/
theorem alike_verifyConnectivity (connection : Option String) :
    likeness.Alike Eq (verifyConnectivity connection)
    (verifyConnectivity connection) := by
  refine (alike_driver connection).bind_eq fun n =>
    (alike_act n rfl).bind_eq fun _ => ?_
  exact (alike_resolve connection).bind_eq fun _ => alike_log _ _ _

/-- A blind driver is added alike. -/
theorem alike_addConnection (connection : String) {driver : Driver}
    (hblind : driver.Blind) :
    likeness.Alike Eq (addConnection connection driver)
    (addConnection connection driver) := by
  apply alike_modify
  intro c d h
  have hdrivers : ∀ added ∈ c.drivers.push driver, added.Blind := by
    intro added hadded
    rcases Array.mem_push.mp hadded with hold | rfl
    · exact h.blind added hold
    · exact hblind
  exact { h with
    drivers := by rw [h.drivers]
    blind := hdrivers
    registered := by rw [h.drivers, h.registered] }

/-- Connections are closed alike. -/
theorem alike_close : likeness.Alike Eq close close := by
  apply alike_get_bind
  intro c d h
  rw [h.transactions]
  refine (alike_forM_same fun _ => alike_rollbackTransaction _).bind_eq
    fun _ => ?_
  apply alike_get_bind
  intro c d h
  rw [h.registered]
  apply alike_forM_same
  intro registered
  exact (alike_act _ rfl).bind_eq fun _ => alike_log _ _ _

end Connecting

/-- The driver a call of the connections adds. -/
def ConnectionCall.added : ConnectionCall → List Driver
  | addConnection _ new => [new]
  | _ => []

/-- Blanked parameters are blanked for good. -/
theorem blankParameters_blankParameters (parameters : List (String × Value)) :
    blankParameters (blankParameters parameters) =
      blankParameters parameters := by
  rw [blankParameters, blankParameters, List.map_map]
  rfl

namespace ConnectionCall

open Likeness Connecting

/-- **A call of the connections cannot be told apart from its outline.** -/
theorem alike_perform {call : ConnectionCall}
    (hblind : ∀ added ∈ call.added, added.Blind) :
    likeness.Alike Eq call.perform call.outline.perform := by
  cases call with
  | run query parameters connection =>
    have hparameters := (blankParameters_blankParameters parameters).symm
    exact (alike_runQuery query hparameters connection).bind_eq fun _ =>
      alike_pure rfl
  | beginTransaction connection =>
    exact (alike_beginTransaction connection).bind_eq fun _ => alike_pure rfl
  | commitTransaction connection =>
    exact (alike_commitTransaction connection).bind_eq fun _ => alike_pure rfl
  | rollbackTransaction connection =>
    exact (alike_rollbackTransaction connection).bind_eq fun _ =>
      alike_pure rfl
  | inTransaction connection =>
    exact (alike_inTransaction connection).bind_eq fun _ => alike_pure rfl
  | verifyConnectivity connection =>
    exact (alike_verifyConnectivity connection).bind_eq fun _ =>
      alike_pure rfl
  | driver connection =>
    refine (alike_driver connection).bind_eq fun found => ?_
    apply alike_get_bind
    intro c d h
    apply alike_pure
    unfold Connections.labelOf
    rw [h.drivers]
  | defaultConnection =>
    apply alike_get_bind
    intro c d h
    apply alike_pure
    rw [h.default]
  | addConnection connection driver =>
    have hdriver := hblind driver (List.mem_singleton_self driver)
    exact (alike_addConnection connection hdriver).bind_eq fun _ =>
      alike_pure rfl
  | close => exact alike_close.bind_eq fun _ => alike_pure rfl
  | enter => exact alike_pure rfl
  | leave => exact alike_close.bind_eq fun _ => alike_pure rfl

end ConnectionCall

end GraphQuery
