import GraphQuery.Proofs.Connections.Transactions

/-!
# Connections do not interfere

A call about a connection depends on nothing but what belongs to this
connection, its drivers, what has happened to them and the transaction bound
to it, and it changes nothing else: it is confined to it
(`ConnectionCall.confined_perform`).  So where no driver serves two
connections, the calls about one of them are answered as if there were no
others, and its drivers see the same
(`Connections.connections_do_not_interfere`).
-/

namespace GraphQuery

open GraphQuery.Computation

/-- The argument that says which connection a call is about, if it is about
one. -/
def ConnectionCall.connection? : ConnectionCall → Option (Option String)
  | run _ _ connection | beginTransaction connection | commitTransaction
      connection
  | rollbackTransaction connection | inTransaction
      connection | verifyConnectivity connection
  | driver connection => some connection
  | defaultConnection | addConnection _ _ | close | enter | leave => none

namespace Connections

/-- A driver serves a connection that it is registered for, or whose
transaction runs on it. -/
def Serves (c : Connections) (name : String) (d : Nat) : Prop :=
  c.registered.lookup name = some d ∨
    ∃ bound, c.transactions.lookup name = some bound ∧ bound.driver = d

/-- No driver serves two connections. -/
def Apart (c : Connections) : Prop :=
  ∀ one other d, c.Serves one d → c.Serves other d → one = other

/-- Whether a call is about a connection. -/
def concerns (c : Connections) (name : String) (call : ConnectionCall) :
    Bool :=
  call.connection?.map c.resolve == some name

/-- The answers to calls that are made one after the other. -/
def answers (c : Connections) : List ConnectionCall →
    List (ConnectionCall × Except Fault ConnectionAnswer)
  | [] => []
  | call :: rest => (call, (exec call.perform c).1) ::
      (exec call.perform c).2.answers rest

/-- Connections over the same drivers, registered in the same way. -/
structure Akin (c t : Connections) : Prop where
  drivers : t.drivers = c.drivers
  registered : t.registered = c.registered
  default : t.default = c.default
  database : t.database = c.database

/-- Two states that cannot be told apart from a connection: the same
transaction is bound to it, and the same has happened to the drivers that
are its own. -/
structure Parallel (own : Nat → Prop) (name : String) (c t : Connections) :
    Prop extends c.Akin t where
  bound : t.transactions.lookup name = c.transactions.lookup name
  history : ∀ d, own d → t.history d = c.history d
  inside : ∀ d, c.Serves name d → own d

/-- Two such states, and a connection that is meant by its name. -/
structure Agrees (own : Nat → Prop) (name : String) (c t : Connections) : Prop
    extends c.Parallel own name t where
  settled : c.resolve (some name) = name

/-- What is left alone from one state to another: all other connections, and
the drivers that are not its own. -/
structure Spares (own : Nat → Prop) (name : String) (c t : Connections) :
    Prop extends c.Akin t where
  bound : ∀ other,
    other ≠ name → t.transactions.lookup other = c.transactions.lookup other
  history : ∀ d, ¬own d → t.history d = c.history d

variable {own : Nat → Prop} {name other : String} {c t u : Connections}
    {d : Nat}

/-- Connections are akin to themselves. -/
theorem Akin.refl (c : Connections) : c.Akin c := ⟨rfl, rfl, rfl, rfl⟩

/-- They are akin both ways. -/
theorem Akin.symm (h : c.Akin t) : t.Akin c :=
  ⟨h.drivers.symm, h.registered.symm, h.default.symm, h.database.symm⟩

/-- They are akin by way of others. -/
theorem Akin.trans (hct : c.Akin t) (htu : t.Akin u) : c.Akin u where
  drivers := htu.drivers.trans hct.drivers
  registered := htu.registered.trans hct.registered
  default := htu.default.trans hct.default
  database := htu.database.trans hct.database

/-- Doing nothing spares a connection. -/
theorem Spares.refl (own : Nat → Prop) (name : String) (c : Connections) :
    c.Spares own name c :=
  { Akin.refl c with
    bound := fun _ _ => rfl
    history := fun _ _ => rfl }

/-- What spares a connection does so one after the other. -/
theorem Spares.trans (hct : c.Spares own name t) (htu : t.Spares own name u) :
    c.Spares own name u :=
  { hct.toAkin.trans htu.toAkin with
    bound := fun other hne =>
      (htu.bound other hne).trans (hct.bound other hne)
    history := fun d hd => (htu.history d hd).trans (hct.history d hd) }

/-- Which connection is meant depends on the default connection only. -/
theorem Akin.resolve (h : c.Akin t) (connection : Option String) :
    t.resolve connection = c.resolve connection := by
  unfold Connections.resolve
  rw [h.default]

/-- Akin connections are about the same names. -/
theorem Akin.concerns (h : c.Akin t) (name : String) :
    t.concerns name = c.concerns name := by
  have hresolve : t.resolve = c.resolve := funext h.resolve
  unfold Connections.concerns
  rw [hresolve]

/-- The connection that is meant by an argument is meant by its name as
well. -/
theorem resolve_resolve (c : Connections) (connection : Option String) :
    c.resolve (some (c.resolve connection)) = c.resolve connection := by
  cases connection with
  | none =>
    show (if c.default.isEmpty then c.default else c.default) = c.default
    exact ite_self _
  | some name =>
    by_cases hname : name.isEmpty
    · have hdefault : c.resolve (some name) = c.default := if_pos hname
      rw [hdefault]
      exact ite_self _
    · have hself : c.resolve (some name) = name := if_neg hname
      rw [hself, hself]

/-- An event is the last one of its own driver, and none of another's. -/
theorem history_happened (c : Connections) (d : Nat) (event : DriverEvent)
    (other : Nat) :
    (c.happened d event).history other =
      c.history other ++ if d = other then [event] else [] := by
  rw [history, history, happened, List.filter_append, List.map_append]
  by_cases hd : d = other <;> simp [hd]

/-- What a driver of its own answers is the same for a connection in both
states. -/
theorem Agrees.failure? (h : c.Agrees own name t) (hd : own d)
    (event : DriverEvent) :
    t.failure? d event = c.failure? d event := by
  rw [Connections.failure?, Connections.failure?, h.drivers, h.history d hd]

/-- The next session of a driver has the same number for both. -/
theorem Agrees.nextSession (h : c.Agrees own name t) (hd : own d) :
    t.nextSession d = c.nextSession d := by
  rw [Connections.nextSession, Connections.nextSession, h.history d hd]

/-- Both states go on without changing what belongs to the connection. -/
theorem Agrees.logged (h : c.Agrees own name t) (log log' : List LogEvent) :
    ({ c with log } : Connections).Agrees own name { t with log := log' } :=
  { h with }

/-- Logging spares every connection. -/
theorem spares_logged (own : Nat → Prop) (name : String) (c : Connections)
    (log : List LogEvent) :
    c.Spares own name { c with log } :=
  { Spares.refl own name c with }

/-- What happens to both leaves them in agreement. -/
theorem Agrees.happened (h : c.Agrees own name t) (d : Nat)
    (event : DriverEvent) :
    (c.happened d event).Agrees own name (t.happened d event) :=
  { h with
    history := fun other hother => by
      rw [history_happened, history_happened, h.history other hother] }

/-- What happens to another driver spares a connection. -/
theorem spares_happened (hd : own d) (name : String) (c : Connections)
    (event : DriverEvent) :
    c.Spares own name (c.happened d event) :=
  { Spares.refl own name c with
    history := fun other hother => by
      have hne : d ≠ other := fun heq => hother (heq ▸ hd)
      rw [history_happened, if_neg hne, List.append_nil] }

end Connections

/-- A step is confined to a connection: from two states that cannot be told
apart from there it is answered in the same way, leads to two such states
and leaves all else alone. -/
def Confined {α : Type} (own : Nat → Prop) (name : String)
    (c t : Connections) (x y : Connecting α) (fits : α → Prop) : Prop :=
  c.Agrees own name t →
    (exec x c).1 = (exec y t).1 ∧ (exec x c).2.Agrees own name (exec y t).2 ∧
      c.Spares own name (exec x c).2 ∧ ∀ a, (exec x c).1 = .ok a → fits a

namespace Confined

open Connections

variable {α β : Type} {own : Nat → Prop} {name : String} {c t : Connections}
    {x y : Connecting α}
  {f g : α → Connecting β} {fits : α → Prop} {fits' : β → Prop}

/-- The agreement of the states may be used. -/
theorem of_agrees (h : c.Agrees own name t → Confined own name c t x y fits) :
    Confined own name c t x y fits :=
  fun hct => h hct hct

/-- Answering is confined. -/
theorem pure {a : α} (h : fits a) :
    Confined own name c t (pure a) (pure a) fits := by
  intro hct
  refine ⟨rfl, hct, .refl own name c, fun b hb => ?_⟩
  cases hb
  exact h

/-- Failing is confined. -/
theorem throw (fault : Fault) :
    Confined own name c t (throw fault : Connecting α)
    (throw fault) fits := by
  intro hct
  exact ⟨rfl, hct, .refl own name c, nofun⟩

/-- An outcome that is there already is confined. -/
theorem lift (r : Except Fault α) (h : ∀ a, r = .ok a → fits a) :
    Confined own name c t (liftM r : Connecting α) (liftM r) fits := by
  intro hct
  exact ⟨rfl, hct, .refl own name c, h⟩

/-- Both steps are taken, from states that agree. -/
theorem taken (h : Confined own name c t x y fits)
    (hct : c.Agrees own name t) :
    ∃ r u v, exec x c = (r, u) ∧ exec y t = (r, v) ∧ u.Agrees own name v ∧
    c.Spares own name u ∧
      ∀ a, r = .ok a → fits a := by
  obtain ⟨hout, hrest⟩ := h hct
  exact ⟨(exec x c).1, (exec x c).2, (exec y t).2, rfl,
    Prod.ext hout.symm rfl, hrest⟩

/-- Two computations are confined one behind the other. -/
theorem bind (h : Confined own name c t x y fits)
    (hfg : ∀ a u v, fits a → Confined own name u v (f a) (g a) fits') :
    Confined own name c t (x >>= f) (y >>= g) fits' := by
  intro hct
  obtain ⟨r, u, v, hx, hy, hagrees, hspares, hanswer⟩ := h.taken hct
  rw [exec_bind, exec_bind, hx, hy]
  cases r with
  | error fault => exact ⟨rfl, hagrees, hspares, nofun⟩
  | ok a =>
    obtain ⟨hout', hagrees', hspares', hanswer'⟩ :=
      hfg a u v (hanswer a rfl) hagrees
    exact ⟨hout', hagrees', hspares.trans hspares', hanswer'⟩

/-- A computation that looks at the connections first is confined if it is
from there. -/
theorem get_bind {f g : Connections → Connecting β}
    (h : Confined own name c t (f c) (g t) fits') :
    Confined own name c t (get >>= f) (get >>= g) fits' := by
  intro hct
  rw [exec_bind, exec_bind, exec_get, exec_get]
  exact h hct

/-- Handling a fault is confined. -/
theorem tryCatch {f g : Fault → Connecting α}
    (h : Confined own name c t x y fits)
    (hfg : ∀ fault u v, Confined own name u v (f fault) (g fault) fits) :
    Confined own name c t (tryCatch x f) (tryCatch y g) fits := by
  intro hct
  obtain ⟨r, u, v, hx, hy, hagrees, hspares, hanswer⟩ := h.taken hct
  rw [exec_tryCatch, exec_tryCatch, hx, hy]
  cases r with
  | ok a => exact ⟨rfl, hagrees, hspares, hanswer⟩
  | error fault =>
    obtain ⟨hout', hagrees', hspares', hanswer'⟩ := hfg fault u v hagrees
    exact ⟨hout', hagrees', hspares.trans hspares', hanswer'⟩

/-- The outcome of a step, failed or not, as an answer. -/
theorem outcome (h : Confined own name c t x y fits) :
    Confined own name c t (ExceptT.lift x.run : Connecting (Except Fault α))
    (ExceptT.lift y.run)
      fun r => ∀ a, r = .ok a → fits a := by
  intro hct
  obtain ⟨hout, hagrees, hspares, hanswer⟩ := h hct
  rw [exec_lift_run, exec_lift_run]
  refine ⟨congrArg Except.ok hout, hagrees, hspares, fun r hr => ?_⟩
  cases hr
  exact hanswer

end Confined

namespace Connecting

open Connections

variable {own : Nat → Prop} {name : String} {c t : Connections} {d : Nat}

/-- Logging is confined, whatever is logged. -/
theorem confined_log (level : Severity) (event : String)
    (fields fields' : List (String × Value)) :
    Confined own name c t (log level event fields)
    (log level event fields') fun _ => True := by
  intro hct
  rw [log, log, exec_modify, exec_modify]
  exact ⟨rfl, hct.logged _ _, spares_logged own name c _, fun _ _ => trivial⟩

/-- A name is resolved alike. -/
theorem confined_resolve (connection : Option String) :
    Confined own name c t (resolve connection) (resolve connection)
      fun resolved => resolved = c.resolve connection := by
  intro hct
  rw [exec_resolve, exec_resolve, hct.resolve]
  refine ⟨rfl, hct, .refl own name c, fun resolved hresolved => ?_⟩
  cases hresolved
  rfl

/-- A driver of its own is called. -/
theorem confined_act (hd : own d) (event : DriverEvent) :
    Confined own name c t (act d event) (act d event) fun _ => True := by
  intro hct
  rw [exec_act, exec_act, hct.failure? hd]
  exact ⟨rfl, hct.happened d event, spares_happened hd name c event,
    fun _ _ => trivial⟩

/-- The driver that is found is one of its own. -/
theorem confined_driver {connection : Option String}
    (hname : c.resolve connection = name) :
    Confined own name c t (driver connection) (driver connection) own := by
  apply Confined.of_agrees
  intro hct
  apply Confined.get_bind
  dsimp only
  rw [hct.resolve, hct.registered, hname]
  cases hlookup : c.registered.lookup name with
  | none => exact .throw _
  | some d => exact .pure (hct.inside d (.inl hlookup))

/-- Opening a session is confined. -/
theorem confined_openSession (hd : own d) :
    Confined own name c t (openSession d) (openSession d) fun _ => True := by
  apply Confined.of_agrees
  intro hct
  apply Confined.get_bind
  dsimp only
  rw [hct.nextSession hd, hct.database]
  exact (confined_act hd _).bind fun _ _ _ _ => .pure trivial

/-- Reading the records is confined. -/
theorem confined_collect (hd : own d) :
    Confined own name c t (collect d) (collect d) fun _ => True := by
  apply Confined.of_agrees
  intro hct
  have hrecords : t.recordsOf d = c.recordsOf d := by
    rw [Connections.recordsOf, Connections.recordsOf, hct.drivers]
  apply Confined.get_bind
  dsimp only
  rw [hct.failure? hd, hrecords]
  split
  · exact (confined_act hd _).bind fun _ _ _ _ => .pure trivial
  · exact .pure trivial

/-- Closing a session after what is done with it is confined. -/
theorem confined_closing {α : Type} {body : Connecting α} {fits : α → Prop}
    (hd : own d) (session : Nat) (h : Confined own name c t body body fits) :
    Confined own name c t (closing d session body)
    (closing d session body) fits := by
  refine h.outcome.bind fun r u v hr => ?_
  exact (confined_act hd _).bind fun _ _ _ _ => .lift r hr

/-- Turning a failure into a failed query is confined. -/
theorem confined_explaining {α : Type} {body : Connecting α}
    {fits : α → Prop} (connection query : String) (names : List String)
    (h : Confined own name c t body body fits) :
    Confined own name c t (explaining connection query names body)
      (explaining connection query names body) fits := by
  refine h.tryCatch fun fault u v => ?_
  split <;> exact .throw _

/-- Logging an error on its way out is confined. -/
theorem confined_logging {α : Type} {body : Connecting α} {fits : α → Prop}
    (function : String) (h : Confined own name c t body body fits) :
    Confined own name c t (logging function body)
    (logging function body) fits := by
  refine h.tryCatch fun fault u v => ?_
  have hlog : Confined own name u v
      (modify fun c =>
        { c with log := c.log ++
          [LogEvent.failure function .error fault.report] })
      (modify fun c =>
        { c with log := c.log ++
          [LogEvent.failure function .error fault.report] })
      fun _ => True := by
    intro huv
    rw [exec_modify, exec_modify]
    exact ⟨rfl, huv.logged _ _, spares_logged own name u _, fun _ _ =>
      trivial⟩
  exact hlog.bind fun _ _ _ _ => .throw _

/-- A query is run in the transaction bound to the connection, or in a
session of its own. -/
theorem confined_runQuery (query : String)
    (parameters : List (String × Value)) {connection : Option String}
    (hname : c.resolve connection = name) :
    Confined own name c t (runQuery query parameters connection)
      (runQuery query parameters connection) fun _ => True := by
  apply confined_logging
  refine (confined_resolve connection).bind fun resolved u v hresolved => ?_
  obtain rfl := hresolved.trans hname
  refine (confined_log _ _ _ _).bind fun _ u v _ => ?_
  apply confined_explaining
  apply Confined.of_agrees
  intro huv
  apply Confined.get_bind
  rw [huv.bound]
  split
  · next bound hbound =>
    have hd : own bound.driver := huv.inside _ (.inr ⟨bound, hbound, rfl⟩)
    exact (confined_act hd _).bind fun _ _ _ _ => confined_collect hd
  · refine (confined_driver huv.settled).bind fun d u v hd => ?_
    refine (confined_openSession hd).bind fun session u v _ => ?_
    apply confined_closing hd
    exact (confined_act hd _).bind fun _ _ _ _ => confined_collect hd

/-- The transaction of a session of its own driver is bound. -/
theorem confined_bind (hd : own d) (session : Nat) :
    Confined own name c t
      (modify fun c =>
        { c with transactions := c.transactions ++ [(name, ⟨d, session⟩)] })
      (modify fun c =>
        { c with transactions := c.transactions ++ [(name, ⟨d, session⟩)] })
      fun _ => True := by
  intro hct
  rw [exec_modify, exec_modify]
  have hown : ∀ ts : List (String × BoundTransaction),
      (ts ++ [(name, (⟨d, session⟩ : BoundTransaction))]).lookup name =
        (ts.lookup name).or (some ⟨d, session⟩) := by
    intro ts
    rw [List.lookup_append, List.lookup_cons_self]
  refine ⟨rfl, { hct with bound := ?_, inside := ?_ },
    { Spares.refl own name c with bound := ?_ },
    fun _ _ => trivial⟩
  · show List.lookup _ (_ ++ _) = List.lookup _ (_ ++ _)
    rw [hown, hown, hct.bound]
  · rintro other (hregistered | ⟨bound, hbound, rfl⟩)
    · exact hct.inside other (.inl hregistered)
    · have hlookup := (hown c.transactions).symm.trans hbound
      rcases Option.or_eq_some_iff.mp hlookup with hold | ⟨-, hnew⟩
      · exact hct.inside _ (.inr ⟨bound, hold, rfl⟩)
      · cases hnew
        exact hd
  · intro other hne
    show List.lookup _ (_ ++ _) = _
    have hnone : List.lookup other
        [(name, (⟨d, session⟩ : BoundTransaction))] = none := by
      rw [List.lookup_cons, beq_eq_false_iff_ne.mpr hne]
      rfl
    rw [List.lookup_append, hnone, Option.or_none]

/-- Beginning a transaction is confined to its connection. -/
theorem confined_beginTransaction {connection : Option String}
    (hname : c.resolve connection = name) :
    Confined own name c t (beginTransaction connection)
    (beginTransaction connection)
      fun _ => True := by
  refine (confined_resolve connection).bind fun resolved u v hresolved => ?_
  obtain rfl := hresolved.trans hname
  apply Confined.of_agrees
  intro huv
  apply Confined.get_bind
  dsimp only
  rw [huv.bound]
  split
  · exact .throw _
  · refine (confined_driver huv.settled).bind fun d u v hd => ?_
    refine (confined_openSession hd).bind fun session u v _ => ?_
    have hbegin : Confined own resolved u v
        (tryCatch (act d (.begin session)) fun fault => do
          act d (.closeSession session)
          throw fault)
        (tryCatch (act d (.begin session)) fun fault => do
          act d (.closeSession session)
          throw fault) fun _ => True :=
      (confined_act hd _).tryCatch fun fault u v =>
        (confined_act hd _).bind fun _ _ _ _ => .throw fault
    refine hbegin.bind fun _ u v _ => ?_
    exact (confined_bind hd session).bind fun _ u v _ => confined_log _ _ _ _

/-- The transaction that is released runs on a driver of its own. -/
theorem confined_unbind (operation : String) :
    Confined own name c t (unbind name operation) (unbind name operation)
      fun bound => own bound.driver := by
  intro hct
  rw [exec_unbind, exec_unbind, hct.bound]
  cases hlookup : c.transactions.lookup name with
  | none => exact ⟨rfl, hct, .refl own name c, nofun⟩
  | some bound =>
    have hself : ∀ ts : List (String × BoundTransaction),
        (dropEntry name ts).lookup name = none :=
      fun ts => lookup_dropEntry_self name ts
    refine ⟨rfl, { hct with bound := ?_, inside := ?_ },
      { Spares.refl own name c with bound := ?_ },
      fun released hreleased => ?_⟩
    · exact (hself t.transactions).trans (hself c.transactions).symm
    · rintro d (hregistered | ⟨other, hother, rfl⟩)
      · exact hct.inside d (.inl hregistered)
      · cases (hself c.transactions).symm.trans hother
    · exact fun other hne => lookup_dropEntry_of_ne name c.transactions hne
    · cases hreleased
      exact hct.inside _ (.inr ⟨bound, hlookup, rfl⟩)

/-- What commits and rollbacks have in common. -/
theorem confined_release {connection : Option String}
    (hname : c.resolve connection = name) (event : Nat → DriverEvent)
    (operation note : String) :
    let release : Connecting Unit := do
      let connection ← resolve connection
      let bound ← unbind connection operation
      closing bound.driver bound.session
        (act bound.driver (event bound.session))
      log .debug note [("connection", .text connection)]
    Confined own name c t release release fun _ => True := by
  refine (confined_resolve connection).bind fun resolved u v hresolved => ?_
  obtain rfl := hresolved.trans hname
  refine (confined_unbind operation).bind fun bound u v hd => ?_
  exact (confined_closing hd _ (confined_act hd _)).bind fun _ u v _ =>
    confined_log _ _ _ _

/-- Asking for a transaction is confined to its connection. -/
theorem confined_inTransaction {connection : Option String}
    (hname : c.resolve connection = name) :
    Confined own name c t (inTransaction connection)
    (inTransaction connection) fun _ => True := by
  refine (confined_resolve connection).bind fun resolved u v hresolved => ?_
  obtain rfl := hresolved.trans hname
  apply Confined.of_agrees
  intro huv
  apply Confined.get_bind
  rw [huv.bound]
  exact .pure trivial

/-- Trying a driver is confined to its connection. -/
theorem confined_verifyConnectivity {connection : Option String}
    (hname : c.resolve connection = name) :
    Confined own name c t (verifyConnectivity connection)
    (verifyConnectivity connection)
      fun _ => True := by
  refine (confined_driver hname).bind fun d u v hd => ?_
  refine (confined_act hd _).bind fun _ u v _ => ?_
  exact (confined_resolve connection).bind fun resolved u v _ =>
    confined_log _ _ _ _

end Connecting

namespace ConnectionCall

open Connections Connecting

variable {own : Nat → Prop} {name : String} {c t : Connections}
    {call : ConnectionCall}

/-- **A call is confined to the connection it is about.** -/
theorem confined_perform {connection : Option String}
    (h : call.connection? = some connection)
    (hname : c.resolve connection = name) :
    Confined own name c t call.perform call.perform fun _ => True := by
  have hanswer : ∀ {α : Type} {x : Connecting α} {fits : α → Prop}
      (f : α → ConnectionAnswer), Confined own name c t x x fits →
      Confined own name c t (x >>= fun a => pure (f a))
        (x >>= fun a => pure (f a)) fun _ => True :=
    fun f hx => hx.bind fun _ _ _ _ => .pure trivial
  cases call <;> cases h
  · exact hanswer _ (confined_runQuery _ _ hname)
  · exact hanswer _ (confined_beginTransaction hname)
  · exact hanswer _ (confined_release hname .commit _ _)
  · exact hanswer _ (confined_release hname .rollback _ _)
  · exact hanswer _ (confined_inTransaction hname)
  · exact hanswer _ (confined_verifyConnectivity hname)
  · refine (confined_driver hname).bind fun d u v _ => ?_
    apply Confined.of_agrees
    intro huv
    have hlabel : v.labelOf d = u.labelOf d := by
      rw [labelOf, labelOf, huv.drivers]
    apply Confined.get_bind
    rw [hlabel]
    exact .pure trivial

end ConnectionCall

namespace Connections

open Connecting

variable {own : Nat → Prop} {name other : String} {c t u : Connections}
    {d : Nat}

/-- Connections run in parallel with themselves. -/
theorem Parallel.refl (name : String) (c : Connections) :
    c.Parallel (c.Serves name) name c :=
  { Akin.refl c with
    bound := rfl
    history := fun _ _ => rfl
    inside := fun _ hd => hd }

/-- What happens elsewhere does not show. -/
theorem Parallel.spared (h : c.Parallel own name t)
    (hspares : c.Spares (c.Serves other) other u) (hne : name ≠ other)
    (hown : ∀ d, own d → ¬c.Serves other d) : u.Parallel own name t where
  toAkin := hspares.toAkin.symm.trans h.toAkin
  bound := h.bound.trans (hspares.bound name hne).symm
  history d hd := (h.history d hd).trans (hspares.history d (hown d hd)).symm
  inside d hd := by
    refine h.inside d ?_
    rw [Serves, hspares.registered, hspares.bound name hne] at hd
    exact hd

/-- The drivers that serve a connection are no more than before. -/
def Shrinks (c t : Connections) : Prop := ∀ name d, t.Serves name d →
    c.Serves name d

/-- Names that have drivers apart keep them so when bindings are released. -/
theorem Apart.of_shrinks (h : c.Apart) (hshrinks : c.Shrinks t) : t.Apart :=
  fun one other d hone hother =>
    h one other d (hshrinks one d hone) (hshrinks other d hother)

/-- What is confined to a connection lets no further driver serve one. -/
theorem shrinks_of_confined {α : Type} {x : Connecting α} {fits : α → Prop}
    (h : Confined (c.Serves name) name c c x x fits)
    (hsettled : c.resolve (some name) = name) :
    c.Spares (c.Serves name) name (exec x c).2 ∧ c.Shrinks (exec x c).2 := by
  obtain ⟨-, hagrees, hspares, -⟩ :=
    h { Parallel.refl name c with settled := hsettled }
  refine ⟨hspares, fun one d hd => ?_⟩
  by_cases hone : one = name
  · subst hone
    exact hagrees.inside d hd
  · rw [Serves, hspares.registered, hspares.bound one hone] at hd
    exact hd

end Connections

namespace ConnectionCall

open Connections Connecting

variable {c : Connections} {call : ConnectionCall}

/-- A call about a connection leaves the others alone. -/
theorem spares_perform {connection : Option String}
    (h : call.connection? = some connection) :
    c.Spares (c.Serves (c.resolve connection)) (c.resolve connection)
    (exec call.perform c).2 ∧
      c.Shrinks (exec call.perform c).2 :=
  shrinks_of_confined (confined_perform h rfl) (resolve_resolve c connection)

end ConnectionCall

namespace Connecting

open Connections

variable {c : Connections}

/-- The guarantee that no further driver serves a connection. -/
def shrinking : Guarantee Connections where
  holds _ := True
  leads c t := c.Shrinks t
  refl _ := fun _ _ hd => hd
  trans hct htu := fun name d hd => hct name d (htu name d hd)

/-- Rolling back releases bindings only. -/
theorem kept_rollbackTransaction (connection : Option String) :
    shrinking.Kept (rollbackTransaction connection) := by
  intro c _
  have hconfined : Confined (c.Serves (c.resolve connection))
      (c.resolve connection) c c
      (rollbackTransaction connection) (rollbackTransaction connection)
        fun _ => True :=
    confined_release rfl .rollback _ _
  exact ⟨trivial,
    (shrinks_of_confined hconfined (resolve_resolve c connection)).2,
    fun _ _ => trivial⟩

/-- Closing releases bindings only. -/
theorem kept_shrinking_close : shrinking.Kept close := by
  apply Guarantee.kept_get_bind
  intro c
  refine (Guarantee.kept_forM (fun entry _ =>
    kept_rollbackTransaction (some entry.1)) c).bind
    fun _ t _ _ _ => ?_
  refine Guarantee.kept_get_bind (fun u =>
    Guarantee.kept_forM (fun entry _ => ?_) u) t
  refine Guarantee.Kept.bind (fun v hv => ?_) fun _ v =>
    Guarantee.at_modify fun hv => ?_
  · rw [exec_act]
    exact ⟨hv, fun _ _ hd => hd, fun _ _ => trivial⟩
  · exact ⟨hv, fun _ _ hd => hd, trivial⟩

/-- A driver that is added serves its connection alone.  The number of a
driver is its place, and nothing is served by the next place yet. -/
theorem apart_added (hledger : c.Ledger []) (h : c.Apart)
    (connection : String) (driver : Driver) :
    ({ c with
      drivers := c.drivers.push driver
      registered := putEntry connection c.drivers.size c.registered } :
    Connections).Apart := by
  have hold : ∀ {name d}, c.Serves name d → d < c.drivers.size := by
    rintro name d (hregistered | ⟨bound, hbound, rfl⟩)
    · obtain ⟨before, later, heq, -⟩ := List.lookup_eq_some_iff.mp hregistered
      refine hledger.registered (name, d) ?_
      rw [heq]
      exact List.mem_append_right _ List.mem_cons_self
    · exact hledger.driver_lt (.inr (mem_boundSessions hbound))
  have hserves : ∀ {name d}, ({ c with
      drivers := c.drivers.push driver
      registered := putEntry connection c.drivers.size c.registered } :
        Connections).Serves name d →
        name = connection ∧ d = c.drivers.size ∨ c.Serves name d := by
    rintro name d (hregistered | hbound)
    · by_cases hname : name = connection
      · subst hname
        have hnew :=
          (lookup_putEntry_self name c.drivers.size c.registered).symm.trans
            hregistered
        exact .inl ⟨rfl, (Option.some.inj hnew).symm⟩
      · exact .inr (.inl
          ((lookup_putEntry_of_ne connection c.drivers.size c.registered
            hname).symm.trans
            hregistered))
    · exact .inr (.inr hbound)
  intro one other d hone hother
  rcases hserves hone with ⟨rfl, rfl⟩ | hone'
  · rcases hserves hother with ⟨rfl, -⟩ | hother'
    · rfl
    · exact absurd (hold hother') (Nat.lt_irrefl _)
  · rcases hserves hother with ⟨rfl, rfl⟩ | hother'
    · exact absurd (hold hone') (Nat.lt_irrefl _)
    · exact h one other d hone' hother'

/-- **No call makes a driver serve two connections.** -/
theorem apart_perform (hledger : c.Ledger []) (h : c.Apart)
    (call : ConnectionCall) :
    (exec call.perform c).2.Apart := by
  cases hcall : call.connection? with
  | some connection => exact h.of_shrinks (call.spares_perform hcall).2
  | none =>
    cases call <;> cases hcall
    · exact h
    · exact apart_added hledger h _ _
    · rw [ConnectionCall.perform, exec_bind_pure_snd]
      exact h.of_shrinks (kept_shrinking_close c trivial).2.1
    · exact h
    · rw [ConnectionCall.perform, exec_bind_pure_snd]
      exact h.of_shrinks (kept_shrinking_close c trivial).2.1

end Connecting

namespace Connections

open Connecting

variable {own : Nat → Prop} {name : String} {c t start : Connections}

/-- Connections that were made with a driver of its own for each are apart. -/
theorem Fresh.apart (h : c.Fresh)
    (hdistinct : (c.registered.map Prod.snd).Nodup) : c.Apart := by
  have hentry : ∀ {name d}, c.Serves name d → (name, d) ∈ c.registered := by
    rintro name d (hregistered | ⟨bound, hbound, -⟩)
    · obtain ⟨before, later, heq, -⟩ := List.lookup_eq_some_iff.mp hregistered
      rw [heq]
      exact List.mem_append_right _ List.mem_cons_self
    · rw [h.transactions] at hbound
      cases hbound
  intro one other d hone hother
  have hsame :=
    List.inj_on_of_nodup_map hdistinct (hentry hone) (hentry hother) rfl
  exact congrArg Prod.fst hsame

/-- Names have drivers apart after any calls. -/
theorem Apart.after (hledger : c.Ledger []) (h : c.Apart)
    (calls : List ConnectionCall) :
    (c.after calls).Apart := by
  induction calls generalizing c with
  | nil => exact h
  | cons call later ih =>
    exact ih (ledger_perform hledger call) (apart_perform hledger h call)

/-- Calls are made in a state, and those about one connection also in
another one that cannot be told apart from it there: by induction on the
calls, as each is about this connection or leaves it alone.  No call lets
another connection have a driver of this one, and a call about another
connection is made on the left only. -/
theorem answers_of_parallel (h : c.Parallel own name t)
    (hown : ∀ other d, other ≠ name → own d → ¬c.Serves other d)
    (calls : List ConnectionCall)
    (hcalls : ∀ call ∈ calls, call.connection?.isSome = true) :
    ((c.answers calls).filter fun answer => c.concerns name answer.1) =
        t.answers (calls.filter (c.concerns name)) ∧
      (c.after calls).Parallel own name
        (t.after (calls.filter (c.concerns name))) := by
  induction calls generalizing c t with
  | nil => exact ⟨rfl, h⟩
  | cons call later ih =>
    obtain ⟨hcall, hlater⟩ := List.forall_mem_cons.mp hcalls
    obtain ⟨connection, hconnection⟩ := Option.isSome_iff_exists.mp hcall
    obtain ⟨hspares, hshrinks⟩ := call.spares_perform (c := c) hconnection
    have hown' : ∀ other d, other ≠ name → own d →
        ¬(exec call.perform c).2.Serves other d :=
      fun other d hne hd hserves =>
        hown other d hne hd (hshrinks other d hserves)
    have hconcerns := hspares.toAkin.concerns name
    rw [answers, after, List.foldl_cons, ← hconcerns]
    by_cases hname : c.resolve connection = name
    · have hmine : (exec call.perform c).2.concerns name call = true := by
        rw [hconcerns, concerns, hconnection, Option.map_some, hname]
        exact beq_self_eq_true _
      have hsettled : c.resolve (some name) = name :=
        hname ▸ resolve_resolve c connection
      obtain ⟨hanswer, hnext, -⟩ :=
        call.confined_perform hconnection hname { h with settled := hsettled }
      obtain ⟨hanswers, hafter⟩ := ih hnext.toParallel hown' hlater
      rw [List.filter_cons_of_pos (by exact hmine),
        List.filter_cons_of_pos hmine, answers, hanswers,
        hanswer]
      exact ⟨rfl, hafter⟩
    · have hother : ¬(exec call.perform c).2.concerns name call = true := by
        rw [hconcerns, concerns, hconnection, Option.map_some]
        exact fun heq => hname (Option.some.inj (beq_iff_eq.mp heq))
      have hnext := h.spared hspares (Ne.symm hname) fun d hd =>
        hown _ d hname hd
      rw [List.filter_cons_of_neg (by exact hother),
        List.filter_cons_of_neg hother]
      exact ih hnext hown' hlater

/-- **Connections do not interfere.**  Take connections that were made with
a driver of its own for each, after any earlier calls.  Whatever calls about
connections follow, and whatever fails in them, the answers to those about
one connection, the transaction bound to it in the end and all that has
happened to its drivers are the same as if the calls about the others had
not been made. -/
theorem connections_do_not_interfere (hfresh : start.Fresh)
    (hdistinct : (start.registered.map Prod.snd).Nodup)
    (earlier calls : List ConnectionCall)
    (hcalls : ∀ call ∈ calls, call.connection?.isSome = true)
    (name : String) :
    let c := start.after earlier
    let alone := calls.filter (c.concerns name)
    ((c.answers calls).filter fun answer => c.concerns name answer.1) =
      c.answers alone ∧
      (c.after calls).transactions.lookup name =
        (c.after alone).transactions.lookup name ∧
      ∀ d, c.Serves name d →
      (c.after calls).history d = (c.after alone).history d := by
  intro c alone
  have hapart : c.Apart :=
    (hfresh.apart hdistinct).after hfresh.ledger earlier
  have hown : ∀ other d, other ≠ name → c.Serves name d → ¬c.Serves other d :=
    fun other d hne hmine hother => hne (hapart other name d hother hmine)
  obtain ⟨hanswers, hafter⟩ :=
    answers_of_parallel (Parallel.refl name c) hown calls hcalls
  exact ⟨hanswers, hafter.bound.symm, fun d hd => (hafter.history d hd).symm⟩

/-- Calls about two connections in turn, with a begin that fails for one and
a commit that fails for the other. -/
def interleaved : List ConnectionCall :=
  [.beginTransaction none, .beginTransaction (some "spare"),
    .run "RETURN 1" [] (some "spare"),
    .run "RETURN 2" [] (some "main"), .commitTransaction (some "spare"),
    .commitTransaction none,
    .verifyConnectivity (some "spare"), .inTransaction none]

/-- Calls about a second connection show neither in the answers of the first
one nor in the history of its driver. -/
theorem connections_do_not_interfere_of_interleaved :
    let alone : List ConnectionCall :=
      [.beginTransaction none, .run "RETURN 2" [] (some "main"),
        .commitTransaction none,
        .inTransaction none]
    (unreliable.answers interleaved).filter (fun answer =>
      unreliable.concerns "main" answer.1) =
        unreliable.answers alone ∧
      (unreliable.after interleaved).history 0 =
        (unreliable.after alone).history 0 ∧
      (unreliable.after interleaved).history 0 =
        [.session 1 none, .begin 1, .runInTransaction 1 "RETURN 2" [],
          .commit 1, .closeSession 1] := by
  have hcalls : ∀ call ∈ interleaved, call.connection?.isSome = true := by
    decide
  have hdistinct : (unreliable.registered.map Prod.snd).Nodup := by
    decide +kernel
  obtain ⟨hanswers, -, hhistory⟩ :=
    connections_do_not_interfere (fresh_ofDrivers _ _ _ _) hdistinct []
    interleaved hcalls "main"
  refine ⟨hanswers, hhistory 0 (.inl ?_), ?_⟩
  · decide +kernel
  · rfl

end Connections

end GraphQuery
