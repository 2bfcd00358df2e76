import GraphQuery.Proofs.Connections.Isolation

/-!
# Closing connections

Closing rolls the bound transactions back one after the other and then
closes every driver.  The first rollback that fails ends it: the session of
that transaction is still closed, but the transactions bound after it stay
bound, their sessions stay open, and no driver is closed.  Only if every
rollback succeeds is everything released
(`Connections.close_releases_until_failure`).
-/

namespace GraphQuery

open GraphQuery.Computation

/-- What happens to the driver of a transaction that is rolled back. -/
def BoundTransaction.rollbackEvents (s : BoundTransaction) :
    List (Nat × DriverEvent) :=
  [(s.driver, .rollback s.session), (s.driver, .closeSession s.session)]

namespace Connections

/-- Sessions and drivers are closed without a failure. -/
def ClosesWell (c : Connections) : Prop :=
  ∀ (d : Nat) (driver : Driver), c.drivers[d]? = some driver → ∀ history,
    (∀ n, driver.fails history (.closeSession n) = none) ∧
    driver.fails history .close = none

/-- Every transaction is bound to a connection that is meant by its name. -/
def Settled (c : Connections) : Prop :=
  ∀ name, (c.transactions.lookup name).isSome = true →
  c.resolve (some name) = name

/-- Everything is released: no transaction is bound, no session is open, and
the driver of every connection has been closed. -/
structure Released (c : Connections) : Prop where
  transactions : c.transactions = []
  sessions : ∀ s, ¬c.IsOpen s
  drivers : ∀ entry ∈ c.registered, (entry.2, DriverEvent.close) ∈ c.events

/-- What has happened when some transactions have been rolled back and their
sessions closed. -/
def rolledBack (c : Connections)
    (released : List (String × BoundTransaction)) : Connections :=
  { c with events := c.events ++ released.flatMap fun entry =>
    entry.2.rollbackEvents }

/-- Transactions that can be rolled back one after the other. -/
def RollsBack (c : Connections) : List (String × BoundTransaction) → Prop
  | [] => True
  | entry :: later =>
    c.failure? entry.2.driver (.rollback entry.2.session) = none ∧
    (c.rolledBack [entry]).RollsBack later

variable {c t : Connections} {d : Nat} {s : BoundTransaction}

/-- Whether anything closes well depends on the drivers only. -/
theorem ClosesWell.of_drivers (h : c.ClosesWell)
    (hdrivers : t.drivers = c.drivers) :
    t.ClosesWell := by
  intro d driver hdriver
  rw [hdrivers] at hdriver
  exact h d driver hdriver

/-- Sessions are closed without a failure. -/
theorem ClosesWell.closeSession (h : c.ClosesWell) (d n : Nat) :
    c.failure? d (.closeSession n) = none := by
  rw [failure?, Option.bind_eq_none_iff]
  intro driver hdriver
  exact (h d driver hdriver _).1 n

/-- Drivers are closed without a failure. -/
theorem ClosesWell.close (h : c.ClosesWell) (d : Nat) :
    c.failure? d .close = none := by
  rw [failure?, Option.bind_eq_none_iff]
  intro driver hdriver
  exact (h d driver hdriver _).2

/-- Nothing is rolled back where nothing is to be. -/
theorem rolledBack_nil (c : Connections) : c.rolledBack [] = c := by
  rw [rolledBack, List.flatMap_nil, List.append_nil]

/-- Transactions can be rolled back in two goes. -/
theorem rolledBack_append (c : Connections)
    (first later : List (String × BoundTransaction)) :
    (c.rolledBack first).rolledBack later =
      c.rolledBack (first ++ later) := by
  simp only [rolledBack, List.flatMap_append, List.append_assoc]

/-- Whether transactions can be rolled back depends on the drivers and on
what has happened to them. -/
theorem rollsBack_congr (transactions : List (String × BoundTransaction))
    (log : List LogEvent) (entries : List (String × BoundTransaction)) :
    ({ c with transactions, log } : Connections).RollsBack entries ↔
    c.RollsBack entries := by
  induction entries generalizing c with
  | nil => exact Iff.rfl
  | cons entry later ih =>
    exact and_congr Iff.rfl (ih (c := c.rolledBack [entry]))

/-- A step about one connection binds a transaction to no other. -/
theorem Settled.of_spares {own : Nat → Prop} {connection : Option String}
    (h : c.Settled) (hspares : c.Spares own (c.resolve connection) t) :
    t.Settled := by
  intro name hbound
  rw [hspares.toAkin.resolve]
  by_cases hname : name = c.resolve connection
  · rw [hname]
    exact resolve_resolve c connection
  · rw [hspares.bound name hname] at hbound
    exact h name hbound

end Connections

namespace Connecting

open Connections

variable {c : Connections} {s : BoundTransaction}

/-- Rolling back keeps the connections settled. -/
theorem settled_rollbackTransaction (h : c.Settled)
    (connection : Option String) :
    (exec (rollbackTransaction connection) c).2.Settled := by
  have hspares :=
    (@ConnectionCall.spares_perform c (.rollbackTransaction connection)
      _ rfl).1
  rw [ConnectionCall.perform, exec_bind_pure_snd] at hspares
  exact h.of_spares hspares

/-- Closing binds no transaction. -/
theorem kept_settled_close : (Guarantee.keeping Settled).Kept close := by
  have hrollback : ∀ entry : String × BoundTransaction,
      (Guarantee.keeping Settled).Kept (rollbackTransaction (some entry.1)) :=
    fun entry t ht =>
      ⟨settled_rollbackTransaction ht _, trivial, fun _ _ => trivial⟩
  apply Guarantee.kept_get_bind
  intro c
  refine (Guarantee.kept_forM (fun entry _ => hrollback entry) c).bind
    fun _ t _ _ _ => ?_
  refine Guarantee.kept_get_bind (fun u =>
    Guarantee.kept_forM (fun entry _ => ?_) u) t
  refine Guarantee.Kept.bind (fun v hv => ?_) fun _ v =>
    Guarantee.at_modify fun hv => ?_
  · rw [exec_act]
    exact ⟨hv, trivial, fun _ _ => trivial⟩
  · exact ⟨hv, trivial, trivial⟩

/-- **Every call binds transactions under settled names.** -/
theorem settled_perform (h : c.Settled) (call : ConnectionCall) :
    (exec call.perform c).2.Settled := by
  cases hcall : call.connection? with
  | some connection => exact h.of_spares (call.spares_perform hcall).1
  | none =>
    cases call <;> cases hcall
    · exact h
    · exact h
    · rw [ConnectionCall.perform, exec_bind_pure_snd]
      exact (kept_settled_close c h).1
    · exact h
    · rw [ConnectionCall.perform, exec_bind_pure_snd]
      exact (kept_settled_close c h).1

/-- A transaction is finished and its session closed, whatever the driver
answers. -/
theorem exec_closing_act (hcloses : c.ClosesWell) (s : BoundTransaction)
    (event : DriverEvent) :
    exec (closing s.driver s.session (act s.driver event)) c =
      (match c.failure? s.driver event with
        | some failure => .error (.driver failure)
        | none => .ok (),
      (c.happened s.driver event).happened s.driver
        (.closeSession s.session)) := by
  have hwell : (c.happened s.driver event).ClosesWell :=
    hcloses.of_drivers rfl
  rw [closing, exec_bind, exec_lift_run, exec_act]
  dsimp only
  rw [exec_bind, exec_act, hwell.closeSession]
  cases c.failure? s.driver event <;> rfl

/-- The first of the transactions bound is rolled back.  No later entry has
the name of the first one. -/
theorem exec_rollbackTransaction {connection : String}
    {later : List (String × BoundTransaction)} (hcloses : c.ClosesWell)
    (hsettled : c.resolve (some connection) = connection)
    (htransactions : c.transactions = (connection, s) :: later)
    (hkeys : (c.transactions.map Prod.fst).Nodup) :
    ∃ log, exec (rollbackTransaction (some connection)) c =
      (match c.failure? s.driver (.rollback s.session) with
        | some failure => .error (.driver failure)
        | none => .ok (),
      { c with
        transactions := later
        events := c.events ++ s.rollbackEvents
        log }) := by
  have hlookup : c.transactions.lookup connection = some s := by
    rw [htransactions, List.lookup_cons_self]
  have hdrop : dropEntry connection c.transactions = later := by
    rw [htransactions, List.map_cons, List.nodup_cons] at hkeys
    rw [htransactions, dropEntry, List.filter_cons_of_neg (by simp),
      List.filter_eq_self]
    intro entry hentry
    exact bne_iff_ne.mpr fun hsame =>
      hkeys.1 (List.mem_map.mpr ⟨entry, hentry, hsame⟩)
  have hunbind := exec_unbind connection "rollback_transaction" c
  rw [hlookup, hdrop] at hunbind
  let unbound : Connections := { c with transactions := later }
  have hfinished := exec_closing_act (c := unbound) (hcloses.of_drivers rfl)
    s (.rollback s.session)
  have hevents : (unbound.happened s.driver (.rollback s.session)).happened
      s.driver (.closeSession s.session) =
      { c with
        transactions := later
        events := c.events ++ s.rollbackEvents } := by
    simp [unbound, happened, BoundTransaction.rollbackEvents]
  have hsame : unbound.failure? s.driver (.rollback s.session) =
      c.failure? s.driver (.rollback s.session) := rfl
  rw [hevents, hsame] at hfinished
  rw [rollbackTransaction, exec_bind, exec_resolve, hsettled]
  dsimp only
  rw [exec_bind, hunbind]
  dsimp only
  rw [exec_bind, hfinished]
  cases c.failure? s.driver (.rollback s.session) with
  | none => exact ⟨_, rfl⟩
  | some failure => exact ⟨c.log, rfl⟩

/-- How rolling transactions back ends: all of them are rolled back, or one
of them fails. -/
inductive RollbackEnds (c : Connections) :
    List (String × BoundTransaction) → List (String × BoundTransaction) →
    Except Fault Unit → Prop
  | all {released : List (String × BoundTransaction)}
      (hall : c.RollsBack released) :
    RollbackEnds c released [] (.ok ())
  | failed (before : List (String × BoundTransaction))
      {later : List (String × BoundTransaction)}
    {entry : String × BoundTransaction} {failure : DriverFailure}
    (hbefore : c.RollsBack before)
    (hfails : (c.rolledBack before).failure? entry.2.driver
      (.rollback entry.2.session) =
      some failure) :
    RollbackEnds c (before ++ [entry]) later (.error (.driver failure))

/-- Rolling back goes on with what follows a transaction that can be rolled
back. -/
theorem RollbackEnds.cons {entry : String × BoundTransaction}
    {released kept : List (String × BoundTransaction)}
    {outcome : Except Fault Unit}
    (hentry : c.failure? entry.2.driver (.rollback entry.2.session) = none)
    (h : RollbackEnds (c.rolledBack [entry]) released kept outcome) :
    RollbackEnds c (entry :: released) kept outcome := by
  cases h with
  | all hall => exact .all ⟨hentry, hall⟩
  | @failed before _ last failure hbefore hfails =>
    rw [rolledBack_append] at hfails
    exact .failed (entry :: before) ⟨hentry, hbefore⟩ hfails

/-- What is still bound and what is logged make no difference to how rolling
back ends. -/
theorem RollbackEnds.congr {transactions : List (String × BoundTransaction)}
    {log : List LogEvent} {released kept : List (String × BoundTransaction)}
    {outcome : Except Fault Unit}
    (h : RollbackEnds { c with transactions, log } released kept outcome) :
    RollbackEnds c released kept outcome := by
  cases h with
  | all hall => exact .all ((rollsBack_congr transactions log _).mp hall)
  | failed before hbefore hfails =>
    exact .failed before ((rollsBack_congr transactions log _).mp hbefore)
      hfails

/-- **The bound transactions are rolled back up to the first one that
fails**, which is released like those before it; by induction on the
transactions, each of which is the first one bound when its turn comes.
What is still bound keeps its order. -/
theorem exec_rollbacks (entries : List (String × BoundTransaction))
    (hcloses : c.ClosesWell) (hsettled : c.Settled)
    (htransactions : c.transactions = entries)
    (hkeys : (c.transactions.map Prod.fst).Nodup) :
    ∃ released kept outcome log, entries = released ++ kept ∧
    RollbackEnds c released kept outcome ∧
      exec (entries.forM fun entry => rollbackTransaction (some entry.1)) c =
        (outcome, { c with transactions := kept, events :=
          (c.rolledBack released).events, log }) := by
  induction entries generalizing c with
  | nil =>
    refine ⟨[], [], .ok (), c.log, rfl, .all trivial, ?_⟩
    have hsame : ({ c with transactions := [] } : Connections) = c := by
      rw [← htransactions]
    rw [rolledBack_nil]
    exact congrArg (Prod.mk (Except.ok ())) hsame.symm
  | cons entry later ih =>
    obtain ⟨connection, s⟩ := entry
    have hlookup : c.transactions.lookup connection = some s := by
      rw [htransactions, List.lookup_cons_self]
    have hname : c.resolve (some connection) = connection :=
      hsettled connection (by rw [hlookup]; rfl)
    obtain ⟨log, hfirst⟩ :=
      exec_rollbackTransaction hcloses hname htransactions hkeys
    have hnext := settled_rollbackTransaction hsettled (some connection)
    show ∃ released kept outcome log, _ ∧ _ ∧ exec (do
      rollbackTransaction (some connection)
      later.forM fun entry => rollbackTransaction (some entry.1)) c = _
    rw [exec_bind]
    cases hfails : c.failure? s.driver (.rollback s.session) with
    | some failure =>
      rw [hfails] at hfirst
      refine ⟨[(connection, s)], later, .error (.driver failure), log,
        rfl, ?_, ?_⟩
      · exact .failed [] trivial (by rw [rolledBack_nil]; exact hfails)
      · rw [hfirst, rolledBack, List.flatMap_singleton]
    | none =>
      rw [hfails] at hfirst
      rw [hfirst] at hnext
      have hlater : (later.map Prod.fst).Nodup := by
        rw [htransactions, List.map_cons] at hkeys
        exact (List.nodup_cons.mp hkeys).2
      obtain ⟨released, kept, outcome, log', hsplit, hends, hrest⟩ :=
        ih (c := { c with transactions := later, events := c.events ++
          s.rollbackEvents, log })
          (hcloses.of_drivers rfl) hnext rfl hlater
      refine ⟨(connection, s) :: released, kept, outcome, log', ?_,
        hends.congr.cons hfails, ?_⟩
      · rw [hsplit, List.cons_append]
      · rw [hfirst]
        dsimp only
        rw [hrest]
        simp only [rolledBack, List.flatMap_cons, List.append_assoc]

/-- Drivers that close without a failure are all closed. -/
theorem exec_closeDrivers (entries : List (String × Nat))
    (hcloses : c.ClosesWell) :
    ∃ log, exec (entries.forM fun (connection, driver) => do
        act driver .close
        Connecting.log .info "Closed Neo4j connection"
          [("connection", .text connection)]) c =
      (.ok (), { c with events := c.events ++ entries.map fun entry =>
        (entry.2, .close), log }) := by
  induction entries generalizing c with
  | nil =>
    rw [List.map_nil, List.append_nil]
    exact ⟨c.log, rfl⟩
  | cons entry later ih =>
    obtain ⟨connection, d⟩ := entry
    let logged : Connections := { c.happened d .close with
      log := c.log ++ [{ level := .info, event := "Closed Neo4j connection",
                         fields := [("connection", .text connection)] }] }
    obtain ⟨log, hlater⟩ := ih (c := logged) (hcloses.of_drivers rfl)
    refine ⟨log, ?_⟩
    have hfirst : exec (do
        act d .close
        Connecting.log .info "Closed Neo4j connection"
          [("connection", .text connection)]) c =
          (.ok (), logged) := by
      rw [exec_bind, exec_act, hcloses.close]
      rfl
    show exec (do
      (do
        act d .close
        Connecting.log .info "Closed Neo4j connection"
          [("connection", .text connection)])
      later.forM fun (connection, driver) => do
        act driver .close
        Connecting.log .info "Closed Neo4j connection"
          [("connection", .text connection)]) c = _
    rw [exec_bind, hfirst]
    dsimp only
    rw [hlater, List.map_cons]
    simp [logged, happened]

end Connecting

namespace Connections

open Connecting

variable {c start : Connections}

/-- Any calls keep the connections settled. -/
theorem Settled.after (h : c.Settled) (calls : List ConnectionCall) :
    (c.after calls).Settled := by
  induction calls generalizing c with
  | nil => exact h
  | cons call later ih => exact ih (settled_perform h call)

/-- Fresh connections are settled. -/
theorem Fresh.settled (h : c.Fresh) : c.Settled := by
  intro name hbound
  rw [h.transactions] at hbound
  cases hbound

/-- **Closing releases what it can reach.**  Take connections after any
calls, whose sessions and drivers close without a failure.  If every bound
transaction can be rolled back, closing succeeds and releases everything: no
transaction is bound, no session is open and every driver is closed.  Else
closing ends with the failure of the first rollback that fails: the
transactions up to this one are released, those after it stay bound with
their sessions open, and no driver is closed.  Closing keeps the ledger,
also where it fails, so what is open then is what is still bound. -/
theorem close_releases_until_failure (hfresh : start.Fresh)
    (calls : List ConnectionCall) (hcloses : (start.after calls).ClosesWell) :
    let c := start.after calls
    let outcome := (exec Connecting.close c).1
    let t := (exec Connecting.close c).2
    (c.RollsBack c.transactions ∧ outcome = .ok () ∧ t.Released ∧
        t.events = (c.rolledBack c.transactions).events ++
          c.registered.map fun entry => (entry.2, .close)) ∨
      ∃ before entry later failure, c.transactions = before ++
        entry :: later ∧
        c.RollsBack before ∧
        (c.rolledBack before).failure? entry.2.driver
          (.rollback entry.2.session) = some failure ∧
        outcome = .error (.driver failure) ∧ t.transactions = later ∧
        (∀ s, t.IsOpen s ↔ ∃ connection, (connection, s) ∈ later) ∧
        t.events = (c.rolledBack (before ++ [entry])).events := by
  intro c outcome t
  have hledger : c.Ledger [] := hfresh.ledger.after calls
  obtain ⟨released, kept, ended, log, hsplit, hends, hrollbacks⟩ :=
    exec_rollbacks c.transactions hcloses (hfresh.settled.after calls)
      rfl hledger.connections
  have hclose : exec Connecting.close c = exec (do
      c.transactions.forM fun entry => rollbackTransaction (some entry.1)
      (← get).registered.forM fun (connection, driver) => do
        act driver .close
        Connecting.log .info "Closed Neo4j connection"
          [("connection", .text connection)]) c := rfl
  rw [exec_bind, hrollbacks] at hclose
  have hledger' : t.Ledger [] := (kept_close c hledger).1
  have hopen : ∀ s, t.IsOpen s ↔
      ∃ connection, (connection, s) ∈ t.transactions := by
    intro s
    rw [hledger'.isOpen, boundSessions, List.mem_map]
    simp
  cases hends with
  | all hall =>
    left
    rw [List.append_nil] at hsplit
    dsimp only at hclose
    rw [exec_bind, exec_get] at hclose
    obtain ⟨log', hdrivers⟩ := exec_closeDrivers
      (c := { c with transactions := [], events :=
        (c.rolledBack released).events, log })
      c.registered (hcloses.of_drivers rfl)
    have hended := hclose.trans hdrivers
    have ht : t = _ := congrArg Prod.snd hended
    have hnone : t.transactions = [] := by rw [ht]
    have hevents : t.events = (c.rolledBack released).events ++
        c.registered.map fun entry => (entry.2, .close) := by rw [ht]
    rw [← hsplit] at hall hevents
    refine ⟨hall, congrArg Prod.fst hended, ⟨hnone, fun s hs => ?_, ?_⟩,
      hevents⟩
    · obtain ⟨connection, hmem⟩ := (hopen s).mp hs
      rw [hnone] at hmem
      cases hmem
    · intro entry hentry
      have hregistered : t.registered = c.registered := by rw [ht]
      rw [hregistered] at hentry
      rw [hevents]
      exact List.mem_append_right _ (List.mem_map.mpr ⟨entry, hentry, rfl⟩)
  | @failed before _ entry failure hbefore hfails =>
    right
    have ht : t = _ := congrArg Prod.snd hclose
    have hkept : t.transactions = kept := by rw [ht]
    rw [List.append_assoc, List.singleton_append] at hsplit
    refine ⟨before, entry, kept, failure, hsplit, hbefore, hfails,
      congrArg Prod.fst hclose, hkept,
      ?_, by rw [ht]⟩
    rw [← hkept]
    exact hopen

/-- Connections to two drivers, of which the one of the default connection
does not roll back. -/
def clinging : Connections :=
  ofDrivers [("main", .failing "m" [] [("rollback", .service "stuck")]),
    ("spare", .failing "s" [] [])]
    (some "main") none {}

/-- The transactions of three connections, two of them over one driver; the
second rollback fails. -/
theorem close_releases_until_failure_of_clinging :
    let c := clinging.after [.beginTransaction (some "spare"),
      .beginTransaction none,
      .addConnection "third" (.failing "t" [] []),
      .beginTransaction (some "third")]
    let closed := exec Connecting.close c
    c.transactions = [("spare", ⟨1, 1⟩), ("main", ⟨0, 1⟩),
      ("third", ⟨2, 1⟩)] ∧
      closed.1 = .error (.driver (.service "stuck")) ∧
      closed.2.transactions = [("third", ⟨2, 1⟩)] ∧ closed.2.IsOpen ⟨2, 1⟩ ∧
      ¬closed.2.IsOpen ⟨0, 1⟩ ∧
      (∀ d, (d, DriverEvent.close) ∉ closed.2.events) := by
  intro c closed
  have hdrivers : c.drivers =
      #[.failing "m" [] [("rollback", .service "stuck")],
      .failing "s" [] [], .failing "t" [] []] := rfl
  have hcloses : c.ClosesWell := by
    intro d driver hdriver history
    rw [hdrivers] at hdriver
    match d with
    | 0 | 1 | 2 =>
      cases hdriver
      exact ⟨fun _ => rfl, rfl⟩
    | _ + 3 => cases hdriver
  have hbound : c.transactions = [("spare", ⟨1, 1⟩), ("main", ⟨0, 1⟩),
      ("third", ⟨2, 1⟩)] := rfl
  have hleft : closed.2.transactions = [("third", ⟨2, 1⟩)] := rfl
  have hfresh : clinging.Fresh := fresh_ofDrivers _ _ _ _
  rcases close_releases_until_failure hfresh _ hcloses with
    ⟨hall, -⟩ | ⟨before, entry, later, failure, -, -, -, -, hkept, hopen, -⟩
  · rw [show (clinging.after _).transactions = _ from hbound] at hall
    have hstuck : some (DriverFailure.service "stuck") = none := hall.2.1
    cases hstuck
  · have hlater : later = [("third", ⟨2, 1⟩)] := hkept.symm.trans hleft
    have hhappened : closed.2.events = [(1, .session 1 none), (1, .begin 1),
        (0, .session 1 none),
        (0, .begin 1), (2, .session 1 none), (2, .begin 1), (1, .rollback 1),
        (1, .closeSession 1),
        (0, .rollback 1), (0, .closeSession 1)] := rfl
    rw [hlater] at hopen
    refine ⟨hbound, rfl, hleft,
      (hopen _).mpr ⟨"third", List.mem_singleton_self _⟩, ?_, ?_⟩
    · intro hmain
      obtain ⟨connection, hmem⟩ := (hopen _).mp hmain
      cases List.mem_singleton.mp hmem
    · intro d hmem
      rw [hhappened] at hmem
      simp at hmem

end Connections

end GraphQuery
