import GraphQuery.Proofs.Connections.Ledger

/-!
# Sessions and transactions are accounted for

Whatever the calls of the connections do, and whatever fails in them, they
leave a ledger behind in which no session is in hand: the open sessions are
those of the transactions bound (`Connections.sessions_accounted_for`).  The
lemmas follow the functions that the calls are made of; each says which
session is in hand before and after.
-/

namespace GraphQuery

open GraphQuery.Computation

/-- Connections with a ledger, with the same drivers and the same
transactions bound as before. -/
structure Connections.Stays (c t : Connections)
    (inHand : List BoundTransaction) : Prop where
  ledger : t.Ledger inHand
  drivers : t.drivers = c.drivers
  transactions : t.transactions = c.transactions

namespace Connections.Stays

variable {c t u : Connections} {inHand later : List BoundTransaction}

/-- What stays in order does so step by step. -/
theorem trans (hct : c.Stays t inHand) (htu : t.Stays u later) :
    c.Stays u later where
  ledger := htu.ledger
  drivers := htu.drivers.trans hct.drivers
  transactions := htu.transactions.trans hct.transactions

/-- Logging leaves everything in order. -/
theorem logged (h : c.Stays t inHand) (log : List LogEvent) :
    c.Stays { t with log } inHand where
  ledger := h.ledger.logged log
  drivers := h.drivers
  transactions := h.transactions

end Connections.Stays

namespace Connecting

variable {c : Connections} {d : Nat} {s : BoundTransaction}
    {event : DriverEvent}
  {inHand : List BoundTransaction}

/-- Calling a driver is an event, whether it fails or not. -/
theorem exec_act (d : Nat) (event : DriverEvent) (c : Connections) :
    exec (act d event) c =
      (match c.failure? d event with
        | some failure => .error (.driver failure)
        | none => .ok (), c.happened d event) := by
  rw [act, exec_bind, exec_get]
  dsimp only
  rw [exec_bind, exec_set]
  dsimp only
  cases c.failure? d event <;> rfl

/-- An event that leaves a ledger behind. -/
theorem yields_act (h : (c.happened d event).Ledger inHand) :
    Yields (act d event) c fun _ t => c.Stays t inHand :=
  .of_exec (exec_act d event c) ⟨h, rfl, rfl⟩

/-- Logging leaves the ledger as it is. -/
theorem yields_log (h : c.Ledger inHand) (level : Severity) (event : String)
    (fields : List (String × Value)) :
    Yields (log level event fields) c fun _ t => c.Stays t inHand :=
  .of_exec (exec_modify _ c) ⟨h.logged _, rfl, rfl⟩

/-- Resolving a name changes nothing. -/
theorem exec_resolve (connection : Option String) (c : Connections) :
    exec (resolve connection) c = (.ok (c.resolve connection), c) := by
  rw [resolve, exec_bind, exec_get]
  rfl

/-- A driver that is registered is there. -/
theorem yields_driver (h : c.Ledger inHand) (connection : Option String) :
    Yields (driver connection) c fun r t => t = c ∧ ∀ d, r = .ok d →
    d < c.drivers.size := by
  apply Yields.get_bind
  dsimp only
  cases hlookup : c.registered.lookup (c.resolve connection) with
  | none => exact ⟨rfl, fun _ hr => nomatch hr⟩
  | some d =>
    refine ⟨rfl, fun d' hr => ?_⟩
    cases hr
    obtain ⟨before, later, hregistered, -⟩ :=
      List.lookup_eq_some_iff.mp hlookup
    refine h.registered (c.resolve connection, d) ?_
    rw [hregistered]
    exact List.mem_append_right _ List.mem_cons_self

/-- Opening a session answers with its number, unless the driver fails. -/
theorem exec_openSession (d : Nat) (c : Connections) :
    exec (openSession d) c =
      let event := .session (c.nextSession d) c.database
      (match c.failure? d event with
        | some failure => .error (.driver failure)
        | none => .ok (c.nextSession d), c.happened d event) := by
  rw [openSession, exec_bind, exec_get]
  dsimp only
  rw [exec_bind, exec_act]
  cases c.failure? d (.session (c.nextSession d) c.database) <;> rfl

/-- A session that is opened is in hand, and nothing has been done in it. -/
theorem yields_openSession (h : c.Ledger inHand) (hd : d < c.drivers.size) :
    Yields (openSession d) c fun r t =>
      match r with
      | .ok n => c.Stays t (⟨d, n⟩ :: inHand) ∧ t.Unfinished ⟨d, n⟩
      | .error _ => c.Stays t inHand := by
  apply Yields.of_exec (exec_openSession d c)
  cases hfails : c.failure? d (.session (c.nextSession d) c.database) with
  | some failure =>
    exact ⟨h.refused hd c.database (by rw [hfails]; exact nofun), rfl, rfl⟩
  | none =>
    refine ⟨⟨h.opened hd c.database hfails, rfl, rfl⟩, ?_⟩
    intro event hevent hhas
    rcases List.mem_append.mp hevent with hearlier | hlast
    · exact absurd (h.known _ event hearlier hhas) (Nat.lt_irrefl _)
    · rw [List.mem_singleton.mp hlast]
      rfl

/-- Whatever is done with a session in hand, it is closed in the end. -/
theorem yields_closing {α : Type} {body : Connecting α}
    (hbody : Yields body c fun _ t => c.Stays t (s :: inHand)) :
    Yields (closing s.driver s.session body) c fun _ t =>
      c.Stays t inHand := by
  rw [Yields] at hbody
  rw [Yields, closing, exec_bind, exec_lift_run]
  dsimp only
  generalize exec body c = ended at hbody ⊢
  have hclosed :
      c.Stays (ended.2.happened s.driver (.closeSession s.session)) inHand :=
    hbody.trans ⟨hbody.ledger.closed, rfl, rfl⟩
  rw [exec_bind, exec_act]
  cases ended.2.failure? s.driver (.closeSession s.session) <;> exact hclosed

/-- Reading the records keeps the ledger. -/
theorem yields_collect (h : c.Ledger inHand) (hd : d < c.drivers.size) :
    Yields (collect d) c fun _ t => c.Stays t inHand := by
  apply Yields.get_bind
  dsimp only
  split
  · exact (yields_act (h.outside .data hd rfl)).bind (fun _ _ ht =>
      ht) fun _ _ ht => ht
  · exact ⟨h, rfl, rfl⟩

/-- An answer of the database that is turned into a failed query changes
nothing else. -/
theorem yields_explaining {α : Type} {body : Connecting α}
    {fits : Connections → Prop} (connection query : String)
    (names : List String) (hbody : Yields body c fun _ t => fits t) :
    Yields (explaining connection query names body) c fun _ t => fits t := by
  refine hbody.tryCatch (fun _ _ ht => ht) fun fault t ht => ?_
  split
  · exact ht
  · exact ht

/-- Logging an error keeps what is done before it. -/
theorem yields_logging {α : Type} {body : Connecting α} (function : String)
    (hbody : Yields body c fun _ t => c.Stays t inHand) :
    Yields (logging function body) c fun _ t => c.Stays t inHand :=
  hbody.tryCatch (fun _ _ ht => ht) fun _ _ ht =>
    Yields.bind_of_exec (exec_modify _ _) (ht.logged _)

/-- A transaction that is looked up is bound. -/
theorem mem_boundSessions {connection : String}
    (h : c.transactions.lookup connection = some s) :
    s ∈ c.boundSessions := by
  obtain ⟨before, later, htransactions, -⟩ := List.lookup_eq_some_iff.mp h
  rw [Connections.boundSessions, htransactions, List.map_append]
  exact List.mem_append_right _ List.mem_cons_self

/-- A query run in the transaction that is bound. -/
theorem yields_runBound (h : c.Ledger inHand) (hs : s ∈ c.boundSessions)
    (query : String) (parameters : List (String × Value)) :
    Yields
      (do
        act s.driver (.runInTransaction s.session query parameters)
        collect s.driver)
      c fun _ t => c.Stays t inHand := by
  have hused := h.used (.runInTransaction s.session query parameters)
    (.inr hs) rfl rfl
    nofun nofun fun _ => h.pending s hs
  refine (yields_act hused).bind (fun _ t ht => ?_) fun _ _ ht => ht
  have hd : s.driver < t.drivers.size := by
    rw [ht.drivers]
    exact h.driver_lt (.inr hs)
  exact (yields_collect ht.ledger hd).mono fun _ _ hu => ht.trans hu

/-- A query run in a session in hand. -/
theorem yields_runAlone (h : c.Ledger (s :: inHand)) (query : String)
    (parameters : List (String × Value)) :
    Yields
      (do act s.driver (.run s.session query parameters); collect s.driver) c
      fun _ t => c.Stays t (s :: inHand) := by
  have hs : s ∈ s :: inHand ∨ s ∈ c.boundSessions := .inl List.mem_cons_self
  have hused :=
    h.used (.run s.session query parameters) hs rfl rfl nofun nofun nofun
  refine (yields_act hused).bind (fun _ t ht => ?_) fun _ _ ht => ht
  have hd : s.driver < t.drivers.size := by
    rw [ht.drivers]
    exact h.driver_lt hs
  exact (yields_collect ht.ledger hd).mono fun _ _ hu => ht.trans hu

/-- A query run in a session of its own, which is closed in the end. -/
theorem yields_runInSession (h : c.Ledger []) (query : String)
    (parameters : List (String × Value)) (connection : String) :
    Yields (do
      let driver ← driver (some connection)
      let session ← openSession driver
      closing driver session do
        act driver (.run session query parameters)
        collect driver) c fun _ t => c.Stays t [] := by
  refine (yields_driver h _).bind (fun d t ht => ?_) fun _ t ht => ?_
  · obtain ⟨rfl, hd⟩ := ht
    refine (yields_openSession h (hd d rfl)).bind (fun n u hu =>
      ?_) fun _ u hu => hu
    have hclosed := yields_closing (s := ⟨d, n⟩)
      (yields_runAlone hu.1.ledger query parameters)
    exact hclosed.mono fun _ _ hv => hu.1.trans hv
  · rw [ht.1]
    exact ⟨h, rfl, rfl⟩

/-- **A query changes no binding**, whether it succeeds or fails, and closes
the session it opens. -/
theorem yields_runQuery (h : c.Ledger []) (query : String)
    (parameters : List (String × Value)) (connection : Option String) :
    Yields (runQuery query parameters connection) c fun _ t =>
      c.Stays t [] := by
  apply yields_logging
  apply Yields.bind_of_exec (exec_resolve connection c)
  refine (yields_log h _ _ _).bind (fun _ t ht => ?_) fun _ _ ht => ht
  refine Yields.mono (p := fun _ u => t.Stays u []) ?_ fun _ _ hu => ht.trans hu
  apply yields_explaining
  apply Yields.get_bind
  split
  · next bound hbound =>
      exact yields_runBound ht.ledger (mem_boundSessions hbound) query
        parameters
  · exact yields_runInSession ht.ledger query parameters _

/-- The beginning of a transaction, in a session that is closed if it fails. -/
theorem yields_begin (h : c.Ledger (s :: inHand))
    (hpending : c.Unfinished s) :
    Yields (tryCatch (act s.driver (.begin s.session)) fun fault => do
      act s.driver (.closeSession s.session)
      throw fault) c fun r t =>
        match r with
        | .ok _ => c.Stays t (s :: inHand) ∧ t.Unfinished s
        | .error _ => c.Stays t inHand := by
  have hbegun :=
    h.used (.begin s.session) (.inl List.mem_cons_self) rfl rfl nofun nofun
    nofun
  have hact : Yields (act s.driver (.begin s.session)) c fun _ t =>
      c.Stays t (s :: inHand) ∧ t.Unfinished s := by
    refine .of_exec (exec_act _ _ c) ⟨⟨hbegun, rfl, rfl⟩, ?_⟩
    intro event hevent hhas
    rcases List.mem_append.mp hevent with hearlier | hlast
    · exact hpending event hearlier hhas
    · rw [List.mem_singleton.mp hlast]
      rfl
  refine hact.tryCatch (fun _ _ ht => ht) fun fault t ht => ?_
  have hclosed := yields_act ht.1.ledger.closed
  exact hclosed.bind (fun _ u hu => ht.1.trans hu) fun _ u hu => ht.1.trans hu

/-- A transaction that begins is bound; one that does not begin changes no
binding. -/
theorem yields_beginTransaction (h : c.Ledger [])
    (connection : Option String) :
    Yields (beginTransaction connection) c fun r t => t.Ledger [] ∧
    t.drivers = c.drivers ∧
      (r.isOk = false → t.transactions = c.transactions) := by
  have hstays : ∀ {r : Except Fault Unit} {t}, c.Stays t [] → t.Ledger [] ∧
      t.drivers = c.drivers ∧
      (r.isOk = false → t.transactions = c.transactions) :=
    fun ht => ⟨ht.ledger, ht.drivers, fun _ => ht.transactions⟩
  apply Yields.bind_of_exec (exec_resolve connection c)
  apply Yields.get_bind
  dsimp only
  cases hbound : c.transactions.lookup (c.resolve connection) with
  | some bound => exact ⟨h, rfl, fun _ => rfl⟩
  | none =>
    refine (yields_driver h _).bind (fun d t ht => ?_) fun _ t ht => ?_
    · obtain ⟨rfl, hd⟩ := ht
      refine (yields_openSession h (hd d rfl)).bind (fun n u hu =>
        ?_) fun _ u hu => hstays hu
      obtain ⟨hopened, hunfinished⟩ := hu
      refine (yields_begin (s := ⟨d, n⟩) hopened.ledger hunfinished).bind
        (fun _ v hv => ?_)
        fun _ v hv => hstays (hopened.trans hv)
      obtain ⟨hbegun, hpending⟩ := hv
      have hfree : v.transactions.lookup (t.resolve connection) = none := by
        rw [hbegun.transactions, hopened.transactions]
        exact hbound
      apply Yields.bind_of_exec (exec_modify _ v)
      refine Yields.of_exec (exec_modify _ _) ⟨?_, ?_, nofun⟩
      · exact (hbegun.ledger.bound hpending hfree).logged _
      · exact hbegun.drivers.trans hopened.drivers
    · rw [ht.1]
      exact hstays ⟨h, rfl, rfl⟩

/-- A transaction is released under its name, if there is one. -/
theorem exec_unbind (connection operation : String) (c : Connections) :
    exec (unbind connection operation) c =
      match c.transactions.lookup connection with
      | some bound => (.ok bound,
          { c with transactions := dropEntry connection c.transactions })
      | none => (.error (.noTransaction connection operation), c) := by
  rw [unbind, exec_bind, exec_get]
  dsimp only
  cases c.transactions.lookup connection <;> rfl

/-- The end of a transaction, whose session is closed also if it fails. -/
theorem yields_finish (h : c.Ledger (s :: inHand))
    (hpending : c.Unfinished s) (hsession : event.session? = some s.session)
    (hopens : event.opensSession = false)
    (hcloses : ∀ n, event ≠ .closeSession n) :
    Yields (closing s.driver s.session (act s.driver event)) c fun _ t =>
      c.Stays t inHand := by
  have hs : s ∈ s :: inHand := List.mem_cons_self
  exact yields_closing (yields_act
    (h.used event (.inl hs) hsession hopens hcloses (fun _ => hs) fun _ =>
      hpending))

/-- What commits and rollbacks have in common: a transaction is released,
then it is finished. -/
theorem yields_release (h : c.Ledger []) (event : Nat → DriverEvent)
    (hsession : ∀ n, (event n).session? = some n)
    (hopens : ∀ n, (event n).opensSession = false)
    (hcloses : ∀ n m, event n ≠ .closeSession m) (connection : Option String)
    (operation : String) (note : String) :
    Yields (do
      let connection ← resolve connection
      let bound ← unbind connection operation
      closing bound.driver bound.session
        (act bound.driver (event bound.session))
      log .debug note [("connection", .text connection)]) c fun _ t =>
        t.Ledger [] ∧ t.drivers = c.drivers := by
  apply Yields.bind_of_exec (exec_resolve connection c)
  have hunbind := exec_unbind (c.resolve connection) operation c
  cases hbound : c.transactions.lookup (c.resolve connection) with
  | none =>
    rw [hbound] at hunbind
    have hfailed : Yields (unbind (c.resolve connection) operation) c
        fun r t =>
        r.isOk = false ∧ t = c := .of_exec hunbind ⟨rfl, rfl⟩
    refine hfailed.bind (fun _ _ ht => nomatch ht.1) fun _ t ht => ?_
    obtain ⟨-, rfl⟩ := ht
    exact ⟨h, rfl⟩
  | some s =>
    rw [hbound] at hunbind
    apply Yields.bind_of_exec hunbind
    have hpending := h.pending s (mem_boundSessions hbound)
    have hfinished :=
      yields_finish (h.released hbound) hpending (hsession s.session)
      (hopens s.session) (hcloses s.session)
    refine hfinished.bind (fun _ t ht => ?_) fun _ t ht =>
      ⟨ht.ledger, ht.drivers⟩
    refine (yields_log ht.ledger _ _ _).mono fun _ u hu => ⟨hu.ledger, ?_⟩
    exact hu.drivers.trans ht.drivers

/-- **Committing keeps the ledger**, also where it fails. -/
theorem yields_commitTransaction (h : c.Ledger [])
    (connection : Option String) :
    Yields (commitTransaction connection) c fun _ t => t.Ledger [] ∧
    t.drivers = c.drivers :=
  yields_release h .commit (fun _ => rfl) (fun _ => rfl) nofun connection _ _

/-- **Rolling back keeps the ledger**, also where it fails. -/
theorem yields_rollbackTransaction (h : c.Ledger [])
    (connection : Option String) :
    Yields (rollbackTransaction connection) c fun _ t => t.Ledger [] ∧
    t.drivers = c.drivers :=
  yields_release h .rollback (fun _ => rfl) (fun _ => rfl) nofun
    connection _ _

/-- Trying a driver keeps the ledger. -/
theorem yields_verifyConnectivity (h : c.Ledger [])
    (connection : Option String) :
    Yields (verifyConnectivity connection) c fun _ t => t.Ledger [] := by
  refine (yields_driver h connection).bind (fun d t ht => ?_) fun _ t ht =>
    ht.1 ▸ h
  obtain ⟨rfl, hd⟩ := ht
  refine (yields_act (h.outside .verify (hd d rfl) rfl)).bind (fun _ u hu =>
    ?_)
    fun _ u hu => hu.ledger
  apply Yields.bind_of_exec (exec_resolve connection u)
  exact (yields_log hu.ledger _ _ _).mono fun _ _ hv => hv.ledger

/-- The guarantee that a ledger of all open sessions is kept, over the same
drivers. -/
def accounting : Guarantee Connections where
  holds c := c.Ledger []
  leads c t := t.drivers = c.drivers
  refl _ := rfl
  trans hct htu := htu.trans hct

/-- Closing rolls back what is bound, one after the other, and closes the
drivers. -/
theorem kept_close : accounting.Kept close := by
  have hrollback : ∀ entry : String × BoundTransaction,
      accounting.Kept (rollbackTransaction (some entry.1)) := by
    intro entry t ht
    obtain ⟨hledger, hdrivers⟩ := yields_rollbackTransaction ht (some entry.1)
    exact ⟨hledger, hdrivers, fun _ _ => trivial⟩
  apply Guarantee.kept_get_bind
  intro c
  refine (Guarantee.kept_forM (fun entry _ => hrollback entry) c).bind
    fun _ t ht _ _ => ?_
  apply Guarantee.at_get_bind
  refine Guarantee.at_forM (p := fun entry u => entry.2 < u.drivers.size) ?_
    ?_ ht.registered
  · intro entry u v hdrivers hentry
    rw [hdrivers]
    exact hentry
  · rintro ⟨connection, d⟩ _ u hd hu
    have hclosed : Yields (do
        act d .close
        log .info "Closed Neo4j connection"
          [("connection", .text connection)]) u
          fun _ v => u.Stays v [] := by
      have hact := yields_act (hu.outside .close hd rfl)
      refine hact.bind (fun _ v hv => ?_) fun _ _ hv => hv
      exact (yields_log hv.ledger _ _ _).mono fun _ _ hw => hv.trans hw
    exact ⟨hclosed.ledger, hclosed.drivers, fun _ _ => trivial⟩

/-- **Every call of the connections leaves a ledger behind.** -/
theorem ledger_perform (h : c.Ledger []) (call : ConnectionCall) :
    (exec call.perform c).2.Ledger [] := by
  cases call with
  | run query parameters connection =>
    rw [ConnectionCall.perform, exec_bind_pure_snd]
    exact (yields_runQuery h query parameters connection).ledger
  | beginTransaction connection =>
    rw [ConnectionCall.perform, exec_bind_pure_snd]
    exact (yields_beginTransaction h connection).1
  | commitTransaction connection =>
    rw [ConnectionCall.perform, exec_bind_pure_snd]
    exact (yields_commitTransaction h connection).1
  | rollbackTransaction connection =>
    rw [ConnectionCall.perform, exec_bind_pure_snd]
    exact (yields_rollbackTransaction h connection).1
  | inTransaction connection =>
    rw [ConnectionCall.perform, exec_bind_pure_snd]
    exact h
  | verifyConnectivity connection =>
    rw [ConnectionCall.perform, exec_bind_pure_snd]
    exact yields_verifyConnectivity h connection
  | driver connection =>
    have hdriver := yields_driver h connection
    have hledger : Yields (ConnectionCall.driver connection).perform c
        fun _ t => t.Ledger [] := by
      refine hdriver.bind (fun _ t ht => ?_) fun _ t ht => ?_
      all_goals
        obtain ⟨rfl, -⟩ := ht
        exact h
    exact hledger
  | defaultConnection => exact h
  | addConnection connection added => exact h.added connection added
  | close | leave =>
    rw [ConnectionCall.perform, exec_bind_pure_snd]
    exact (kept_close c h).1
  | enter => exact h

end Connecting

namespace Connections

/-- Connections that nothing has been done with yet. -/
structure Fresh (c : Connections) : Prop where
  registered : ∀ entry ∈ c.registered, entry.2 < c.drivers.size
  transactions : c.transactions = []
  events : c.events = []

/-- Connections that have just been made are fresh. -/
theorem fresh_ofDrivers (drivers : List (String × Driver))
    (default database : Option String) (settings : Settings) :
    (ofDrivers drivers default database settings).Fresh := by
  refine ⟨fun entry hentry => ?_, rfl, rfl⟩
  have hsize : (drivers.map Prod.snd).toArray.size = drivers.length := by simp
  show entry.2 < (drivers.map Prod.snd).toArray.size
  rw [hsize]
  rcases mem_putEntries hentry with hmem | hmem
  · have hlt := (List.mem_zipIdx hmem).2.1
    simpa using hlt
  · cases hmem

/-- The connections after some calls, each of which may fail. -/
def after (c : Connections) (calls : List ConnectionCall) : Connections :=
  calls.foldl (fun c call => (exec call.perform c).2) c

variable {c : Connections}

/-- Fresh connections have a ledger with nothing in hand. -/
theorem Fresh.ledger (h : c.Fresh) : c.Ledger [] := by
  obtain ⟨hregistered, htransactions, hevents⟩ := h
  have hsessions : c.boundSessions = [] := by
    rw [boundSessions, htransactions, List.map_nil]
  refine ⟨hregistered, ?_, ?_, fun s => ?_, ?_, ?_, ?_, ?_⟩
  · rw [hevents]
    intro _ hmem
    cases hmem
  · rw [hevents]
    intro _ _ hmem
    cases hmem
  · rw [hsessions]
    constructor
    · rintro ⟨before, database, later, hsplit, -⟩
      rw [hevents] at hsplit
      exact absurd hsplit.symm
        (List.append_ne_nil_of_right_ne_nil _ (List.cons_ne_nil _ _))
    · rintro (hmem | hmem) <;> cases hmem
  · rw [htransactions]
    exact List.nodup_nil
  · rw [hsessions]
    exact List.nodup_nil
  · rw [hsessions]
    intro _ hmem
    cases hmem
  · rw [hevents]
    exact List.Pairwise.nil

/-- Any calls keep the ledger. -/
theorem Ledger.after (h : c.Ledger []) (calls : List ConnectionCall) :
    (c.after calls).Ledger [] := by
  induction calls generalizing c with
  | nil => exact h
  | cons call later ih => exact ih (Connecting.ledger_perform h call)

/-- **Sessions and transactions are accounted for.**  After any calls, in
whichever of them drivers failed, the sessions that have been opened and not
been closed since are those of the transactions bound, one for each
connection at most, and no two of them the same.  No transaction has been
used after it was committed or rolled back, so it has been finished at most
once.  A transaction that does not begin, because it fails or because there
is one already, changes no binding, and neither does a query. -/
theorem sessions_accounted_for {start : Connections} (hfresh : start.Fresh)
    (calls : List ConnectionCall) :
    let c := start.after calls
    (∀ s, c.IsOpen s ↔ ∃ connection, (connection, s) ∈ c.transactions) ∧
      (c.transactions.map Prod.fst).Nodup ∧
      (c.transactions.map Prod.snd).Nodup ∧
      c.events.Pairwise (fun earlier later => ¬TooLate earlier later) ∧
      ∀ connection,
        let begun := exec (Connecting.beginTransaction connection) c
        (begun.1.isOk = false → begun.2.transactions = c.transactions) ∧
          ((c.transactions.lookup (c.resolve connection)).isSome = true →
            begun = (.error (.transactionBound (c.resolve connection)), c)) ∧
          ∀ query parameters,
            (exec (Connecting.runQuery query parameters connection)
              c).2.transactions =
              c.transactions := by
  intro c
  have hledger : c.Ledger [] := hfresh.ledger.after calls
  refine ⟨fun s => ?_, hledger.connections, hledger.sessions, hledger.timely,
    fun connection => ?_⟩
  · rw [hledger.isOpen, boundSessions, List.mem_map]
    constructor
    · rintro (hnone | ⟨⟨connection, s⟩, hbound, rfl⟩)
      · cases hnone
      · exact ⟨connection, hbound⟩
    · rintro ⟨connection, hbound⟩
      exact .inr ⟨(connection, s), hbound, rfl⟩
  · intro begun
    refine ⟨(Connecting.yields_beginTransaction hledger connection).2.2,
      fun hbound => ?_, ?_⟩
    · show exec (Connecting.beginTransaction connection) c = _
      rw [Connecting.beginTransaction, exec_bind, Connecting.exec_resolve]
      dsimp only
      rw [exec_bind, exec_get]
      dsimp only
      rw [if_pos hbound]
      rfl
    · exact fun query parameters =>
        (Connecting.yields_runQuery hledger query
          parameters connection).transactions

/-- Two connections, one to a driver that fails to commit and one to a
driver that fails to begin. -/
def unreliable : Connections :=
  ofDrivers
    [("main", .failing "m" [] [("commit", .service "lost")]),
      ("spare", .failing "s" [] [("begin", .service "busy")])]
    (some "main") none {}

/-- Every kind of failure on the way: a commit that fails, a begin that
fails and one too many. -/
def stumbling : List ConnectionCall :=
  [.beginTransaction none, .beginTransaction none, .run "RETURN 1" [] none,
    .commitTransaction none,
    .beginTransaction (some "spare"), .beginTransaction (some "main"),
    .run "RETURN 2" [] (some "spare")]

/-- Transactions are begun and committed while drivers fail, and one of them
stays bound. -/
theorem sessions_accounted_for_of_stumbling :
    let c := unreliable.after stumbling
    c.transactions = [("main", ⟨0, 2⟩)] ∧ c.IsOpen ⟨0, 2⟩ ∧
    ¬c.IsOpen ⟨0, 1⟩ ∧ ¬c.IsOpen ⟨1, 1⟩ ∧
      c.events.Pairwise fun earlier later => ¬TooLate earlier later := by
  intro c
  have hbound : c.transactions = [("main", ⟨0, 2⟩)] := by decide +kernel
  have hfresh : unreliable.Fresh := fresh_ofDrivers _ _ _ _
  obtain ⟨hopen, -, -, htimely, -⟩ := sessions_accounted_for hfresh stumbling
  have hother : ∀ s, s ≠ ⟨0, 2⟩ → ¬c.IsOpen s := by
    intro s hne hs
    obtain ⟨connection, hmem⟩ := (hopen s).mp hs
    rw [hbound, List.mem_singleton] at hmem
    exact hne (Prod.mk.inj hmem).2
  refine ⟨hbound, (hopen _).mpr ⟨"main", ?_⟩, hother _ (by decide),
    hother _ (by decide), htimely⟩
  rw [hbound]
  exact List.mem_singleton_self _

end Connections

end GraphQuery
