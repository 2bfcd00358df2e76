import GraphQuery.Connections
import GraphQuery.Proofs.Computation
import Mathlib.Data.List.Nodup

/-!
# The ledger of sessions

A session is open from the event that opens it to the first one that closes
it.  A ledger accounts for the open sessions of connections: each belongs to
the transaction bound to one connection, or is held by the call that is
being carried out (`Connections.Ledger`).  This file is about what a single
event does to a ledger, and what binding and releasing a transaction does.
-/

namespace GraphQuery

namespace DriverEvent

/-- The number of the session an event belongs to. -/
def session? : DriverEvent → Option Nat
  | session n _ | run n _ _ | begin n | runInTransaction n _ _ | commit
      n | rollback n
  | closeSession n => some n
  | verify | close | data => none

/-- Whether an event finishes the transaction of its session. -/
def finishes : DriverEvent → Bool
  | commit _ | rollback _ => true
  | _ => false

/-- Whether an event uses the transaction of its session: to run a query, or
to finish it. -/
def usesTransaction : DriverEvent → Bool
  | runInTransaction _ _ _ | commit _ | rollback _ => true
  | _ => false

end DriverEvent

/-- A transaction is known by its driver and its session. -/
theorem BoundTransaction.ext {s t : BoundTransaction}
    (hd : s.driver = t.driver) (hn : s.session = t.session) : s = t := by
  cases s
  cases t
  cases hd
  cases hn
  rfl

/-- Whether an event belongs to a session. -/
def BoundTransaction.Has (s : BoundTransaction) (event : Nat × DriverEvent) :
    Prop :=
  event.1 = s.driver ∧ event.2.session? = some s.session

/-- An event comes too late after another if it uses the transaction that
this one has finished. -/
def TooLate (earlier later : Nat × DriverEvent) : Prop :=
  ∃ s : BoundTransaction, s.Has earlier ∧ s.Has later ∧
  earlier.2.finishes = true ∧
    later.2.usesTransaction = true

namespace Connections

/-- Connections after one more event. -/
def happened (c : Connections) (driver : Nat) (event : DriverEvent) :
    Connections :=
  { c with events := c.events ++ [(driver, event)] }

/-- A session that has been opened, by an event its driver did not answer
with a failure, and that has not been closed since.  Closing it counts
whatever the driver answers. -/
def IsOpen (c : Connections) (s : BoundTransaction) : Prop :=
  ∃ before database later,
    c.events = before ++ (s.driver, .session s.session database) :: later ∧
      ({ c with events := before } : Connections).failure? s.driver
        (.session s.session database) =
        none ∧
      (s.driver, .closeSession s.session) ∉ later

/-- A session whose transaction has been neither committed nor rolled back. -/
def Unfinished (c : Connections) (s : BoundTransaction) : Prop :=
  ∀ event ∈ c.events, s.Has event → event.2.finishes = false

/-- The sessions of the transactions bound. -/
def boundSessions (c : Connections) : List BoundTransaction :=
  c.transactions.map Prod.snd

/-- An account of the open sessions: they are those of the transactions
bound, one for each connection, and those in hand. -/
structure Ledger (c : Connections) (inHand : List BoundTransaction) :
    Prop where
  registered : ∀ entry ∈ c.registered, entry.2 < c.drivers.size
  drivers : ∀ event ∈ c.events, event.1 < c.drivers.size
  known : ∀ s : BoundTransaction, ∀ event ∈ c.events, s.Has event →
  s.session < c.nextSession s.driver
  isOpen : ∀ s, c.IsOpen s ↔ s ∈ inHand ∨ s ∈ c.boundSessions
  connections : (c.transactions.map Prod.fst).Nodup
  sessions : (inHand ++ c.boundSessions).Nodup
  pending : ∀ s ∈ c.boundSessions, c.Unfinished s
  timely : c.events.Pairwise fun earlier later => ¬TooLate earlier later

variable {c : Connections} {s : BoundTransaction}
    {inHand : List BoundTransaction} {d : Nat}
  {event : DriverEvent}

/-- Opening a session numbers the next one of its driver. -/
theorem nextSession_happened (c : Connections) (d : Nat)
    (event : DriverEvent) (other : Nat) :
    (c.happened d event).nextSession other =
      c.nextSession other +
        if d = other ∧ event.opensSession = true then 1 else 0 := by
  rw [nextSession, history, happened, List.filter_append, List.map_append,
    List.filter_append,
    List.length_append, nextSession, history]
  by_cases hd : d = other
  · subst hd
    cases hopens : event.opensSession <;> simp [hopens]
  · simp [hd]

/-- A session is open after an event if it has just been opened, or was open
and has not just been closed. -/
theorem isOpen_happened : (c.happened d event).IsOpen s ↔
    (c.IsOpen s ∧ ¬(d = s.driver ∧ event = .closeSession s.session)) ∨
      d = s.driver ∧ (∃ database, event = .session s.session database) ∧
        c.failure? d event = none := by
  constructor
  · rintro ⟨before, database, later, hevents, hopened, hclosed⟩
    rcases List.eq_nil_or_concat later with rfl | ⟨others, last, rfl⟩
    · obtain ⟨rfl, hlast⟩ := List.append_inj' hevents rfl
      obtain ⟨rfl, rfl⟩ := Prod.mk.inj (List.cons.inj hlast).1
      exact .inr ⟨rfl, ⟨database, rfl⟩, hopened⟩
    · rw [List.concat_eq_append, ← List.cons_append,
        ← List.append_assoc] at hevents
      obtain ⟨hbefore, hlast⟩ := List.append_inj' hevents rfl
      rw [List.concat_eq_append] at hclosed
      refine .inl ⟨⟨before, database, others, hbefore, hopened, ?_⟩, ?_⟩
      · exact fun hmem => hclosed (List.mem_append_left _ hmem)
      · rintro ⟨rfl, rfl⟩
        exact hclosed
          (List.mem_append_right _ (hlast ▸ List.mem_singleton_self _))
  · rintro (⟨⟨before, database, later, hevents, hopened, hclosed⟩, hevent⟩ |
      ⟨rfl, ⟨database, rfl⟩, hopened⟩)
    · refine ⟨before, database, later ++ [(d, event)], ?_, hopened, ?_⟩
      · rw [happened, hevents, List.append_assoc, List.cons_append]
      · intro hmem
        rcases List.mem_append.mp hmem with hmem | hmem
        · exact hclosed hmem
        · obtain ⟨hd, hclose⟩ := Prod.mk.inj (List.mem_singleton.mp hmem)
          exact hevent ⟨hd.symm, hclose.symm⟩
    · exact ⟨c.events, database, [], rfl, hopened, List.not_mem_nil⟩

/-- An event that neither opens nor closes a session changes no open one. -/
theorem isOpen_happened_of_other (hopens : event.opensSession = false)
    (hcloses : ∀ n, event ≠ .closeSession n) :
    (c.happened d event).IsOpen s ↔ c.IsOpen s := by
  rw [isOpen_happened]
  constructor
  · rintro (⟨hopen, -⟩ | ⟨-, ⟨database, rfl⟩, -⟩)
    · exact hopen
    · cases hopens
  · exact fun hopen => .inl ⟨hopen, fun hclose => hcloses _ hclose.2⟩

/-- Whether a session is open depends only on what has happened and on the
drivers it happened to. -/
theorem IsOpen.of_drivers {t : Connections} (h : c.IsOpen s)
    (hevents : t.events = c.events)
    (hdrivers : ∀ event ∈ c.events,
      t.drivers[event.1]? = c.drivers[event.1]?) : t.IsOpen s := by
  obtain ⟨before, database, later, hsplit, hopened, hclosed⟩ := h
  have hsame : t.drivers[s.driver]? = c.drivers[s.driver]? := by
    refine hdrivers (s.driver, .session s.session database) ?_
    rw [hsplit]
    exact List.mem_append_right _ List.mem_cons_self
  refine ⟨before, database, later, hevents.trans hsplit, ?_, hclosed⟩
  rw [failure?] at hopened ⊢
  show (t.drivers[s.driver]?).bind _ = none
  rw [hsame]
  exact hopened

/-- An open session belongs to an event of its driver. -/
theorem IsOpen.exists_mem (h : c.IsOpen s) :
    ∃ event ∈ c.events, s.Has event := by
  obtain ⟨before, database, later, hevents, -⟩ := h
  refine ⟨(s.driver, .session s.session database), ?_, rfl, rfl⟩
  rw [hevents]
  exact List.mem_append_right _ List.mem_cons_self

namespace Ledger

/-- The driver of a session in hand, or of a bound one, is there. -/
theorem driver_lt (h : c.Ledger inHand)
    (hs : s ∈ inHand ∨ s ∈ c.boundSessions) :
    s.driver < c.drivers.size := by
  obtain ⟨event, hmem, hd, -⟩ := ((h.isOpen s).mpr hs).exists_mem
  exact hd ▸ h.drivers event hmem

/-- The number of such a session has been given. -/
theorem session_lt (h : c.Ledger inHand)
    (hs : s ∈ inHand ∨ s ∈ c.boundSessions) :
    s.session < c.nextSession s.driver := by
  obtain ⟨event, hmem, hhas⟩ := ((h.isOpen s).mpr hs).exists_mem
  exact h.known s event hmem hhas

/-- The next session of a driver is a new one. -/
theorem not_mem_of_new (h : c.Ledger inHand) (d : Nat) :
    ⟨d, c.nextSession d⟩ ∉ inHand ++ c.boundSessions := by
  intro hmem
  have hlt := h.session_lt (List.mem_append.mp hmem)
  exact Nat.lt_irrefl _ hlt

/-- What one more event does to a ledger, by what it does to the open
sessions.  Only the new event can come too late, and then its transaction
was finished before. -/
theorem happened (h : c.Ledger inHand) {later : List BoundTransaction}
    (hd : d < c.drivers.size)
    (hknown : ∀ n, event.session? = some n →
      n < (c.happened d event).nextSession d)
    (hopen : ∀ s, (c.happened d event).IsOpen s ↔ s ∈ later ∨
      s ∈ c.boundSessions)
    (hsessions : (later ++ c.boundSessions).Nodup)
    (hpending : event.finishes = true → ∀ s ∈ c.boundSessions,
      ¬s.Has (d, event))
    (htimely : event.usesTransaction = true → ∀ s : BoundTransaction,
      s.Has (d, event) → c.Unfinished s) :
    (c.happened d event).Ledger later where
  registered := h.registered
  drivers := by
    intro e he
    rcases List.mem_append.mp he with he | he
    · exact h.drivers e he
    · rw [List.mem_singleton.mp he]
      exact hd
  known := by
    intro s e he hhas
    rcases List.mem_append.mp he with he | he
    · have hbefore := h.known s e he hhas
      rw [nextSession_happened]
      omega
    · rw [List.mem_singleton.mp he] at hhas
      obtain ⟨rfl, hsession⟩ := hhas
      exact hknown s.session hsession
  isOpen := hopen
  connections := h.connections
  sessions := hsessions
  pending := by
    intro s hs e he hhas
    rcases List.mem_append.mp he with he | he
    · exact h.pending s hs e he hhas
    · rw [List.mem_singleton.mp he] at hhas ⊢
      by_contra hfinishes
      exact hpending (eq_true_of_ne_false hfinishes) s hs hhas
  timely := by
    refine List.pairwise_append.mpr ⟨h.timely, List.pairwise_singleton _ _,
      ?_⟩
    rintro e he last hlast ⟨s, hearlier, hlater, hfinishes, huses⟩
    rw [List.mem_singleton.mp hlast] at hlater huses
    have hunfinished := htimely huses s hlater e he hearlier
    rw [hfinishes] at hunfinished
    cases hunfinished

/-- A session is opened. -/
theorem opened (h : c.Ledger inHand) (hd : d < c.drivers.size)
    (database : Option String)
    (hok : c.failure? d (.session (c.nextSession d) database) = none) :
    (c.happened d (.session (c.nextSession d) database)).Ledger
      (⟨d, c.nextSession d⟩ :: inHand) := by
  refine h.happened hd ?_ ?_ ?_ (fun hfinishes => nomatch hfinishes)
    fun huses => nomatch huses
  · rintro n hn
    cases hn
    rw [nextSession_happened, if_pos ⟨rfl, rfl⟩]
    exact Nat.lt_succ_self _
  · intro s
    rw [isOpen_happened, h.isOpen, List.mem_cons]
    constructor
    · rintro (⟨hopen, -⟩ | ⟨rfl, ⟨other, hevent⟩, -⟩)
      · exact hopen.imp_left .inr
      · injection hevent with hsession
        rw [hsession]
        exact .inl (.inl rfl)
    · rintro ((rfl | hhand) | hbound)
      · exact .inr ⟨rfl, ⟨database, rfl⟩, hok⟩
      · exact .inl ⟨.inl hhand, fun hclose => nomatch hclose.2⟩
      · exact .inl ⟨.inr hbound, fun hclose => nomatch hclose.2⟩
  · exact List.nodup_cons.mpr ⟨h.not_mem_of_new d, h.sessions⟩

/-- A session is not opened. -/
theorem refused (h : c.Ledger inHand) (hd : d < c.drivers.size)
    (database : Option String)
    (hfails : c.failure? d (.session (c.nextSession d) database) ≠ none) :
    (c.happened d (.session (c.nextSession d) database)).Ledger inHand := by
  refine h.happened hd ?_ ?_ h.sessions (fun hfinishes => nomatch hfinishes)
    fun huses => nomatch huses
  · rintro n hn
    cases hn
    rw [nextSession_happened, if_pos ⟨rfl, rfl⟩]
    exact Nat.lt_succ_self _
  · intro s
    rw [isOpen_happened, h.isOpen]
    constructor
    · rintro (⟨hopen, -⟩ | ⟨-, -, hok⟩)
      · exact hopen
      · exact absurd hok hfails
    · exact fun hopen => .inl ⟨hopen, fun hclose => nomatch hclose.2⟩

/-- A session in hand is closed. -/
theorem closed (h : c.Ledger (s :: inHand)) :
    (c.happened s.driver (.closeSession s.session)).Ledger inHand := by
  obtain ⟨hnew, hsessions⟩ := List.nodup_cons.mp h.sessions
  refine h.happened (h.driver_lt (.inl List.mem_cons_self)) ?_ ?_ hsessions
    (fun hfinishes => nomatch hfinishes) fun huses => nomatch huses
  · rintro n hn
    cases hn
    rw [nextSession_happened]
    exact Nat.lt_add_right _ (h.session_lt (.inl List.mem_cons_self))
  · intro other
    rw [isOpen_happened, h.isOpen, List.mem_cons]
    constructor
    · rintro (⟨(rfl | hhand) | hbound, hclose⟩ | ⟨-, ⟨_, hevent⟩, -⟩)
      · exact absurd ⟨rfl, rfl⟩ hclose
      · exact .inl hhand
      · exact .inr hbound
      · cases hevent
    · intro hopen
      refine .inl ⟨hopen.imp_left .inr, ?_⟩
      rintro ⟨hd, hclose⟩
      injection hclose with hsession
      have hsame : s = other := BoundTransaction.ext hd hsession
      exact hnew (hsame ▸ List.mem_append.mpr hopen)

/-- An event of an open session that leaves it open.  A transaction is
finished only when it is in hand, and used only as long as it is not
finished. -/
theorem used (h : c.Ledger inHand) (event : DriverEvent)
    (hs : s ∈ inHand ∨ s ∈ c.boundSessions)
    (hsession : event.session? = some s.session)
    (hopens : event.opensSession = false)
    (hcloses : ∀ n, event ≠ .closeSession n)
    (hfinishes : event.finishes = true → s ∈ inHand)
    (huses : event.usesTransaction = true → c.Unfinished s) :
    (c.happened s.driver event).Ledger inHand := by
  have hsame : ∀ {other : BoundTransaction}, other.Has (s.driver, event) →
      other = s := by
    intro other hother
    exact BoundTransaction.ext hother.1.symm
      (Option.some.inj (hother.2.symm.trans hsession))
  refine h.happened (h.driver_lt hs) ?_ ?_ h.sessions ?_ ?_
  · intro n hn
    obtain rfl : s.session = n := Option.some.inj (hsession.symm.trans hn)
    rw [nextSession_happened]
    exact Nat.lt_add_right _ (h.session_lt hs)
  · intro other
    rw [isOpen_happened_of_other hopens hcloses]
    exact h.isOpen other
  · intro hfinished other hother hhas
    obtain rfl := hsame hhas
    exact List.disjoint_of_nodup_append h.sessions (hfinishes hfinished)
      hother
  · intro hused other hhas
    obtain rfl := hsame hhas
    exact huses hused

/-- An event of no session. -/
theorem outside (h : c.Ledger inHand) (event : DriverEvent)
    (hd : d < c.drivers.size) (hnone : event.session? = none) :
    (c.happened d event).Ledger inHand := by
  have hnothing : ∀ s : BoundTransaction, ¬s.Has (d, event) := by
    rintro s ⟨-, hsession⟩
    rw [hnone] at hsession
    cases hsession
  have hopens : event.opensSession = false := by
    cases event <;> first | rfl | cases hnone
  refine h.happened hd (fun n hn => ?_) (fun s => ?_) h.sessions
    (fun _ s _ => hnothing s)
    fun _ s hs => absurd hs (hnothing s)
  · rw [hnone] at hn
    cases hn
  · rw [isOpen_happened_of_other hopens
      (fun n hclose => by subst hclose; cases hnone)]
    exact h.isOpen s

/-- A transaction is bound to a connection without one: its session is no
longer in hand.  The session counts once before, as one in hand, and once
afterwards, as a bound one. -/
theorem bound (h : c.Ledger (s :: inHand)) (hpending : c.Unfinished s)
    {connection : String} (hfree : c.transactions.lookup connection = none) :
    ({ c with transactions := c.transactions ++ [(connection, s)] } :
      Connections).Ledger inHand := by
  have hsessions :
      ({ c with transactions := c.transactions ++ [(connection, s)] } :
      Connections).boundSessions = c.boundSessions ++ [s] := List.map_append
  refine ⟨h.registered, h.drivers, h.known, fun t => ?_, ?_, ?_, ?_, h.timely⟩
  · rw [hsessions, List.mem_append, List.mem_singleton]
    refine (h.isOpen t).trans ?_
    rw [List.mem_cons]
    constructor
    · rintro ((rfl | hhand) | hbound)
      · exact .inr (.inr rfl)
      · exact .inl hhand
      · exact .inr (.inl hbound)
    · rintro (hhand | hbound | rfl)
      · exact .inl (.inr hhand)
      · exact .inr hbound
      · exact .inl (.inl rfl)
  · rw [List.map_append, List.map_singleton]
    refine List.nodup_append.mpr ⟨h.connections, List.nodup_singleton _, ?_⟩
    rintro key hkey _ hlast rfl
    obtain ⟨entry, hentry, rfl⟩ := List.mem_map.mp hkey
    have hother := List.lookup_eq_none_iff.mp hfree entry hentry
    rw [List.mem_singleton.mp hlast, bne_self_eq_false] at hother
    cases hother
  · rw [hsessions, ← List.append_assoc]
    exact (List.perm_append_singleton s _).nodup_iff.mpr h.sessions
  · intro t ht
    rw [hsessions, List.mem_append, List.mem_singleton] at ht
    rcases ht with hbound | rfl
    · exact h.pending t hbound
    · exact hpending

/-- A transaction is released: its session is in hand. -/
theorem released (h : c.Ledger inHand) {connection : String}
    (hbound : c.transactions.lookup connection = some s) :
    ({ c with transactions := dropEntry connection c.transactions } :
      Connections).Ledger
      (s :: inHand) := by
  obtain ⟨before, later, htransactions, hdrop⟩ :=
    dropEntry_of_lookup h.connections hbound
  have hperm : (s :: ((before ++ later).map Prod.snd)).Perm
      c.boundSessions := by
    rw [boundSessions, htransactions, List.map_append, List.map_append,
      List.map_cons]
    exact List.perm_middle.symm
  have hsessions :
      ({ c with transactions := dropEntry connection c.transactions } :
      Connections).boundSessions = (before ++ later).map Prod.snd := by
    rw [boundSessions, hdrop]
  refine ⟨h.registered, h.drivers, h.known, fun t => ?_, ?_, ?_, ?_, h.timely⟩
  · rw [hsessions]
    refine (h.isOpen t).trans ?_
    rw [← hperm.mem_iff, List.mem_cons, List.mem_cons]
    exact or_left_comm.trans or_assoc.symm
  · have hkeys := h.connections
    rw [htransactions] at hkeys
    show ((dropEntry connection c.transactions).map Prod.fst).Nodup
    rw [hdrop]
    exact hkeys.sublist
      ((List.Sublist.append_left (List.sublist_cons_self _ _) before).map _)
  · rw [hsessions]
    refine (List.Perm.nodup_iff ?_).mpr h.sessions
    exact List.perm_middle.symm.trans (hperm.append_left inHand)
  · intro t ht
    rw [hsessions] at ht
    exact h.pending t (hperm.mem_iff.mp (List.mem_cons_of_mem s ht))

/-- What is logged is not accounted for. -/
theorem logged (h : c.Ledger inHand) (log : List LogEvent) :
    ({ c with log } : Connections).Ledger inHand :=
  { h with }

/-- A driver is registered. -/
theorem added (h : c.Ledger inHand) (connection : String) (driver : Driver) :
    ({ c with
      drivers := c.drivers.push driver
      registered := putEntry connection c.drivers.size c.registered } :
    Connections).Ledger inHand := by
  have hsize : (c.drivers.push driver).size = c.drivers.size + 1 :=
    Array.size_push driver
  refine ⟨?_, ?_, h.known, fun t => ?_, h.connections, h.sessions, h.pending,
    h.timely⟩
  · intro entry hentry
    show entry.2 < (c.drivers.push driver).size
    rw [hsize]
    rcases mem_putEntry hentry with rfl | hmem
    · exact Nat.lt_succ_self _
    · exact Nat.lt_succ_of_lt (h.registered entry hmem)
  · intro event hevent
    show event.1 < (c.drivers.push driver).size
    rw [hsize]
    exact Nat.lt_succ_of_lt (h.drivers event hevent)
  · have hsame : ∀ event ∈ c.events,
        (c.drivers.push driver)[event.1]? = c.drivers[event.1]? := by
      intro event hevent
      rw [Array.getElem?_push, if_neg (Nat.ne_of_lt (h.drivers event hevent))]
    refine Iff.trans ⟨fun hopen => ?_, fun hopen => ?_⟩ (h.isOpen t)
    · exact hopen.of_drivers rfl fun event hevent => (hsame event hevent).symm
    · exact hopen.of_drivers rfl hsame

end Ledger

end Connections

end GraphQuery
