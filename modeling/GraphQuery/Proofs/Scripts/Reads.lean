import GraphQuery.Proofs.Connections.Transactions
import GraphQuery.Proofs.Parameters.Dictionary

/-!
# What reading a query leaves behind

A query is read by being run, and what is sent may be a changed query: with
a limit, or with an aggregation in the place of its projection.  None of
that is left in the builder, nor is anything else, whatever fails.  The
exception are the reads that say what to return: their projection is
recorded on the builder before the query is compiled, and stays
(`Session.reads_leave_projections`).
-/

namespace GraphQuery

open GraphQuery.Computation

namespace Run

/-- Whether a query is run to read from the database. -/
def isRead : Run → Bool
  | set _ | setLabels _ | create _ | batchCreate _ | merge _ | delete
      _ | forceDelete _
  | remove _ => false
  | _ => true

/-- What a query returns from a read on. -/
def projection (content : Content) : Run → List Expression
  | get projections =>
    content.returns ++ projections.map (writtenProjection content.entry)
  | returnAll => [.raw "*"]
  | returnRaw texts => content.returns ++ texts.map Expression.raw
  | _ => content.returns

/-- Whether a read says what to return. -/
def projects : Run → Bool
  | get projections => !projections.isEmpty
  | returnAll => true
  | returnRaw texts => !texts.isEmpty
  | _ => false

/-- What a read leaves of what a query holds. -/
def leaves (content : Content) (r : Run) : Content :=
  { content with returns := r.projection content }

/-- A read that does not say what to return leaves nothing behind. -/
theorem leaves_of_not_projects {r : Run} (h : r.projects = false)
    (content : Content) :
    leaves content r = content := by
  have hreturns : r.projection content = content.returns := by
    cases r with
    | get projections =>
      obtain rfl : projections = [] := by simpa [projects] using h
      exact List.append_nil _
    | returnRaw texts =>
      obtain rfl : texts = [] := by simpa [projects] using h
      exact List.append_nil _
    | returnAll => cases h
    | _ => rfl
  rw [leaves, hreturns]

/-- Reads that do not say what to return leave nothing behind together. -/
theorem foldl_leaves_of_not_projects {runs : List Run}
    (h : ∀ r ∈ runs, r.projects = false) (content : Content) :
    runs.foldl leaves content = content := by
  induction runs with
  | nil => rfl
  | cons r later ih =>
    obtain ⟨hr, hlater⟩ := List.forall_mem_cons.mp h
    rw [List.foldl_cons, leaves_of_not_projects hr, ih hlater]

end Run

namespace Workspace

/-- The same change of the same builders. -/
theorem held_changed_congr {w w' : Workspace} (h : w'.held = w.held)
    (b : BuilderId) (change : Content → Content) :
    (w'.changed b change).held = (w.changed b change).held := by
  obtain ⟨hbuilders, hlimits⟩ := Prod.ext_iff.mp h
  simp only [held] at hbuilders hlimits
  rw [held, held, changed, changed, hbuilders, hlimits]

/-- A query can be changed in two goes. -/
theorem changed_changed (w : Workspace) (b : BuilderId)
    (first second : Content → Content) :
    (w.changed b first).changed b second = w.changed b fun content =>
      second (first content) :=
  amended_amended w b _ _

end Workspace

namespace Acting

open Guarantee

/-- The guarantee that all builders are left as they are, and what can be
copied. -/
def untouching : Guarantee Session where
  holds _ := True
  leads s t := t.workspace.held = s.workspace.held
  refl _ := rfl
  trans hst htu := htu.trans hst

variable {b : BuilderId} {s : Session}

/-- Compiling touches nothing that is held. -/
theorem untouching_compile (kind : QueryKind) (change : Content → Content) :
    untouching.Kept (build (Building.compile b kind change)) := by
  intro s hs
  obtain ⟨events, hexec⟩ := Building.exec_compile b kind change s.workspace
  rw [exec_build, hexec]
  exact ⟨hs, rfl, fun _ _ => trivial⟩

/-- The connections touch nothing that is held. -/
theorem untouching_connect (action : Connecting QueryResult) :
    untouching.Kept (connect action) := by
  intro s hs
  rw [exec_connect]
  exact ⟨hs, rfl, fun _ _ => trivial⟩

/-- Sending a query touches nothing that is held. -/
theorem untouching_send (kind : QueryKind) (operation : String)
    (change : Content → Content) :
    untouching.Kept (send b kind operation change) :=
  kept_sending untouching_compile untouching_connect kind operation change

/-- Sending a changed copy touches nothing that is held. -/
theorem untouching_sendCopy (kind : QueryKind) (operation : String)
    (change : Content → Content) :
    untouching.Kept (sendCopy b kind operation change) :=
  kept_sendingCopy untouching_compile untouching_connect kind operation change

/-- Looking up an entry touches nothing that is held. -/
theorem untouching_entry : untouching.Kept (build (Building.entry b)) := by
  intro s hs
  rw [exec_build, Building.entry, exec_bind_pure_snd, Building.exec_builder]
  exact ⟨hs, rfl, fun _ _ => trivial⟩

/-- Binding a value leaves the builders as they are. -/
theorem untouching_bind (value : Value) :
    untouching.Kept (build (Building.bind b value)) := by
  intro s hs
  rw [exec_build]
  refine ⟨hs, ?_, fun _ _ => trivial⟩
  rw [Building.bind, exec_bind, Building.exec_builder]
  cases s.workspace.builders[b]? with
  | none => rfl
  | some found => rfl

/-- A query that is changed before it is sent keeps this change. -/
theorem held_changeAndSend {change : Change} {w : Workspace}
    (h : (exec (change.perform b) s.workspace).2.held = w.held)
    (kind : QueryKind) (operation : String) :
    (exec (changeAndSend b change kind operation) s).2.workspace.held =
      w.held := by
  rw [changeAndSend, exec_bind, exec_build]
  rcases hexec : exec (change.perform b) s.workspace with ⟨fault | _, changed⟩
  · rw [hexec] at h
    exact h
  · rw [hexec] at h
    have hsent := (untouching_send (b := b) kind operation id).bind
      (fun result => kept_pure (Reply.result result))
        { s with workspace := changed } trivial
    exact hsent.2.1.trans h

end Acting

namespace Building

/-- Adding to what a query returns is done with the entry of the query at
hand. -/
theorem exec_addReturns (b : BuilderId) (w : Workspace)
    (projections : String → List Expression) :
    (exec (do let entry ← entry b; addReturns b (projections entry)) w).2 =
      w.changed b fun content =>
        { content with returns :=
          content.returns ++ projections content.entry } := by
  rw [exec_bind, entry, exec_bind, exec_builder]
  cases hb : w.builders[b]? with
  | none =>
    refine (Workspace.amended_of_same fun found hfound => ?_).symm
    rw [hb] at hfound
    cases hfound
  | some found =>
    refine Workspace.amended_congr fun other hother => ?_
    obtain rfl : found = other := Option.some.inj (hb.symm.trans hother)
    rfl

end Building

namespace Acting

open Guarantee

variable {b : BuilderId} {r : Run}

/-- What is run to aggregate, or to read the first record, is a query
changed for the purpose. -/
theorem untouching_aggregate (function : String)
    (arguments : List Expression) :
    untouching.Kept
      (do return Reply.value (← aggregate b function arguments)) :=
  (kept_aggregating untouching_compile untouching_connect _ _).bind fun _ =>
    kept_pure _

/-- **What a read leaves in the builders** is the projection it records, and
nothing else. -/
theorem held_runQuery (hread : r.isRead = true) (s : Session) :
    (exec (runQuery b r) s).2.workspace.held =
      (s.workspace.changed b fun content => r.leaves content).held := by
  have hkept : (∀ content, r.leaves content = content) →
      untouching.Kept (runQuery b r) →
      (exec (runQuery b r) s).2.workspace.held =
        (s.workspace.changed b fun content => r.leaves content).held := by
    intro hleaves hruns
    have hsame : (fun content => r.leaves content) = id := funext hleaves
    rw [hsame, Workspace.changed_id]
    exact (hruns s trivial).2.1
  have hfirst : untouching.Kept
      (first b) := kept_sendingFirst untouching_compile untouching_connect
  cases r with
  | get projections =>
    apply held_changeAndSend
    exact congrArg Workspace.held (Building.exec_addReturns b s.workspace _)
  | returnAll | returnRaw texts =>
    apply held_changeAndSend
    rfl
  | set | setLabels | create | batchCreate | merge | delete | forceDelete
  | remove => cases hread
  | execute =>
    exact hkept (fun _ => rfl) ((untouching_send _ _ _).bind fun _ =>
      kept_pure _)
  | first | only => exact hkept (fun _ => rfl) (hfirst.bind fun _ =>
      kept_pure _)
  | pluck property =>
    refine hkept (fun _ => rfl) (untouching_entry.bind fun entry => ?_)
    exact (untouching_sendCopy _ _ _).bind fun _ => kept_pure _
  | count property distinct =>
    exact hkept (fun _ => rfl) (untouching_entry.bind fun entry =>
      untouching_aggregate _ _)
  | aggregate function property =>
    exact hkept (fun _ => rfl) (untouching_entry.bind fun entry =>
      untouching_aggregate _ _)
  | percentile function property fraction =>
    refine hkept (fun _ => rfl)
      ((untouching_bind fraction).bind fun parameter => ?_)
    exact untouching_entry.bind fun entry => untouching_aggregate _ _

end Acting

namespace Session

/-- A session in which a query has been run in some ways, one after the
other; each may have failed. -/
def running (s : Session) (b : BuilderId) (runs : List Run) : Session :=
  runs.foldl (fun s r => (exec (Acting.runQuery b r) s).2) s

/-- What a query answers with when it is asked for its text. -/
def cypher (s : Session) (b : BuilderId) (kind : QueryKind) :
    Except Fault Reply :=
  (exec ((Call.toText kind).perform b "to_cypher" none) s).1.map Prod.fst

variable {s t : Session} {b : BuilderId}

/-- A builder compiles to the text of its clauses. -/
theorem cypher_eq (s : Session) (b : BuilderId) (kind : QueryKind) :
    s.cypher b kind = (s.workspace.clauses b kind).map fun clauses =>
      .text (clausesText clauses) := by
  obtain ⟨events, hcompile⟩ := Building.exec_compile b kind id s.workspace
  rw [Workspace.changed_id] at hcompile
  rw [cypher, Call.perform, exec_bind, Acting.exec_build, hcompile]
  cases s.workspace.clauses b kind with
  | ok clauses => rfl
  | error fault => rfl

/-- The text of a query depends on the builders and on what can be copied
alone. -/
theorem cypher_of_held_eq (h : t.workspace.held = s.workspace.held)
    (b : BuilderId) (kind : QueryKind) :
    t.cypher b kind = s.cypher b kind := by
  rw [cypher_eq, cypher_eq, Workspace.clauses_of_held_eq h]

/-- A builder compiles to the text that is known of its clauses. -/
theorem cypher_of_text {text : String} {kind : QueryKind}
    (h : (s.workspace.clauses b kind).toOption.map clausesText = some text) :
    s.cypher b kind = .ok (.text text) := by
  rw [cypher_eq]
  cases hclauses : s.workspace.clauses b kind with
  | error fault => simp [hclauses, Except.toOption] at h
  | ok clauses =>
    rw [hclauses, Except.toOption, Option.map_some, Option.some_inj] at h
    rw [Except.map, h]

/-- Reads leave in the builders the projections they record, one after the
other. -/
theorem held_running (s : Session) (b : BuilderId) (runs : List Run)
    (hreads : ∀ r ∈ runs, r.isRead = true) :
    (s.running b runs).workspace.held =
      (s.workspace.changed b fun content =>
        runs.foldl Run.leaves content).held := by
  induction runs generalizing s with
  | nil =>
    exact congrArg Workspace.held (Workspace.changed_id s.workspace b).symm
  | cons r later ih =>
    obtain ⟨hread, hlater⟩ := List.forall_mem_cons.mp hreads
    have hfirst := Acting.held_runQuery (b := b) hread s
    rw [running, List.foldl_cons]
    refine (ih (exec (Acting.runQuery b r) s).2 hlater).trans ?_
    rw [Workspace.held_changed_congr hfirst, Workspace.changed_changed]
    rfl

/-- **Reads leave their projections behind, and nothing else.**  Run a query
to read, as often and in whatever ways one likes, whatever fails on the way.
From then on all queries compile, by any composition, as if nothing had been
done but to record the projections of these reads on the one that was run.
So if none of the reads said what to return, they compile as before. -/
theorem reads_leave_projections (s : Session) (b : BuilderId)
    (runs : List Run) (hreads : ∀ r ∈ runs, r.isRead = true) :
    let recorded := s.workspace.changed b fun content =>
      runs.foldl Run.leaves content
    (∀ c kind, (s.running b runs).cypher c kind =
      { s with workspace := recorded }.cypher c kind) ∧
      ((∀ r ∈ runs, r.projects = false) →
        ∀ c kind, (s.running b runs).cypher c kind = s.cypher c kind) := by
  intro recorded
  have hheld := held_running s b runs hreads
  refine ⟨fun c kind => cypher_of_held_eq hheld c kind,
    fun hnone c kind => ?_⟩
  have hsame : recorded = s.workspace := by
    have hid : (fun content => runs.foldl Run.leaves content) = id :=
      funext (Run.foldl_leaves_of_not_projects hnone)
    show s.workspace.changed b _ = _
    rw [hid, Workspace.changed_id]
  exact cypher_of_held_eq (hheld.trans (congrArg Workspace.held hsame)) c kind

/-- A query that connections are attached to, which answer with no records. -/
def attached : Session :=
  (withConnections {} Connections.unreliable).after
    [.mk "from_" (.start (.any (.one "p:Person") none false)) none none,
     .mk "using_context" (.attach "ctx") none none]

/-- The reads that aggregate, pluck or limit leave no trace, though all of
them fail or find nothing; one that says what to return goes on returning
it. -/
theorem reads_leave_projections_of_attached :
    let reads : List Run := [.first, .count none false, .pluck "name",
      .execute]
    let session := attached.running 0 reads
    (∀ kind, session.cypher 0 kind = attached.cypher 0 kind) ∧
      (session.running 0 [.get ["name"]]).cypher 0 .full =
        .ok (.text "MATCH (p:Person) RETURN p.name AS name") ∧
      attached.cypher 0 .full = .ok (.text "MATCH (p:Person)") := by
  intro reads session
  refine ⟨?_, cypher_of_text ?_, cypher_of_text ?_⟩
  · exact (reads_leave_projections attached 0 reads (by decide)).2
      (by decide) 0
  · decide +kernel
  · decide +kernel

end Session

end GraphQuery
