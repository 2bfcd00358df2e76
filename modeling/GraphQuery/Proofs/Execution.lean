import GraphQuery.Builder.Session
import GraphQuery.Proofs.Computation

/-!
# Running steps of sessions

What the steps that sessions are made of answer with and leave behind:
looking a builder up, compiling it, and a step taken in the workspace or on
the connections of a session.
-/

namespace GraphQuery

namespace Building

/-- A builder is looked up, and changes nothing. -/
theorem exec_builder (b : BuilderId) (w : Workspace) :
    Computation.exec (builder b) w =
    (match w.builders[b]? with
      | some found => .ok found
      | none => .error .endless, w) := by
  rw [builder, Computation.exec_bind, Computation.exec_get]
  cases hb : w.builders[b]? <;> simp [hb]

/-- Looking a builder up leaves the workspace as it is. -/
theorem at_builder_bind {α : Type} {G : Guarantee Workspace} {w : Workspace}
    {b : BuilderId} {f : Builder → Building α} {q : α → Workspace → Prop}
    (hf : ∀ found, w.builders[b]? = some found → G.At w (f found) q) :
    G.At w (builder b >>= f) q := by
  refine Guarantee.at_bind_of_exec (exec_builder b w) fun found hfound =>
    hf found ?_
  cases hb : w.builders[b]? with
  | some other => simpa [hb] using hfound
  | none => simp [hb] at hfound

/-- Looking up the entry of a builder keeps a guarantee. -/
theorem at_entry_bind {α : Type} {G : Guarantee Workspace} {w : Workspace}
    {b : BuilderId} {f : String → Building α} {q : α → Workspace → Prop}
    (hf : ∀ found, w.builders[b]? = some found →
      G.At w (f found.body.entry) q) :
    G.At w (entry b >>= f) q := by
  rw [entry, bind_assoc]
  exact at_builder_bind hf

/-- Looking up the entry of a builder, and no more, keeps a guarantee. -/
theorem kept_entry {G : Guarantee Workspace} {b : BuilderId} :
    G.Kept (entry b) :=
  fun _ => at_builder_bind fun _ _ => Guarantee.at_pure fun _ => trivial

/-- Copying a builder answers or fails, and leaves the workspace as it is. -/
theorem exec_copy (b : BuilderId) (w : Workspace) :
    Computation.exec (copy b) w = (w.copying b, w) := by
  rw [copy, Computation.exec_bind, Computation.exec_get]
  exact Computation.exec_lift _ _

/-- Copying a builder keeps whatever is to be kept. -/
theorem kept_copy {G : Guarantee Workspace} {b : BuilderId} :
    G.Kept (copy b) :=
  Guarantee.kept_get_bind fun w => Guarantee.kept_lift (w.copying b) w

/-- Compiling answers with the clauses, or fails as they do, and only logs. -/
theorem exec_compile (b : BuilderId) (kind : QueryKind)
    (change : Content → Content) (w : Workspace) :
    ∃ events, Computation.exec (compile b kind change) w =
      ((w.changed b change).clauses b kind,
        { w with log := w.log ++ events }) := by
  rw [compile, Computation.exec_bind, Computation.exec_get]
  dsimp only
  cases (w.changed b change).clauses b kind with
  | ok clauses => exact ⟨_, rfl⟩
  | error fault => exact ⟨_, rfl⟩

end Building

namespace Acting

/-- What is done to the workspace leaves the rest of the session as it is. -/
theorem exec_build {α : Type} (action : Building α) (s : Session) :
    Computation.exec (build action) s =
      ((Computation.exec action s.workspace).1,
      { s with workspace := (Computation.exec action s.workspace).2 }) := by
  rw [build, Computation.exec_bind, Computation.exec_get]
  rfl

/-- What is done to the connections leaves the builders as they are. -/
theorem exec_connect {α : Type} (action : Connecting α) (s : Session) :
    Computation.exec (connect action) s =
      ((Computation.exec action { s.connections with log := [] }).1,
        { s with
          workspace := { s.workspace with
            log :=
  s.workspace.log ++
    (Computation.exec action { s.connections with log := [] }).2.log }
          connections :=
  { (Computation.exec action { s.connections with log := [] }).2 with
            log := [] } }) := by
  rw [connect, Computation.exec_bind, Computation.exec_get]
  rfl

/-- Looking a builder up leaves the session as it is. -/
theorem at_builder_bind {α : Type} {G : Guarantee Session} {s : Session}
    {b : BuilderId} {f : Builder → Acting α} {q : α → Session → Prop}
    (hf : ∀ found, s.workspace.builders[b]? = some found →
      G.At s (f found) q) :
    G.At s (build (Building.builder b) >>= f) q := by
  have hexec := exec_build (Building.builder b) s
  rw [Building.exec_builder] at hexec
  refine Guarantee.at_bind_of_exec hexec fun found hfound => hf found ?_
  cases hb : s.workspace.builders[b]? with
  | some other => simpa [hb] using hfound
  | none => simp [hb] at hfound

/-- Copying a builder leaves the session as it is. -/
theorem exec_copy (b : BuilderId) (s : Session) :
    Computation.exec (build (Building.copy b)) s =
      (s.workspace.copying b, s) := by
  rw [exec_build, Building.exec_copy]

/-- Copying a builder keeps whatever is to be kept. -/
theorem kept_copy {G : Guarantee Session} {b : BuilderId} :
    G.Kept (build (Building.copy b)) := by
  intro s hs
  rw [exec_copy]
  exact ⟨hs, G.refl s, fun _ _ => trivial⟩

/-! ### Guarantees of queries that are run -/

section

open Guarantee

variable {G : Guarantee Session} {b : BuilderId}
  (hcompile : ∀ kind change, G.Kept (build (Building.compile b kind change)))
  (hconnect : ∀ action : Connecting QueryResult, G.Kept (connect action))

include hcompile hconnect

/-- What compiling and running a query both keep, sending it keeps. -/
theorem kept_sending (kind : QueryKind) (operation : String)
    (change : Content → Content) :
    G.Kept (send b kind operation change) := by
  intro s
  apply at_builder_bind
  intro builder _
  split
  · exact kept_throw _ s
  · refine (hcompile kind change).bind (fun clauses => ?_) s
    apply kept_get_bind
    intro t
    dsimp only
    split
    · exact hconnect _ t
    · exact kept_throw _ t

/-- What is kept when a query is sent is kept when a changed copy is sent. -/
theorem kept_sendingCopy (kind : QueryKind) (operation : String)
    (change : Content → Content) :
    G.Kept (sendCopy b kind operation change) :=
  kept_copy.bind fun _ => kept_sending hcompile hconnect kind operation change

/-- Changing a query for an aggregation keeps a guarantee that edits keep. -/
theorem kept_aggregating (function : String) (arguments : List Expression) :
    G.Kept (aggregate b function arguments) := by
  apply (kept_sendingCopy hcompile hconnect _ _ _).bind
  intro result
  apply (kept_lift _).bind
  intro record
  split
  · exact kept_pure _
  · exact kept_throw _

/-- Changing a query for its first record keeps a guarantee that edits keep. -/
theorem kept_sendingFirst : G.Kept (first b) :=
  (kept_sendingCopy hcompile hconnect _ _ _).bind fun _ => kept_lift _

end

end Acting

namespace Session

/-- A session in which copying is limited in another way. -/
def limited (s : Session) (limits : CopyLimits) : Session :=
  { s with workspace := { s.workspace with limits } }

/-- A session without what was logged. -/
def quiet (s : Session) :
    Session := { s with workspace := { s.workspace with log := [] } }

variable {s : Session} {step : Step}

/-- A step leaves the session as the call does. -/
theorem step_snd :
    (s.step step).2 = (Computation.exec (step.run none) s.quiet).2 := rfl

/-- A step is answered as the call is. -/
theorem step_reply :
    (s.step step).1.reply = (Computation.exec (step.run none) s.quiet).1.map
      Prod.fst := rfl

/-- A step notes what has happened to drivers since it began. -/
theorem step_events : (s.step step).1.events =
    ((s.step step).2.connections.events.drop s.connections.events.length).map
      fun event =>
      ((s.step step).2.connections.labelOf event.1, event.2) := rfl

/-- A step that succeeds leaves one with the builder it answers with. -/
theorem step_builder_of_ok {answer : Reply × Option BuilderId}
    (h : (Computation.exec (step.run none) s.quiet).1 = .ok answer) :
    (s.step step).1.builder = answer.2 := by
  unfold Session.step
  split
  next outcome after hrun =>
    have houtcome : outcome = .ok answer :=
      (congrArg Prod.fst hrun).symm.trans h
    rw [houtcome]

/-- A step that fails leaves one with the builder in its register. -/
theorem step_builder_of_error {fault : Fault}
    (h : (Computation.exec (step.run none) s.quiet).1 = .error fault) :
    (s.step step).1.builder = (s.step step).2.builder? step.register := by
  rw [step_snd]
  unfold Session.step
  split
  next outcome after hrun =>
    have houtcome : outcome = .error fault :=
      (congrArg Prod.fst hrun).symm.trans h
    have hafter : (Computation.exec (step.run none) s.quiet).2 = after :=
      congrArg Prod.snd hrun
    rw [houtcome, hafter]

end Session

end GraphQuery
