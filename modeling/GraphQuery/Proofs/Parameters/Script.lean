import GraphQuery.Builder.Session
import GraphQuery.Proofs.Parameters.Calls

/-!
# What scripts bind

Steps of scripts keep every parameter bound where it was made, whatever is
called, in callbacks of any depth, and also where they fail: `Step.kept_run`
for one step, `Session.grounded_after` for a script.
-/

namespace GraphQuery

/-! ### Parameters from outside

Builders make their parameters themselves.  Only the steps of a walk can
bring some along. -/

mutual

/-- The parameters that the walks of a call give. -/
def Call.walked : Call → List Parameter
  | .startFromWalk steps => steps.flatMap Pattern.WalkStep.parameters
  | .whereExists body _ _ => body.walked
  | .whereCount body _ _ _ => body.walked
  | .whereGroup body _ _ => body.walked
  | .calling body => body.walked
  | .unioning _ body => body.walked
  | _ => []

/-- The parameters that the walks of a callback give. -/
def Callback.walked : Callback → List Parameter
  | .mk steps _ => Step.walkedInAll steps

/-- The parameters that the walks of a step give. -/
def Step.walked : Step → List Parameter
  | .mk _ call _ _ => call.walked

/-- The parameters that the walks of steps give. -/
def Step.walkedInAll : List Step → List Parameter
  | [] => []
  | step :: rest => step.walked ++ Step.walkedInAll rest

end

namespace Acting

open Guarantee Workspace

/-- The guarantee of every step in a session. -/
def grounding (given : Parameter → Prop) : Guarantee Session where
  holds s := Grounded given s.workspace
  leads s t := Grows s.workspace t.workspace
  refl s := Grows.refl s.workspace
  trans := Grows.trans

variable {given : Parameter → Prop} {s : Session} {b : BuilderId}

/-- A step in the workspace does in a session what it does there. -/
theorem at_build {α : Type} {action : Building α} {p : α → Workspace → Prop}
    (h : (Workspace.grounding given).At s.workspace action p) :
    (grounding given).At s (build action) fun a t => p a t.workspace := by
  intro hs
  rw [exec_build]
  exact h hs

/-- What keeps all bindings of the workspace keeps those of the session. -/
theorem kept_build {α : Type} {action : Building α}
    (h : (Workspace.grounding given).Kept action) :
    (grounding given).Kept (build action) := fun s => at_build (h s.workspace)

/-- A step that leaves the builders, the stacks and the takings of the
workspace as they are. -/
theorem at_set_of_eq {t : Session}
    (hbuilders : t.workspace.builders = s.workspace.builders)
    (hstacks : t.workspace.parameterStacks = s.workspace.parameterStacks)
    (htakings : t.workspace.takings = s.workspace.takings) :
    (grounding given).At s (set t : Acting PUnit) fun _ _ => True := by
  refine at_set fun hs => ?_
  have hsubset : s.workspace.takings ⊆ t.workspace.takings :=
    htakings ▸ List.Subset.refl _
  obtain ⟨hgrounded, hgrows⟩ := Grounded.of_eq hs hbuilders hstacks hsubset
  exact ⟨hgrounded, hgrows, trivial⟩

/-- The connections bind nothing. -/
theorem kept_connect {α : Type} (action : Connecting α) :
    (grounding given).Kept (connect action) := by
  refine kept_get_bind fun s => ?_
  rcases StateT.run (ExceptT.run action) { s.connections with
      log := [] } with ⟨outcome, connections⟩
  refine At.bind (p := fun _ _ => True) ?_ fun _ t _ _ _ =>
    kept_lift outcome t
  exact at_set_of_eq rfl rfl rfl

/-- Keeping something in a register binds nothing. -/
theorem kept_keep (register : String) (content : Register) :
    (grounding given).Kept (keep register content) :=
  fun _ => at_set_of_eq rfl rfl rfl

/-- Looking up a register binds nothing. -/
theorem kept_lookup (register : String) :
    (grounding given).Kept (lookup register) := by
  refine kept_get_bind fun s => ?_
  split
  · exact kept_pure _ s
  · exact kept_throw _ s

/-- Attaching connections binds nothing. -/
theorem kept_attach (register : String) :
    (grounding given).Kept (attach b register) := by
  refine (kept_lookup register).bind fun content => kept_build fun w => ?_
  exact Building.at_amend fun _ _ => ⟨.inl rfl, fun _ hp => .inl hp, .inl rfl⟩

/-- A sub-query is called with what it has bound. -/
theorem kept_callSubQuery (inner : BuilderId) :
    (grounding given).Kept (callSubQuery b inner) :=
  kept_build (Building.kept_edit_plain (fun _ => rfl) fun _ => rfl)

/-- A sub-query in a register is called with what it has bound. -/
theorem kept_callRegister (register : String) :
    (grounding given).Kept (callRegister b register) := by
  refine (kept_lookup register).bind fun content => ?_
  cases content with
  | connections => exact kept_throw _
  | builder inner =>
    refine fun s => at_builder_bind fun caller _ =>
      at_builder_bind fun called _ => ?_
    dsimp only
    split
    · exact kept_throw _ s
    · split
      · exact kept_throw _ s
      · exact kept_callSubQuery inner s

/-- Uniting moves a builder to another stack only where nothing is bound in
its own. -/
theorem kept_unite (second : BuilderId) :
    (grounding given).Kept (unite b second) := by
  have hedit : (grounding given).Kept
      (build (Building.edit b fun body =>
        { body with union := some second })) :=
    kept_build (Building.kept_edit_plain (fun _ => rfl) fun _ => rfl)
  refine fun s => at_of_holds fun hs => at_builder_bind fun one hone =>
    at_builder_bind fun other hother => ?_
  dsimp only
  split
  · refine at_get_bind ?_
    split
    · exact kept_throw _ s
    · next hempty =>
      refine At.bind (at_build (p := fun _ _ => True)
        (Building.at_amend fun old hold => ?_))
        fun _ t _ _ _ => hedit t
      obtain rfl : other = old := Option.some.inj (hother.symm.trans hold)
      refine ⟨.inr ⟨?_, hs.stack_lt b one hone⟩, fun _ hp => .inl hp,
        .inl rfl⟩
      simpa using hempty
  · exact hedit s

/-- A query in a register is moved to the stack of the first one only if it
has bound nothing. -/
theorem kept_uniteRegister (register : String) :
    (grounding given).Kept (uniteRegister b register) := by
  refine (kept_lookup register).bind fun content => ?_
  cases content with
  | connections => exact kept_throw _
  | builder second => exact kept_unite second

/-! ### Queries that are run -/

/-- Sending a query binds nothing. -/
theorem kept_send (kind : QueryKind) (operation : String)
    (change : Content → Content) :
    (grounding given).Kept (send b kind operation change) :=
  kept_sending (fun kind change =>
    kept_build (Building.kept_compile kind change)) kept_connect
    kind operation change

/-- Sending an aggregation binds nothing. -/
theorem kept_aggregate (function : String) (arguments : List Expression) :
    (grounding given).Kept (aggregate b function arguments) :=
  kept_aggregating (fun kind change =>
    kept_build (Building.kept_compile kind change)) kept_connect
    function arguments

/-- Sending a changed copy binds nothing. -/
theorem kept_sendCopy (kind : QueryKind) (operation : String)
    (change : Content → Content) :
    (grounding given).Kept (sendCopy b kind operation change) :=
  kept_copy.bind fun _ => kept_send _ _ _

/-- Asking for the first record binds nothing. -/
theorem kept_first : (grounding given).Kept (first b) :=
  (kept_sendCopy _ _ _).bind fun _ => kept_lift _

/-- A query that is changed and sent keeps the bindings of the change. -/
theorem kept_changeAndSend (change : Change) (kind : QueryKind)
    (operation : String) :
    (grounding given).Kept (changeAndSend b change kind operation) := by
  refine (kept_build (change.kept_perform b)).bind fun _ => ?_
  exact (kept_send _ _ _).bind fun _ => kept_pure _

/-- Looking up an entry binds nothing. -/
theorem kept_entry : (grounding given).Kept (build (Building.entry b)) :=
  kept_build Building.kept_entry

/-- **Every way of running a query keeps all bindings.** -/
theorem kept_runQuery (r : Run) : (grounding given).Kept (runQuery b r) := by
  have hsend : ∀ kind operation, (grounding given).Kept
      (do return Reply.result (← send b kind operation)) :=
    fun kind operation => (kept_send _ _ _).bind fun _ => kept_pure _
  have haggregate : ∀ function arguments, (grounding given).Kept
      (do return Reply.value (← aggregate b function arguments)) :=
    fun function arguments => (kept_aggregate _ _).bind fun _ => kept_pure _
  cases r with
  | execute => exact hsend _ _
  | get | returnAll | returnRaw | set | setLabels | batchCreate | delete
  | forceDelete | remove =>
    exact kept_changeAndSend _ _ _
  | create values | merge values =>
    rw [runQuery]
    split
    · exact hsend _ _
    · exact kept_changeAndSend _ _ _
  | first | only => exact kept_first.bind fun _ => kept_pure _
  | pluck property =>
    refine kept_entry.bind fun entry => ?_
    exact (kept_sendCopy _ _ _).bind fun _ => kept_pure _
  | count property distinct => exact kept_entry.bind fun entry => haggregate _ _
  | aggregate function property =>
    exact kept_entry.bind fun entry => haggregate _ _
  | percentile function property fraction =>
    refine (kept_build fun w =>
      (Building.at_bind fraction).mono fun _ _ _ _ _ => trivial).bind ?_
    exact fun parameter => kept_entry.bind fun entry => haggregate _ _

end Acting

open Acting Guarantee

section

variable {given : Parameter → Prop}

/-- Looking for what a step acts on binds nothing. -/
theorem Step.kept_target (current : Option BuilderId) (on : Option String) :
    (grounding given).Kept (Step.target current on) := by
  cases on with
  | some register => exact kept_lookup register
  | none =>
    cases current with
    | some b => exact kept_pure _
    | none => exact kept_lookup _

/-- A query is made with what walks were given. -/
theorem Call.kept_making {call : Call} {making : Building BuilderId}
    (h : call.making? = some making) (hwalked : ∀ p ∈ call.walked, given p) :
    (Workspace.grounding given).Kept making := by
  cases call <;> cases h
  · exact Building.kept_start _
  · refine Building.kept_startFromWalk fun step hstep p hp => hwalked p ?_
    exact List.mem_flatMap.mpr ⟨step, hstep, hp⟩

mutual

/-- **Every call keeps all bindings**, with those in its callback.  The
second query of a union is started on the stack of the first one. -/
theorem Call.kept_perform (b : BuilderId) (method : String)
    (into : Option String) (call : Call) (h : ∀ p ∈ call.walked, given p) :
    (grounding given).Kept (call.perform b method into) := by
  match call with
  | .change c =>
    exact (kept_build (c.kept_perform b)).bind fun _ => kept_pure _
  | .subQuery =>
    refine (kept_build Building.kept_newSubQuery).bind fun inner => ?_
    exact (kept_keep _ _).bind fun _ => kept_pure _
  | .whereExists body negate chain =>
    refine (kept_build Building.kept_newSubQuery).bind fun inner => ?_
    refine (Callback.kept_run inner body h).bind fun _ => ?_
    exact (kept_build (Building.kept_whereExists _ _)).bind fun _ =>
      kept_pure _
  | .whereCount body count spelling chain =>
    refine (kept_lift _).bind fun operator => ?_
    refine (kept_build Building.kept_newSubQuery).bind fun inner => ?_
    refine (Callback.kept_run inner body h).bind fun _ => ?_
    exact (kept_build (Building.kept_whereCount _ _ _)).bind fun _ =>
      kept_pure _
  | .whereGroup body negate chain =>
    refine (kept_build Building.kept_newSubQuery).bind fun inner => ?_
    refine (Callback.kept_run inner body h).bind fun _ => ?_
    exact (kept_build (Building.kept_whereGroup _ _)).bind fun _ =>
      kept_pure _
  | .calling body =>
    refine (kept_build Building.kept_newSubQuery).bind fun inner => ?_
    refine (Callback.kept_run inner body h).bind fun _ => ?_
    exact (kept_callSubQuery inner).bind fun _ => kept_pure _
  | .callingRegister register =>
    exact (kept_callRegister register).bind fun _ => kept_pure _
  | .unioning how body =>
    refine fun s => at_of_holds fun hs => at_builder_bind fun outer houter =>
      ?_
    have hstart : (Workspace.grounding given).At s.workspace
        (Building.startWith outer.stack outer.sequence how) fun _ _ => True :=
      Building.at_startWith (hs.stack_lt b outer houter)
    refine (at_build hstart).bind fun second t _ _ _ => ?_
    refine (Callback.kept_run second body h).bind (fun _ => ?_) t
    exact (kept_unite second).bind fun _ => kept_pure _
  | .unioningRegister register =>
    exact (kept_uniteRegister register).bind fun _ => kept_pure _
  | .unioningNothing => exact kept_throw _
  | .attach register => exact (kept_attach register).bind fun _ => kept_pure _
  | .toText kind | .toClauses kind =>
    exact (kept_build (Building.kept_compile kind id)).bind fun _ =>
      kept_pure _
  | .build kind =>
    refine (kept_build (Building.kept_compile kind id)).bind fun clauses => ?_
    exact kept_get_bind fun s => kept_pure _ s
  | .run r => exact (kept_runQuery r).bind fun _ => kept_pure _
  | .start _ | .startFromWalk _ | .connection _ | .unknown =>
    exact kept_throw _

/-- **Every callback keeps all bindings.** -/
theorem Callback.kept_run (b : BuilderId) (body : Callback)
    (h : ∀ p ∈ body.walked, given p) :
    (grounding given).Kept (body.run b) := by
  match body with
  | .mk steps register =>
    rw [Callback.walked] at h
    unfold Callback.run
    cases register with
    | some name => exact (kept_keep _ _).bind fun _ =>
      Step.kept_runAll b steps h
    | none => exact Step.kept_runAll b steps h

/-- **A step keeps every parameter bound where it was made.** -/
theorem Step.kept_run (current : Option BuilderId) (step : Step)
    (h : ∀ p ∈ step.walked, given p) :
    (grounding given).Kept (step.run current) := by
  match step with
  | .mk method call on into =>
    unfold Step.run
    split
    · next making hmaking =>
      refine (kept_build (Call.kept_making hmaking h)).bind fun made => ?_
      exact (kept_keep _ _).bind fun _ => kept_pure _
    · refine (Step.kept_target current _).bind fun target => ?_
      split
      · split
        · exact (kept_connect _).bind fun _ => kept_pure _
        · exact kept_throw _
      · next b =>
        refine fun s => at_builder_bind fun builder _ => ?_
        split
        · exact kept_throw _ s
        · exact (Call.kept_perform b method into call h).bind (fun _ =>
            kept_pure _) s

/-- Steps keep all bindings, one after the other. -/
theorem Step.kept_runAll (b : BuilderId) (steps : List Step)
    (h : ∀ p ∈ Step.walkedInAll steps, given p) :
    (grounding given).Kept (Step.runAll b steps) := by
  match steps with
  | [] => exact kept_pure _
  | step :: rest =>
    rw [Step.walkedInAll, List.forall_mem_append] at h
    exact (Step.kept_run (some b) step h.1).bind fun _ =>
      Step.kept_runAll b rest h.2

end

end

/-! ### What a query is built with -/

namespace Session

/-- **A script keeps every parameter bound where it was made**, also where
its steps fail. -/
theorem grounded_after {given : Parameter → Prop} {s : Session}
    {script : List Step} (hs : s.workspace.Grounded given)
    (h : ∀ p ∈ Step.walkedInAll script, given p) :
    (s.after script).workspace.Grounded given := by
  induction script generalizing s with
  | nil => exact hs
  | cons step rest ih =>
    rw [Step.walkedInAll, List.forall_mem_append] at h
    let quiet : Workspace := { s.workspace with log := [] }
    have hquiet : quiet.Grounded given ∧ Workspace.Grows s.workspace quiet :=
      hs.of_eq rfl rfl (List.Subset.refl _)
    exact ih (Step.kept_run none step h.1 { s with workspace := quiet }
      hquiet.1).1 h.2

end Session

namespace Workspace

/-- A workspace without builders. -/
theorem grounded_empty {given : Parameter → Prop} {w : Workspace}
    (h : w.builders = #[]) :
    Grounded given w := by
  have hbody : ∀ b, w.body b = default := by
    intro b
    simp [body, h]
    rfl
  refine ⟨fun b builder hb => by simp [h] at hb, fun b p hp => ?_,
    fun b p hp => ?_⟩
  · rw [hbody] at hp
    cases hp
  · rw [filterParameters, hbody] at hp
    cases hp

end Workspace

end GraphQuery
