import GraphQuery.Proofs.Secrecy.Acting

/-!
# Scripts do not show the values they bind

Two scripts of one outline differ in bound values alone.  Each of them is
compared with the outline, run as a script of its own where everything can
be copied: no step can be told apart from its outline (`Step.alike_run`),
whatever callbacks it is given, unless it fails to copy a query.  So two
scripts in which all queries are copied are answered in the same way, log
the same events and build queries of the same texts
(`Session.values_leave_no_trace`).  Copying does show values:
`Session.copying_shows_values`.
-/

namespace GraphQuery

/-! ### Drivers from outside -/

mutual

/-- The drivers a call adds. -/
def Call.added : Call → List Driver
  | .whereExists body _ _ => body.added
  | .whereCount body _ _ _ => body.added
  | .whereGroup body _ _ => body.added
  | .calling body => body.added
  | .unioning _ body => body.added
  | .connection c => c.added
  | _ => []

/-- The drivers a callback adds. -/
def Callback.added : Callback → List Driver
  | .mk steps _ => Step.addedInAll steps

/-- The drivers a step adds. -/
def Step.added : Step → List Driver
  | .mk _ call _ _ => call.added

/-- The drivers that steps add. -/
def Step.addedInAll : List Step → List Driver
  | [] => []
  | step :: rest => step.added ++ Step.addedInAll rest

end

mutual

/-- An outline adds the drivers of the call. -/
theorem Call.added_outline (call : Call) :
    call.outline.added = call.added := by
  match call with
  | .whereExists body _ _ | .whereCount body _ _ _ | .whereGroup body
      _ _ | .calling body
  | .unioning _ body => exact Callback.added_outline body
  | .connection c => cases c <;> rfl
  | .start _ | .startFromWalk _ | .change _ | .subQuery | .callingRegister
      _ | .unioningRegister _
  | .unioningNothing | .attach _ | .toText _ | .toClauses _ | .build _ | .run
      _ | .unknown => rfl

/-- The outline of a callback adds the drivers of the callback. -/
theorem Callback.added_outline (body : Callback) :
    body.outline.added = body.added := by
  match body with
  | .mk steps _ => exact Step.addedInAll_outlineAll steps

/-- The outline of a step adds the drivers of the step. -/
theorem Step.added_outline (step : Step) :
    step.outline.added = step.added := by
  match step with
  | .mk _ call _ _ => exact Call.added_outline call

/-- An outline adds the drivers of the script. -/
theorem Step.addedInAll_outlineAll (steps : List Step) :
    Step.addedInAll (Step.outlineAll steps) = Step.addedInAll steps := by
  match steps with
  | [] => rfl
  | step :: rest =>
    rw [Step.outlineAll, Step.addedInAll, Step.added_outline step,
      Step.addedInAll_outlineAll rest,
      Step.addedInAll]

end

/-! ### Steps -/

open Acting Likeness

/-- Answers are compared without values, the builders made as they are. -/
abbrev SameAnswer (answer answer' : Reply × Option BuilderId) : Prop :=
  SameReply answer.1 answer'.1 ∧ answer.2 = answer'.2

/-- An answer is the same as itself. -/
theorem SameAnswer.refl (answer : Reply × Option BuilderId) :
    SameAnswer answer answer := ⟨rfl, rfl⟩

/-- What a step acts on is looked for alike. -/
theorem Step.alike_target (current : Option BuilderId) (on : Option String) :
    likeness.Alike Eq (Step.target current on) (Step.target current on) := by
  cases on with
  | some register => exact alike_lookup register
  | none =>
    cases current with
    | some b => exact alike_pure rfl
    | none => exact alike_lookup _

/-- A call makes a query if its outline does, and the two queries cannot be
told apart. -/
theorem Call.alike_making (call : Call) :
    Option.Rel (Building.likeness.Alike Eq) call.making?
      call.outline.making? := by
  cases call with
  | start how => exact .some (Building.alike_start how)
  | startFromWalk steps => exact .some (Building.alike_startFromWalk steps)
  | _ => exact .none

/-- An outline is a call of the connections if the call is one. -/
theorem Call.onConnections?_outline (call : Call) :
    call.outline.onConnections? =
      call.onConnections?.map ConnectionCall.outline := by
  cases call <;> rfl

/-- Then it adds what the connections are asked to add. -/
theorem Call.added_of_onConnections? {call : Call} {c : ConnectionCall}
    (h : call.onConnections? = some c) : call.added = c.added := by
  cases call <;> cases h
  rfl

mutual

/-- **A call cannot be told apart from its outline.** -/
theorem Call.alike_perform (b : BuilderId) (method : String)
    (into : Option String) (call : Call)
    (h : ∀ driver ∈ call.added, driver.Blind) :
    likeness.Alike SameAnswer (call.perform b method into)
    (call.outline.perform b method into) := by
  match call with
  | .change c =>
    exact (alike_build (c.alike_perform b)).bind_eq fun _ =>
      alike_pure (.refl _)
  | .subQuery =>
    refine (alike_build (Building.alike_newSubQuery b)).bind_eq fun inner =>
      ?_
    exact (alike_keep _ _).bind_eq fun _ => alike_pure (.refl _)
  | .whereExists body negate chain =>
    refine (alike_build (Building.alike_newSubQuery b)).bind_eq fun inner =>
      ?_
    refine (Callback.alike_run inner body h).bind_eq fun _ => ?_
    exact (alike_build (Building.alike_whereExists _ _)).bind_eq fun _ =>
      alike_pure (.refl _)
  | .whereCount body count spelling chain =>
    refine (alike_lift_eq _).bind_eq fun operator => ?_
    refine (alike_build (Building.alike_newSubQuery b)).bind_eq fun inner =>
      ?_
    refine (Callback.alike_run inner body h).bind_eq fun _ => ?_
    exact (alike_build (Building.alike_whereCount _ _ _)).bind_eq fun _ =>
      alike_pure (.refl _)
  | .whereGroup body negate chain =>
    refine (alike_build (Building.alike_newSubQuery b)).bind_eq fun inner =>
      ?_
    refine (Callback.alike_run inner body h).bind_eq fun _ => ?_
    exact (alike_build (Building.alike_whereGroup _ _)).bind_eq fun _ =>
      alike_pure (.refl _)
  | .calling body =>
    refine (alike_build (Building.alike_newSubQuery b)).bind_eq fun inner =>
      ?_
    refine (Callback.alike_run inner body h).bind_eq fun _ => ?_
    exact (alike_callSubQuery inner).bind_eq fun _ => alike_pure (.refl _)
  | .callingRegister register =>
    exact (alike_callRegister register).bind_eq fun _ => alike_pure (.refl _)
  | .unioning how body =>
    refine (alike_builder b).bind fun outer outer' houter => ?_
    rw [houter.stack, houter.sequence]
    refine (alike_build (Building.alike_startWith _ _ how)).bind_eq
      fun second => ?_
    refine (Callback.alike_run second body h).bind_eq fun _ => ?_
    exact (alike_unite second).bind_eq fun _ => alike_pure (.refl _)
  | .unioningRegister register =>
    exact (alike_uniteRegister register).bind_eq fun _ => alike_pure (.refl _)
  | .unioningNothing => exact alike_throw rfl
  | .attach register =>
    exact (alike_attach register).bind_eq fun _ => alike_pure (.refl _)
  | .toText kind | .toClauses kind =>
    exact (alike_build (Building.alike_compile_unchanged b kind)).bind_eq
      fun _ =>
      alike_pure (.refl _)
  | .build kind =>
    refine (alike_build (Building.alike_compile_unchanged b kind)).bind_eq
      fun clauses => ?_
    apply alike_get_bind
    intro s t hst
    have hparameters := hst.workspace.parameters b
    exact alike_pure ⟨congrArg (Reply.built _) hparameters, rfl⟩
  | .run r => exact (alike_runQuery b r).bind_eq fun _ => alike_pure (.refl _)
  | .start _ | .startFromWalk _ | .connection _ | .unknown =>
    exact alike_throw rfl

/-- **A callback cannot be told apart from its outline.** -/
theorem Callback.alike_run (b : BuilderId) (body : Callback)
    (h : ∀ driver ∈ body.added, driver.Blind) :
    likeness.Alike Eq (body.run b) (body.outline.run b) := by
  match body with
  | .mk steps register =>
    rw [Callback.added] at h
    unfold Callback.outline Callback.run
    cases register with
    | some name =>
      exact (alike_keep _ _).bind_eq fun _ => Step.alike_runAll b steps h
    | none => exact Step.alike_runAll b steps h

/-- **A step cannot be told apart from its outline.**  A step that makes no
query acts on what there is. -/
theorem Step.alike_run (current : Option BuilderId) (step : Step)
    (h : ∀ driver ∈ step.added, driver.Blind) :
    likeness.Alike SameAnswer (step.run current)
    (step.outline.run current) := by
  match step with
  | .mk method call on into =>
    have hmaking := Call.alike_making call
    have honly := Call.onConnections?_outline call
    unfold Step.outline Step.run
    generalize call.making? = making at hmaking ⊢
    generalize call.outline.making? = making' at hmaking ⊢
    rcases hmaking with hmade | _ <;> rcases on with _ | register
    case some.none =>
      refine (alike_build hmade).bind_eq fun made => ?_
      exact (alike_keep _ _).bind_eq fun _ => alike_pure (.refl _)
    all_goals
      refine (Step.alike_target current _).bind_eq fun target => ?_
      cases target with
      | connections =>
        rw [honly]
        cases hcall : call.onConnections? with
        | none => exact alike_throw rfl
        | some c =>
          rw [Step.added, Call.added_of_onConnections? hcall] at h
          exact (alike_connect (c.alike_perform h)).bind_eq fun _ =>
            alike_pure (.refl _)
      | builder b =>
        refine (alike_builder b).bind fun x y hxy => ?_
        dsimp only
        rw [hxy.whole, call.reads_outline]
        split
        · exact alike_throw rfl
        · refine (Call.alike_perform b method into call h).bind ?_
          rintro ⟨reply, made⟩ ⟨reply', _⟩ ⟨hreply, rfl⟩
          exact alike_pure ⟨hreply, rfl⟩

/-- Steps cannot be told apart from their outlines. -/
theorem Step.alike_runAll (b : BuilderId) (steps : List Step)
    (h : ∀ driver ∈ Step.addedInAll steps, driver.Blind) :
    likeness.Alike Eq (Step.runAll b steps)
    (Step.runAll b (Step.outlineAll steps)) := by
  match steps with
  | [] => exact alike_pure rfl
  | step :: rest =>
    rw [Step.addedInAll, List.forall_mem_append] at h
    exact (Step.alike_run (some b) step h.1).bind fun _ _ _ =>
      Step.alike_runAll b rest h.2

end

/-! ### Scripts -/

/-- What shows of a step but for values. -/
def StepOutcome.blank (o : StepOutcome) : StepOutcome :=
  { o with
    reply := (o.reply.mapError Fault.blank).map Reply.blank
    events := o.events.map fun event => (event.1, event.2.blank) }

/-- Whether a step failed to copy a query. -/
def StepOutcome.failsToCopy (o : StepOutcome) : Bool :=
  match o.reply with
  | .error fault => fault.isOfCopying
  | .ok _ => false

namespace Session

/-- The text a builder compiles to in a session, and what compiling it logs. -/
def compiled (s : Session) (b : BuilderId) (kind : QueryKind) :
    Except Fault String × List LogEvent :=
  let (outcome, after) := Computation.exec (Building.compile b kind)
    s.quiet.workspace
  (outcome.map clausesText, after.log)

variable {s t : Session}

/-- A session is like itself if everything could be copied. -/
theorem Like.of_unlimited
    (h : ∀ driver ∈ s.connections.drivers, driver.Blind) :
    s.Like (s.limited { depth := none }) :=
  ⟨.of_unlimited _, rfl, ⟨rfl, h, rfl, rfl, rfl, rfl, rfl, rfl⟩⟩

/-- What was logged does not matter for what is like a session. -/
theorem Like.quiet (h : s.Like t) : s.quiet.Like t.quiet :=
  { h with workspace := { h.workspace with log := rfl } }

/-- A builder that can be copied compiles to the text its like compiles to,
and the same events are logged. -/
theorem Like.compiled (h : s.Like t) {b : BuilderId}
    (hcopying : s.workspace.copying b = .ok ()) (kind : QueryKind) :
    s.compiled b kind = t.compiled b kind := by
  have hquiet : (s.quiet.workspace.changed b id).copying b = .ok () := by
    rw [Workspace.changed_id, ← hcopying]
    exact Workspace.copying_congr s.quiet.workspace s.workspace rfl rfl
      (fun _ => rfl) b
  obtain ⟨hworkspace, hanswer⟩ := Building.compile_of_copying kind
    (fun _ _ hcontent => hcontent) h.quiet.workspace hquiet
  exact Prod.ext (congrArg (Except.map clausesText) hanswer) hworkspace.log

/-- Like sessions have the same builder in a register. -/
theorem Like.builder? (h : s.Like t) (register : String) :
    s.builder? register = t.builder? register := by
  rw [Session.builder?, Session.builder?, h.registers]

/-- What the drivers see from a step on is the same but for values. -/
theorem Like.events {s' t' : Session} (h : s.Like t) (hafter : s'.Like t') :
    ((s'.connections.events.drop s.connections.events.length).map fun event =>
        (s'.connections.labelOf event.1, event.2.blank)) =
      (t'.connections.events.drop t.connections.events.length).map
        fun event =>
        (t'.connections.labelOf event.1, event.2.blank) := by
  have hlength : s.connections.events.length =
      t.connections.events.length := by
    rw [← List.length_map, h.connections.events, List.length_map]
  have hlabel : s'.connections.labelOf = t'.connections.labelOf := by
    funext n
    unfold Connections.labelOf
    rw [hafter.connections.drivers]
  have hevents :=
    congrArg (List.map fun event => (t'.connections.labelOf event.1, event.2))
    (congrArg (List.drop t.connections.events.length)
      hafter.connections.events)
  rw [← List.map_drop, ← List.map_drop, List.map_map, List.map_map] at hevents
  rw [hlength, hlabel]
  exact hevents

/-- A step that copied all queries is not excused. -/
theorem not_excused_of_step {step : Step}
    (h : (s.step step).1.failsToCopy = false) :
    ¬ likeness.Excused (Computation.exec (step.run none) s.quiet).1 := by
  rintro ⟨fault, hfault, hexcused⟩
  rw [StepOutcome.failsToCopy, step_reply, hfault] at h
  exact Bool.false_ne_true (h.symm.trans hexcused)

/-- **A step of a script shows what its outline shows** if it copied all
queries, and leads to a session that is alike. -/
theorem Like.step (h : s.Like t) (step : Step)
    (hadded : ∀ driver ∈ step.added, driver.Blind)
    (hcopies : (s.step step).1.failsToCopy = false) :
    (s.step step).1.blank = (t.step step.outline).1.blank ∧
      (s.step step).2.Like (t.step step.outline).2 := by
  obtain ⟨hafter, hout⟩ :=
    (Step.alike_run none step hadded _ _ h.quiet).resolve_left
    (not_excused_of_step hcopies)
  have hlike : (s.step step).2.Like (t.step step.outline).2 := hafter
  have hlog : (s.step step).1.log = (t.step step.outline).1.log :=
    hlike.workspace.log
  have hevents : (s.step step).1.events.map (fun event =>
      (event.1, event.2.blank)) =
      (t.step step.outline).1.events.map fun event =>
        (event.1, event.2.blank) := by
    rw [step_events, step_events, List.map_map, List.map_map]
    exact h.events hlike
  refine ⟨?_, hlike⟩
  have hreply : ((s.step step).1.reply.mapError Fault.blank).map Reply.blank =
      ((t.step step.outline).1.reply.mapError Fault.blank).map
        Reply.blank := by
    rw [step_reply, step_reply]
    generalize (Computation.exec (step.run none) s.quiet).1 =
        outcome at hout ⊢
    generalize (Computation.exec (step.outline.run none) t.quiet).1 =
        outcome' at hout ⊢
    cases hout with
    | ok hanswer => exact congrArg Except.ok hanswer.1
    | error hfault => exact congrArg Except.error hfault
  have hbuilder : (s.step step).1.builder =
      (t.step step.outline).1.builder := by
    generalize hleft : (Computation.exec (step.run none) s.quiet).1 =
        outcome at hout
    generalize hright : (Computation.exec (step.outline.run none)
        t.quiet).1 = outcome' at hout
    cases hout with
    | ok hanswer => rw [step_builder_of_ok hleft, step_builder_of_ok hright,
        hanswer.2]
    | error _ =>
      rw [step_builder_of_error hleft, step_builder_of_error hright,
        step.register_outline,
        hlike.builder?]
  rw [StepOutcome.blank, StepOutcome.blank, hreply, hbuilder, hlog, hevents]

/-- A script whose steps copied all queries shows what its outline shows. -/
theorem Like.script (hst : s.Like t) (script : List Step)
    (h : ∀ driver ∈ Step.addedInAll script, driver.Blind)
    (hcopies : ∀ outcome ∈ s.outcomes script, outcome.failsToCopy = false) :
    (s.outcomes script).map StepOutcome.blank =
        (t.outcomes (Step.outlineAll script)).map StepOutcome.blank ∧
      (s.after script).Like (t.after (Step.outlineAll script)) := by
  induction script generalizing s t with
  | nil => exact ⟨rfl, hst⟩
  | cons step rest ih =>
    rw [Step.addedInAll, List.forall_mem_append] at h
    rw [outcomes, List.forall_mem_cons] at hcopies
    obtain ⟨hstep, hnext⟩ := hst.step step h.1 hcopies.1
    obtain ⟨houtcomes, hafter⟩ := ih hnext h.2 hcopies.2
    refine ⟨?_, hafter⟩
    rw [Step.outlineAll, outcomes, outcomes, List.map_cons, List.map_cons,
      hstep, houtcomes]

/-- **Bound values show only in what cannot be copied.**  Two scripts of one
outline, run in one session so that no step fails to copy a query, are
answered in the same way step by step and log the same events, also where
they fail for other reasons.  After them every builder that can be copied
compiles to the same text and logs the same events in doing so, whatever the
operation, and the names of the parameters are the same, in the same order.
The drivers, to which queries are sent, must not look at values either. -/
theorem values_leave_no_trace {script script' : List Step}
    (hdrivers : ∀ driver ∈ s.connections.drivers, driver.Blind)
    (hadded : ∀ driver ∈ Step.addedInAll script, driver.Blind)
    (houtline : Step.outlineAll script = Step.outlineAll script')
    (hcopies : ∀ outcome ∈ s.outcomes script, outcome.failsToCopy = false)
    (hcopies' : ∀ outcome ∈ s.outcomes script', outcome.failsToCopy = false) :
    (s.outcomes script).map StepOutcome.blank =
        (s.outcomes script').map StepOutcome.blank ∧
      ∀ b,
        ((s.after script).workspace.stackOf b).names =
          ((s.after script').workspace.stackOf b).names ∧
        ((s.after script).workspace.copying b = .ok () →
          (s.after script').workspace.copying b = .ok () →
          ∀ kind, (s.after script).compiled b kind =
            (s.after script').compiled b kind) := by
  have hlike := Like.of_unlimited hdrivers
  have hadded' : ∀ driver ∈ Step.addedInAll script', driver.Blind := by
    rw [← Step.addedInAll_outlineAll, ← houtline, Step.addedInAll_outlineAll]
    exact hadded
  obtain ⟨houtcomes, hafter⟩ := hlike.script script hadded hcopies
  obtain ⟨houtcomes', hafter'⟩ := hlike.script script' hadded' hcopies'
  rw [← houtline] at houtcomes' hafter'
  refine ⟨houtcomes.trans houtcomes'.symm, fun b => ⟨?_, ?_⟩⟩
  · rw [hafter.workspace.names, hafter'.workspace.names]
  · intro hcopying hcopying' kind
    rw [hafter.compiled hcopying, hafter'.compiled hcopying']

/-- A person is looked for by name, age and number of friends, and changed
in a database. -/
def personScript (name age : Value) : List Step :=
  [.mk "from_" (.start (.any (.one "p:Person") none false)) none none,
   .mk "where_filters" (.change (.filters
      [("name", name),
        ("$or", .list [.map [("age__gt", age)], .map [("age", .null)]])]
          "AND"))
      none none,
   .mk "where_count" (.whereCount
      (.mk [.mk "matching"
        (.change (.matchNode (.one "f:Friend") none false)) none none] none)
      age ">" "AND") none none,
   .mk "attach" (.attach "ctx") none none,
   .mk "set" (.run (.set [("name", name), ("age", age)])) none none,
   .mk "build" (.build .set) none none]

/-- Whoever is looked for, the same query is sent, to a database that is
down, and the same one is built in the end. -/
theorem values_leave_no_trace_of_person :
    let s := withConnections {} (Connections.ofDrivers
      [("default", Driver.failing "d" [] [("run", .service "down")])] none
        none {})
    let script := personScript (.text "Ann") (.int 30)
    let script' := personScript (.text "Bob") (.list [.bool true])
    (∀ driver ∈ s.connections.drivers, driver.Blind) ∧
    (∀ driver ∈ Step.addedInAll script, driver.Blind) ∧
    Step.outlineAll script = Step.outlineAll script' ∧
    (∀ outcome ∈ s.outcomes script, outcome.failsToCopy = false) ∧
    (∀ outcome ∈ s.outcomes script', outcome.failsToCopy = false) ∧
    (s.after script).workspace.copying 0 = .ok () ∧
    (s.after script').workspace.copying 0 = .ok () ∧
    ((s.after script).compiled 0 .set).1.toOption = some
      ("MATCH (p:Person) WHERE p.name = $param0 AND " ++
        "(p.age > $param1 OR p.age IS NULL) AND " ++
        "COUNT \x7b MATCH (f:Friend) \x7d > $param2 " ++
        "SET p.name = $param3,p.age = $param4") ∧
    (s.outcomes script).map StepOutcome.blank =
      (s.outcomes script').map StepOutcome.blank ∧
    ∀ kind, (s.after script).compiled 0 kind =
      (s.after script').compiled 0 kind := by
  intro s script script'
  have hdrivers : ∀ driver ∈ s.connections.drivers, driver.Blind := by
    intro driver hdriver
    rw [List.mem_singleton.mp (List.mem_toArray.mp hdriver)]
    exact Driver.blind_failing _ _ _
  have hadded : ∀ driver ∈ Step.addedInAll script, driver.Blind := by
    intro driver hdriver
    cases hdriver
  have houtline : Step.outlineAll script = Step.outlineAll script' := rfl
  have htext : ((s.after script).compiled 0 .set).1.toOption = some
      ("MATCH (p:Person) WHERE p.name = $param0 AND " ++
        "(p.age > $param1 OR p.age IS NULL) AND " ++
        "COUNT \x7b MATCH (f:Friend) \x7d > $param2 " ++
        "SET p.name = $param3,p.age = $param4") := by
    decide +kernel
  have hcopies : ∀ outcome ∈ s.outcomes script,
      outcome.failsToCopy = false := by
    decide +kernel
  have hcopies' : ∀ outcome ∈ s.outcomes script',
      outcome.failsToCopy = false := by
    decide +kernel
  have hcopying : (s.after script).workspace.copying 0 = .ok () :=
    eq_ok_of_toOption (by decide +kernel)
  have hcopying' : (s.after script').workspace.copying 0 = .ok () :=
    eq_ok_of_toOption (by decide +kernel)
  obtain ⟨houtcomes, hbuilders⟩ :=
    values_leave_no_trace hdrivers hadded houtline hcopies hcopies'
  exact ⟨hdrivers, hadded, houtline, hcopies, hcopies', hcopying, hcopying',
    htext, houtcomes, (hbuilders 0).2 hcopying hcopying'⟩

/-! ### Copying looks at values -/

/-- A number in lists, one in the other, as many as given. -/
def nestedLists : Nat → Value
  | 0 => .int 1
  | n + 1 => .list [nestedLists n]

/-- A node is looked for by whether a property is among some values. -/
def amongScript (values : Value) : List Step :=
  [.mk "from_" (.start (.any (.one "n:N") none false)) none none,
   .mk "where" (.change (.compare "x" "IN" values "AND")) none none]

/-- **Copying shows values.**  A query that looks for a number in a list
compiles.  With lists in lists that are nested too deep to be copied, or
with a view of a mapping, the query is of the same outline and does not
compile. -/
theorem copying_shows_values :
    let s := (ofSettings {}).limited .ofViews
    let copied := amongScript (.list [.int 1])
    ((s.after copied).compiled 0 .full).1.toOption =
      some "MATCH (n:N) WHERE n.x IN $param0" ∧
    ∀ value ∈ [nestedLists 500, .list [.text "a"]],
      let script := amongScript value
      Step.outlineAll script = Step.outlineAll copied ∧
      ((s.after script).compiled 0 .full).1.toOption = none ∧
      (s.after script).compiled 0 .full ≠
        (s.after copied).compiled 0 .full := by
  intro s copied
  have htext : ((s.after copied).compiled 0 .full).1.toOption =
      some "MATCH (n:N) WHERE n.x IN $param0" := by
    decide +kernel
  have hfails : ∀ value ∈ [nestedLists 500, .list [.text "a"]],
      ((s.after (amongScript value)).compiled 0 .full).1.toOption = none := by
    decide +kernel
  refine ⟨htext, fun value hvalue => ⟨?_, hfails value hvalue, fun heq => ?_⟩⟩
  · rcases List.mem_pair.mp hvalue with rfl | rfl <;> rfl
  · have hnone := hfails value hvalue
    rw [heq, htext] at hnone
    cases hnone

end Session

end GraphQuery
