import GraphQuery.Builder.Session
import GraphQuery.Proofs.Scripts.Changes

/-!
# What scripts do to builders

Steps of scripts do nothing to builders but what is listed, whatever they
call, in callbacks of any depth, and also where they fail:
`Step.touches_run` for one step, `Session.touches_after` for a script.  A
builder comes to refer to one made later, unless it takes one in from a
register.
-/

namespace GraphQuery

/-! ### The calls of a script -/

mutual

/-- The calls made in the callbacks of a call, at any depth. -/
def Call.inner : Call → List Call
  | .whereExists body _ _ => body.calls
  | .whereCount body _ _ _ => body.calls
  | .whereGroup body _ _ => body.calls
  | .calling body => body.calls
  | .unioning _ body => body.calls
  | _ => []

/-- The calls made in a callback, at any depth. -/
def Callback.calls : Callback → List Call
  | .mk steps _ => Step.callsOfAll steps

/-- The calls made in a step, at any depth. -/
def Step.calls : Step → List Call
  | .mk _ call _ _ => call :: call.inner

/-- The calls made in steps, at any depth. -/
def Step.callsOfAll : List Step → List Call
  | [] => []
  | step :: rest => step.calls ++ Step.callsOfAll rest

end

/-- Whether a call takes in the builder of a register. -/
def Call.takesRegister : Call → Bool
  | callingRegister _ | unioningRegister _ => true
  | _ => false

/-- The steps of the walk that a call starts from. -/
def Call.walkSteps : Call → List (Pattern.WalkStep Assignment)
  | startFromWalk steps => steps
  | _ => []

/-- A call is allowed where builders may refer to each other as given, and
walks give what they may. -/
structure Call.Allowed (links : BuilderId → BuilderId → Prop)
    (given : Assignment → Prop) (call : Call) : Prop where
  registers : call.takesRegister = true → ∀ b c, links b c
  walks : ∀ step ∈ call.walkSteps, ∀ a ∈ step.properties, given a

namespace Acting

open Guarantee Workspace

/-- The guarantee that only what is listed happens to the builders of a
session. -/
def touching (links : BuilderId → BuilderId → Prop)
    (given : Assignment → Prop) :
    Guarantee Session where
  holds _ := True
  leads s t := s.workspace.Touches links given t.workspace
  refl _ := .refl
  trans := .trans

variable {links : BuilderId → BuilderId → Prop} {given : Assignment → Prop}
    {s : Session}
  {b : BuilderId}

/-- A step in the workspace does in a session what it does there. -/
theorem touching_build {α : Type} {action : Building α}
    {p : α → Workspace → Prop}
    (h : (Workspace.touching links given).At s.workspace action p) :
    (touching links given).At s (build action) fun a t =>
      p a t.workspace := by
  intro hs
  rw [exec_build]
  exact h hs

/-- What touches builders of the workspace as allowed does so in the
session. -/
theorem touches_build {α : Type} {action : Building α}
    (h : (Workspace.touching links given).Kept action) :
    (touching links given).Kept (build action) := fun s =>
      touching_build (h s.workspace)

/-- A step that leaves the builders as they are. -/
theorem touching_set {t : Session}
    (hbuilders : t.workspace.builders = s.workspace.builders) :
    (touching links given).At s (set t : Acting PUnit) fun _ _ => True := by
  apply at_set
  intro _
  exact ⟨trivial, Relation.ReflTransGen.single (.aside hbuilders), trivial⟩

/-- The connections touch no builder. -/
theorem touches_connect {α : Type} (action : Connecting α) :
    (touching links given).Kept (connect action) := by
  apply kept_get_bind
  intro s
  rcases StateT.run (ExceptT.run action) { s.connections with
      log := [] } with ⟨outcome, connections⟩
  refine At.bind (p := fun _ _ => True) ?_ fun _ t _ _ _ =>
    kept_lift outcome t
  exact touching_set rfl

/-- Keeping something in a register touches no builder. -/
theorem touches_keep (register : String) (content : Register) :
    (touching links given).Kept (keep register content) :=
  fun _ => touching_set rfl

/-- Looking up a register touches no builder. -/
theorem touches_lookup (register : String) :
    (touching links given).Kept (lookup register) := by
  apply kept_get_bind
  intro s
  split
  · exact kept_pure _ s
  · exact kept_throw _ s

/-- Attaching connections touches no query. -/
theorem touches_attach (register : String) :
    (touching links given).Kept (attach b register) := by
  apply (touches_lookup register).bind
  intro content
  exact touches_build (Building.touches_around fun _ => rfl)

/-! ### Builders that refer to each other -/

/-- Calling a linked sub-query nests it. -/
theorem touching_callSubQuery {inner : BuilderId} (hlink : links b inner)
    (hinner : inner < s.workspace.builders.size) :
    (touching links given).At s (callSubQuery b inner) fun _ _ => True := by
  refine (touching_build (Building.touching_edit fun _ _ => ?_)).mono
    fun _ _ _ _ _ => trivial
  exact .call hlink hinner

/-- Calling a sub-query in a register nests it, where all builders are
linked. -/
theorem touches_callRegister (hlinks : ∀ b c, links b c) (register : String) :
    (touching links given).Kept (callRegister b register) := by
  apply (touches_lookup register).bind
  intro content
  cases content with
  | connections => exact kept_throw _
  | builder inner =>
    intro s
    apply at_builder_bind
    intro caller _
    apply at_builder_bind
    intro called hcalled
    have hinner : inner < s.workspace.builders.size :=
      (Array.getElem?_eq_some_iff.mp hcalled).1
    dsimp only
    split
    · exact kept_throw _ s
    · split
      · exact kept_throw _ s
      · exact touching_callSubQuery (hlinks b inner) hinner

/-- Uniting with a linked query nests it. -/
theorem touching_unite {second : BuilderId} (hlink : links b second) :
    (touching links given).At s (unite b second) fun _ _ => True := by
  apply at_builder_bind
  intro one _
  apply at_builder_bind
  intro other hother
  have hsecond : second < s.workspace.builders.size :=
    (Array.getElem?_eq_some_iff.mp hother).1
  have hedit : ∀ t : Session, s.workspace.builders.size ≤
      t.workspace.builders.size →
      (touching links given).At t
        (build (Building.edit b fun body =>
          { body with union := some second }))
        fun _ _ => True := by
    intro t hsize
    refine (touching_build (Building.touching_edit fun _ _ => ?_)).mono
      fun _ _ _ _ _ => trivial
    exact .unite hlink (Nat.lt_of_lt_of_le hsecond hsize)
  dsimp only
  split
  · apply at_get_bind
    split
    · exact kept_throw _ s
    · have hmove : (touching links given).Kept
          (build (Building.amend second fun builder =>
            { builder with stack := one.stack })) :=
        touches_build (Building.touches_around fun _ => rfl)
      refine (hmove s).bind ?_
      intro _ t _ hleads _
      exact hedit t (Touches.size_le hleads)
  · exact hedit s (Nat.le_refl _)

/-- Uniting with a query in a register nests it, where all builders are
linked. -/
theorem touches_uniteRegister (hlinks : ∀ b c, links b c)
    (register : String) :
    (touching links given).Kept (uniteRegister b register) := by
  apply (touches_lookup register).bind
  intro content
  cases content with
  | connections => exact kept_throw _
  | builder second => exact fun s => touching_unite (hlinks b second)

/-! ### Queries that are run -/

/-- Sending a query touches no builder. -/
theorem touches_send (kind : QueryKind) (operation : String)
    (change : Content → Content) :
    (touching links given).Kept (send b kind operation change) :=
  kept_sending (fun kind change =>
    touches_build (Building.touches_compile kind change))
    touches_connect kind operation change

/-- Sending an aggregation touches no builder. -/
theorem touches_aggregate (function : String) (arguments : List Expression) :
    (touching links given).Kept (aggregate b function arguments) :=
  kept_aggregating (fun kind change =>
    touches_build (Building.touches_compile kind change))
    touches_connect function arguments

/-- Sending a changed copy touches no builder. -/
theorem touches_sendCopy (kind : QueryKind) (operation : String)
    (change : Content → Content) :
    (touching links given).Kept (sendCopy b kind operation change) :=
  kept_copy.bind fun _ => touches_send _ _ _

/-- Asking for the first record touches no builder. -/
theorem touches_first : (touching links given).Kept (first b) :=
  (touches_sendCopy _ _ _).bind fun _ => kept_lift _

/-- Looking up an entry touches no builder. -/
theorem touches_entry :
    (touching links given).Kept (build (Building.entry b)) :=
  touches_build fun _ => Building.at_builder_bind fun _ _ => at_pure fun _ =>
    trivial

section

variable (hlinks : ∀ b c, b < c → links b c)

include hlinks

/-- A query that is changed and sent is touched as the change does it. -/
theorem touches_changeAndSend (change : Change) (kind : QueryKind)
    (operation : String) :
    (touching links given).Kept (changeAndSend b change kind operation) := by
  apply (touches_build (change.touches_perform hlinks b)).bind
  intro _
  exact (touches_send _ _ _).bind fun _ => kept_pure _

/-- Every way of running a query touches it as its change does. -/
theorem touches_runQuery (r : Run) :
    (touching links given).Kept (runQuery b r) := by
  have hsend : ∀ kind operation,
      (touching links given).Kept
        (do return Reply.result (← send b kind operation)) :=
    fun kind operation => (touches_send _ _ _).bind fun _ => kept_pure _
  have haggregate : ∀ function arguments,
      (touching links given).Kept
        (do return Reply.value (← aggregate b function arguments)) :=
    fun function arguments => (touches_aggregate _ _).bind fun _ =>
      kept_pure _
  cases r with
  | execute => exact hsend _ _
  | get | returnAll | returnRaw | set | setLabels | batchCreate | delete
  | forceDelete | remove =>
    exact touches_changeAndSend hlinks _ _ _
  | create values | merge values =>
    rw [runQuery]
    split
    · exact hsend _ _
    · exact touches_changeAndSend hlinks _ _ _
  | first | only => exact touches_first.bind fun _ => kept_pure _
  | pluck property =>
    apply touches_entry.bind
    intro entry
    exact (touches_sendCopy _ _ _).bind fun _ => kept_pure _
  | count property distinct =>
    exact touches_entry.bind fun entry => haggregate _ _
  | aggregate function property =>
    exact touches_entry.bind fun entry => haggregate _ _
  | percentile function property fraction =>
    have hbind :
        (touching links given).Kept (build (Building.bind b fraction)) :=
      touches_build fun w =>
        (Building.touching_bind fraction).mono fun _ _ _ _ _ => trivial
    apply hbind.bind
    intro parameter
    exact touches_entry.bind fun entry => haggregate _ _

end

end Acting

open Acting Guarantee

variable {links : BuilderId → BuilderId → Prop} {given : Assignment → Prop}

/-- Looking for what a step acts on touches no builder. -/
theorem Step.touches_target (current : Option BuilderId)
    (on : Option String) :
    (touching links given).Kept (Step.target current on) := by
  cases on with
  | some register => exact touches_lookup register
  | none =>
    cases current with
    | some b => exact kept_pure _
    | none => exact touches_lookup _

/-- Making a query touches no other one. -/
theorem Call.touches_making {call : Call} {making : Building BuilderId}
    (hmaking : call.making? = some making)
    (hcall : call.Allowed links given) :
    (Workspace.touching links given).Kept making := by
  have hwalks := hcall.walks
  cases call <;> cases hmaking
  · exact Building.touches_start _
  · exact Building.touches_startFromWalk hwalks

/-- A builder for a callback, then the steps of the callback, then the call
itself.  The builder comes after the one the call is made on, and is still
there after the callback. -/
theorem Acting.touches_callback {b : BuilderId} {make : Building BuilderId}
    {f : BuilderId → Acting Unit} {g : BuilderId → Acting Unit}
    {answer : Reply × Option BuilderId}
    (hmake : ∀ w, (Workspace.touching links given).At w make fun inner w' =>
      b < inner ∧ inner < w'.builders.size)
    (hf : ∀ inner, (touching links given).Kept (f inner))
    (hg : ∀ inner s, b < inner → inner < s.workspace.builders.size →
      (touching links given).At s (g inner) fun _ _ => True) :
    (touching links given).Kept do
      let inner ← build make
      f inner
      g inner
      return answer := by
  intro s
  refine (touching_build (hmake s.workspace)).bind ?_
  intro inner t _ _ hinner
  refine (hf inner t).bind ?_
  intro _ u _ hleads _
  have hthere : inner < u.workspace.builders.size :=
    Nat.lt_of_lt_of_le hinner.2 (Workspace.Touches.size_le hleads)
  exact (hg inner u hinner.1 hthere).bind fun _ v _ _ _ => kept_pure answer v

mutual

/-- **An allowed call touches builders as allowed**, with those in its
callback. -/
theorem Call.touches_perform (hlinks : ∀ b c, b < c → links b c)
    (b : BuilderId) (method : String) (into : Option String) (call : Call)
    (hcall : call.Allowed links given)
    (hinner : ∀ c ∈ call.inner, c.Allowed links given) :
    (touching links given).Kept (call.perform b method into) := by
  match call with
  | .change c =>
    exact (touches_build (c.touches_perform hlinks b)).bind fun _ =>
      kept_pure _
  | .subQuery =>
    have hnew : (Workspace.touching links given).Kept
        (Building.newSubQuery b) :=
      fun w => Building.touching_newSubQuery.mono fun _ _ _ _ _ => trivial
    apply (touches_build hnew).bind
    intro inner
    exact (touches_keep _ _).bind fun _ => kept_pure _
  | .whereExists body negate chain =>
    refine touches_callback (fun w => Building.touching_newSubQuery)
      (fun inner => Callback.touches_run hlinks inner body hinner)
        fun inner s hlt hthere => ?_
    exact touching_build (Building.touching_whereExists (hlinks b inner hlt)
      hthere negate chain)
  | .whereCount body count spelling chain =>
    intro s
    apply at_lift_bind
    intro operator hoperator
    refine touches_callback (fun w => Building.touching_newSubQuery)
      (fun inner => Callback.touches_run hlinks inner body hinner)
        (fun inner s hlt hthere => ?_) s
    exact touching_build
      (Building.touching_whereCount (hlinks b inner hlt) hthere
      (comparison_eq_ok hoperator) count chain)
  | .whereGroup body negate chain =>
    refine touches_callback (fun w => Building.touching_newSubQuery)
      (fun inner => Callback.touches_run hlinks inner body hinner)
        fun inner s hlt hthere => ?_
    exact touches_build (Building.touches_whereGroup (hlinks b inner hlt)
      negate chain) s
  | .calling body =>
    refine touches_callback (fun w => Building.touching_newSubQuery)
      (fun inner => Callback.touches_run hlinks inner body hinner)
        fun inner s hlt hthere => ?_
    exact touching_callSubQuery (hlinks b inner hlt) hthere
  | .callingRegister register =>
    exact (touches_callRegister (hcall.registers rfl) register).bind fun _ =>
      kept_pure _
  | .unioning how body =>
    intro s
    apply at_builder_bind
    intro outer houter
    have hb : b < s.workspace.builders.size :=
      (Array.getElem?_eq_some_iff.mp houter).1
    have hstart : (Workspace.touching links given).At s.workspace
        (Building.startWith outer.stack outer.sequence how) fun second w' =>
          b < second ∧ second < w'.builders.size := by
      refine Building.touching_startWith.mono ?_
      intro second w' _ _ hsecond
      exact ⟨Nat.lt_of_lt_of_le hb hsecond.1, hsecond.2⟩
    refine (touching_build hstart).bind ?_
    intro second t _ _ hsecond
    refine (Callback.touches_run hlinks second body hinner).bind (fun _ =>
      ?_) t
    intro u
    exact (touching_unite (hlinks b second hsecond.1)).bind fun _ v _ _ _ =>
      kept_pure _ v
  | .unioningRegister register =>
    exact (touches_uniteRegister (hcall.registers rfl) register).bind
      fun _ => kept_pure _
  | .unioningNothing => exact kept_throw _
  | .attach register =>
    exact (touches_attach register).bind fun _ => kept_pure _
  | .toText kind | .toClauses kind =>
    exact (touches_build (Building.touches_compile kind id)).bind fun _ =>
      kept_pure _
  | .build kind =>
    apply (touches_build (Building.touches_compile kind id)).bind
    intro clauses
    exact kept_get_bind fun s => kept_pure _ s
  | .run r => exact (touches_runQuery hlinks r).bind fun _ => kept_pure _
  | .start _ | .startFromWalk _ | .connection _ | .unknown =>
    exact kept_throw _

/-- A callback of allowed calls touches builders as allowed. -/
theorem Callback.touches_run (hlinks : ∀ b c, b < c → links b c)
    (b : BuilderId) (body : Callback)
    (hcalls : ∀ c ∈ body.calls, c.Allowed links given) :
    (touching links given).Kept (body.run b) := by
  match body with
  | .mk steps register =>
    rw [Callback.calls] at hcalls
    unfold Callback.run
    cases register with
    | some name =>
      exact (touches_keep _ _).bind fun _ =>
        Step.touches_runAll hlinks b steps hcalls
    | none => exact Step.touches_runAll hlinks b steps hcalls

/-- **What a step does to builders.**  Nothing happens to them but what is
listed. -/
theorem Step.touches_run (hlinks : ∀ b c, b < c → links b c)
    (current : Option BuilderId) (step : Step)
    (hcalls : ∀ c ∈ step.calls, c.Allowed links given) :
    (touching links given).Kept (step.run current) := by
  match step with
  | .mk method call on into =>
    rw [Step.calls] at hcalls
    have hcall : call.Allowed links given := hcalls call List.mem_cons_self
    have hinner : ∀ c ∈ call.inner, c.Allowed links given :=
      fun c hc => hcalls c (List.mem_cons_of_mem call hc)
    unfold Step.run
    split
    · next making hmaking =>
      apply (touches_build (Call.touches_making hmaking hcall)).bind
      intro made
      exact (touches_keep _ _).bind fun _ => kept_pure _
    · apply (Step.touches_target current _).bind
      intro target
      split
      · split
        · exact (touches_connect _).bind fun _ => kept_pure _
        · exact kept_throw _
      · next b =>
        intro s
        apply at_builder_bind
        intro builder _
        split
        · exact kept_throw _ s
        · have hperform :=
            Call.touches_perform hlinks b method into call hcall hinner
          exact hperform.bind (fun _ => kept_pure _) s

/-- Steps of allowed calls touch builders as allowed. -/
theorem Step.touches_runAll (hlinks : ∀ b c, b < c → links b c)
    (b : BuilderId) (steps : List Step)
    (hcalls : ∀ c ∈ Step.callsOfAll steps, c.Allowed links given) :
    (touching links given).Kept (Step.runAll b steps) := by
  match steps with
  | [] => exact kept_pure _
  | step :: rest =>
    rw [Step.callsOfAll, List.forall_mem_append] at hcalls
    apply (Step.touches_run hlinks (some b) step hcalls.1).bind
    intro _
    exact Step.touches_runAll hlinks b rest hcalls.2

end

/-- **What a script does to builders.**  Nothing happens to them but what is
listed, also where steps of the script fail. -/
theorem Session.touches_after (hlinks : ∀ b c, b < c → links b c)
    {s : Session} {script : List Step}
    (hcalls : ∀ c ∈ Step.callsOfAll script, c.Allowed links given) :
    s.workspace.Touches links given (s.after script).workspace := by
  induction script generalizing s with
  | nil => exact .refl
  | cons step rest ih =>
    rw [Step.callsOfAll, List.forall_mem_append] at hcalls
    have hquiet : s.workspace.Touches links given s.quiet.workspace :=
      Relation.ReflTransGen.single (.aside rfl)
    have hstep : s.quiet.workspace.Touches links given
        (s.step step).2.workspace :=
      (Step.touches_run hlinks none step hcalls.1 s.quiet trivial).2.1
    exact (hquiet.trans hstep).trans (ih hcalls.2)

end GraphQuery
