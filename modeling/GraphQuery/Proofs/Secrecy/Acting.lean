import GraphQuery.Proofs.Execution
import GraphQuery.Proofs.Secrecy.Calls
import GraphQuery.Proofs.Secrecy.Connecting

/-!
# Sessions do not look at values

Two sessions are alike if they are the same but for values: in their
workspaces, in what the drivers have seen, and nowhere else.  What is done
in a session keeps sessions alike, from a step in the workspace
(`Acting.alike_build`) and one on the connections (`Acting.alike_connect`)
to a query that is run (`Acting.alike_runQuery`).
-/

namespace GraphQuery

/-- Two sessions are the same but for values. -/
structure Session.Like (s t : Session) : Prop where
  workspace : s.workspace.Like t.workspace
  registers : s.registers = t.registers
  connections : s.connections.Like t.connections

/-- A reply without the values that are returned beside a text. -/
def Reply.blank : Reply → Reply
  | built written parameters => .built written (blankParameters parameters)
  | reply => reply

/-- Without their values the entries of a stack are its names. -/
theorem ParameterStack.blankParameters_entries (s : ParameterStack) :
    blankParameters s.entries = s.names.map fun name => (name, .null) := by
  rw [blankParameters, entries, names, List.map_map, List.map_map]
  rfl

/-- Builders of workspaces that are alike bind the same names, whatever they
bind to them. -/
theorem Workspace.Like.parameters {w w' : Workspace} (h : w.Like w')
    (b : BuilderId) :
    blankParameters (w.stackOf b).entries =
      blankParameters (w'.stackOf b).entries := by
  rw [ParameterStack.blankParameters_entries, h.names,
    ParameterStack.blankParameters_entries]

namespace Acting

open Likeness

/-- Sessions are compared without values, and so are faults.  A fault of
copying is an excuse. -/
def likeness : Likeness Session where
  states := Session.Like
  faults fault fault' := fault.blank = fault'.blank
  excused fault := fault.isOfCopying = true

/-- Replies are compared without values. -/
abbrev SameReply (reply reply' : Reply) : Prop := reply.blank = reply'.blank

variable {b : BuilderId}

/-- An outcome that is there already is alike. -/
theorem alike_lift_eq {α : Type} (r : Except Fault α) :
    likeness.Alike Eq (liftM r : Acting α) (liftM r) :=
  alike_lift (Outcomes.of_eq fun _ => rfl)

/-- Steps in the workspace that cannot be told apart there cannot be told
apart in a session. -/
theorem alike_build {α β : Type} {R : α → β → Prop} {x : Building α}
    {y : Building β} (h : Building.likeness.Alike R x y) :
    likeness.Alike R (build x) (build y) := by
  intro s t hst
  rw [exec_build, exec_build]
  rcases h s.workspace t.workspace hst.workspace with
    hexcused | ⟨hworkspace, hout⟩
  · exact .inl hexcused
  · exact .inr ⟨⟨hworkspace, hst.registers, hst.connections⟩,
      hout.of_faults fun _ _ => id⟩

/-- Steps on connections that cannot be told apart there cannot be told
apart in a session. -/
theorem alike_connect {α β : Type} {R : α → β → Prop} {x : Connecting α}
    {y : Connecting β} (h : Connecting.likeness.Alike R x y) :
    likeness.Alike R (connect x) (connect y) := by
  intro s t hst
  have hquiet : Connections.Like { s.connections with log := [] }
      { t.connections with log := [] } :=
    { hst.connections with log := rfl }
  obtain ⟨hconnections, hout⟩ := h.sure Connecting.strict hquiet
  rw [exec_connect, exec_connect]
  refine .inr ⟨⟨{ hst.workspace with log := ?_ }, hst.registers,
    { hconnections with log := rfl }⟩,
    hout.of_faults fun _ _ => congrArg Fault.blank⟩
  rw [hst.workspace.log, hconnections.log]

/-- Something is kept in a register alike. -/
theorem alike_keep (register : String) (content : Register) :
    likeness.Alike Eq (keep register content) (keep register content) := by
  apply alike_modify
  intro s t hst
  exact { hst with registers := by rw [hst.registers] }

/-- A register is looked up alike. -/
theorem alike_lookup (register : String) :
    likeness.Alike Eq (lookup register) (lookup register) := by
  apply alike_get_bind
  intro s t hst
  rw [hst.registers]
  split
  · exact alike_pure rfl
  · exact alike_throw rfl

/-- Connections are attached alike. -/
theorem alike_attach (register : String) :
    likeness.Alike Eq (attach b register) (attach b register) := by
  refine (alike_lookup register).bind_eq fun content => alike_build ?_
  exact Building.alike_amend fun x y hxy => { hxy with runner := rfl }

/-- A sub-query is called alike. -/
theorem alike_callSubQuery (inner : BuilderId) :
    likeness.Alike Eq (callSubQuery b inner) (callSubQuery b inner) := by
  apply alike_build
  apply Building.alike_edit
  intro s t hst
  exact { hst with subQueries := by rw [hst.subQueries] }

/-- A builder is looked up alike. -/
theorem alike_builder (b : BuilderId) :
    likeness.Alike Builder.Like (build (Building.builder b))
    (build (Building.builder b)) :=
  alike_build (Building.alike_builder b)

/-- The entry of a builder is looked up alike. -/
theorem alike_entry (b : BuilderId) :
    likeness.Alike Eq (build (Building.entry b)) (build (Building.entry b)) :=
  alike_build (Building.alike_entry b)

/-- A sub-query in a register is called alike. -/
theorem alike_callRegister (register : String) :
    likeness.Alike Eq (callRegister b register)
    (callRegister b register) := by
  refine (alike_lookup register).bind_eq fun content => ?_
  cases content with
  | connections => exact alike_throw rfl
  | builder inner =>
    refine (alike_builder b).bind fun caller caller' hcaller => ?_
    refine (alike_builder inner).bind fun called called' hcalled => ?_
    dsimp only
    rw [hcalled.whole, hcalled.stack, hcaller.stack]
    split
    · exact alike_throw rfl
    · split
      · exact alike_throw rfl
      · exact alike_callSubQuery inner

/-- Uniting looks at how many parameters are bound and not at what they are
bound to. -/
theorem alike_unite (second : BuilderId) :
    likeness.Alike Eq (unite b second) (unite b second) := by
  have hedit : likeness.Alike Eq
      (build (Building.edit b fun body => { body with union := some second }))
      (build (Building.edit b fun body =>
        { body with union := some second })) :=
    alike_build (Building.alike_edit fun s t hst => { hst with union := rfl })
  refine (alike_builder b).bind fun one one' hone => ?_
  refine (alike_builder second).bind fun other other' hother => ?_
  dsimp only
  rw [hone.stack, hother.stack]
  split
  · apply alike_get_bind
    intro s t hst
    have hsize : (s.workspace.stack other'.stack).size =
        (t.workspace.stack other'.stack).size := by
      rw [← ParameterStack.size_blank, hst.workspace.stack,
        ParameterStack.size_blank]
    rw [hsize]
    split
    · exact alike_throw rfl
    · have hamend : Building.likeness.Alike Eq
          (Building.amend second fun builder =>
            { builder with stack := one'.stack })
          (Building.amend second fun builder =>
            { builder with stack := one'.stack }) :=
        Building.alike_amend fun x y hxy => { hxy with stack := rfl }
      exact (alike_build hamend).bind_eq fun _ => hedit
  · exact hedit

/-- A query is united alike with one in a register. -/
theorem alike_uniteRegister (register : String) :
    likeness.Alike Eq (uniteRegister b register)
    (uniteRegister b register) := by
  refine (alike_lookup register).bind_eq fun content => ?_
  cases content with
  | connections => exact alike_throw rfl
  | builder second => exact alike_unite second

/-! ### Queries that are run -/

/-- A query is sent with the values bound in it, and what comes back does
not depend on them. -/
theorem alike_send (kind : QueryKind) (operation : String)
    {change change' : Content → Content}
    (h : ∀ c d, c.Like d → (change c).Like (change' d)) :
    likeness.Alike Eq (send b kind operation change)
    (send b kind operation change') := by
  refine (alike_builder b).bind fun x y hxy => ?_
  dsimp only
  rw [hxy.runner, hxy.connection]
  split
  · exact alike_throw rfl
  · refine (alike_build (Building.alike_compile kind h)).bind_eq
      fun clauses => ?_
    apply alike_get_bind
    intro s t hst
    have hparameters := hst.workspace.parameters b
    split
    · exact alike_connect (Connecting.alike_runQuery _ hparameters _)
    · exact alike_throw rfl

/-- A query is sent alike as it is. -/
theorem alike_send_id (kind : QueryKind) (operation : String) :
    likeness.Alike Eq (send b kind operation) (send b kind operation) :=
  alike_send kind operation fun _ _ h => h

/-- A changed copy of a query is sent as the query itself would be. -/
theorem alike_sendCopy (kind : QueryKind) (operation : String)
    {change change' : Content → Content}
    (h : ∀ c d, c.Like d → (change c).Like (change' d)) :
    likeness.Alike Eq (sendCopy b kind operation change)
      (sendCopy b kind operation change') :=
  (alike_build (Building.alike_copy b)).bind_eq fun _ =>
    alike_send kind operation h

/-- An aggregation is sent alike, whatever values its arguments bind. -/
theorem alike_aggregate (function : String)
    {arguments arguments' : List Expression}
    (h : arguments.map Expression.blank = arguments'.map Expression.blank) :
    likeness.Alike Eq (aggregate b function arguments)
    (aggregate b function arguments') := by
  have hreturns : ∀ c d : Content, c.Like d →
      Content.Like
        { c with returns :=
          [.aliased (.call function arguments) aggregateColumn] }
        { d with returns :=
          [.aliased (.call function arguments') aggregateColumn] } := by
    intro c d hcd
    refine { hcd with returns := ?_ }
    simp only [List.map_cons, List.map_nil, Expression.blank,
      Expression.blankAll_eq_map, h]
  refine (alike_sendCopy _ _ hreturns).bind_eq fun result => ?_
  refine (alike_lift_eq _).bind_eq fun record => ?_
  split
  · exact alike_pure rfl
  · exact alike_throw rfl

/-- A query is sent alike for its first record. -/
theorem alike_first : likeness.Alike Eq (first b) (first b) := by
  have hlimit : ∀ c d : Content, c.Like d →
      Content.Like { c with limit := some 1 } { d with limit := some 1 } :=
    fun c d hcd => { hcd with limit := rfl }
  exact (alike_sendCopy _ _ hlimit).bind_eq fun _ => alike_lift_eq _

/-- A query that is changed before is sent alike, whatever values the change
binds. -/
theorem alike_changeAndSend (change : Change) (kind : QueryKind)
    (operation : String) :
    likeness.Alike Eq (changeAndSend b change kind operation)
      (changeAndSend b change.outline kind operation) := by
  refine (alike_build (change.alike_perform b)).bind_eq fun _ => ?_
  exact (alike_send_id _ _).bind_eq fun _ => alike_pure rfl

/-- **A call that runs a query cannot be told apart from its outline.** -/
theorem alike_runQuery (b : BuilderId) (r : Run) :
    likeness.Alike Eq (runQuery b r) (runQuery b r.outline) := by
  have hsend : ∀ kind operation, likeness.Alike Eq
      (do return Reply.result (← send b kind operation))
      (do return Reply.result (← send b kind operation)) :=
    fun kind operation =>
      (alike_send_id kind operation).bind_eq fun _ => alike_pure rfl
  have haggregate : ∀ function (arguments arguments' : List Expression),
      arguments.map Expression.blank = arguments'.map Expression.blank →
      likeness.Alike Eq
        (do return Reply.value (← aggregate b function arguments))
        (do return Reply.value (← aggregate b function arguments')) :=
    fun function _ _ h =>
      (alike_aggregate function h).bind_eq fun _ => alike_pure rfl
  cases r with
  | execute => exact hsend _ _
  | get | returnAll | returnRaw | set | setLabels | batchCreate | delete
  | forceDelete | remove =>
    exact alike_changeAndSend _ _ _
  | create values | merge values =>
    rw [Run.outline, runQuery, runQuery, Building.isEmpty_blankValues]
    split
    · exact hsend _ _
    · exact alike_changeAndSend _ _ _
  | first | only => exact alike_first.bind_eq fun _ => alike_pure rfl
  | pluck property =>
    refine (alike_entry b).bind_eq fun entry => ?_
    have hreturns : ∀ (c d : Content) (returns : List Expression), c.Like d →
        Content.Like { c with returns } { d with returns } :=
      fun c d returns hcd => { hcd with returns := rfl }
    refine (alike_sendCopy _ _ fun c d hcd => ?_).bind_eq fun _ =>
      alike_pure rfl
    exact hreturns c d _ hcd
  | count property distinct =>
    exact (alike_entry b).bind_eq fun entry => haggregate _ _ _ rfl
  | aggregate function property =>
    exact (alike_entry b).bind_eq fun entry => haggregate _ _ _ rfl
  | percentile function property fraction =>
    have hbind := Building.alike_bind (b := b) fraction.blank_blank.symm
    refine (alike_build hbind).bind fun e e' he => ?_
    refine (alike_entry b).bind_eq fun entry => haggregate _ _ _ ?_
    simp only [List.map_cons, he]

end Acting

end GraphQuery
