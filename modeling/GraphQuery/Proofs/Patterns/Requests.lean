import GraphQuery.Pattern.Walk
import GraphQuery.Proofs.Patterns.Traces

/-!
# What walks ask of their stores

A step of a walk moves between contexts and makes calls of the store of the
walk: one for a node, and for an ascent from a relationship one for each
node collected.  The registry a step leaves behind is that of its calls,
made one after the other until one fails: `Asks.move`.
-/

namespace GraphQuery.Pattern

open GraphQuery.Computation

/-- Make calls one after the other, until one fails. -/
def Registry.afterCalls (r : Registry) : List (StoreCall Assignment) →
    Except Fault Unit × Registry
  | [] => (.ok (), r)
  | call :: rest =>
    match exec call.perform r with
    | (.ok _, s) => afterCalls s rest
    | (.error fault, s) => (.error fault, s)

/-- The names that calls give, made one after the other until one fails. -/
def Registry.namings (r : Registry) : List (StoreCall Assignment) →
    List (Naming Registry)
  | [] => []
  | call :: rest =>
    call.namings r ++ match exec call.perform r with
      | (.ok _, s) => namings s rest
      | (.error _, _) => []

/-- Calls that succeed are made one after the other. -/
theorem Registry.afterCalls_cons_eq_ok {r t : Registry}
    {call : StoreCall Assignment} {rest : List (StoreCall Assignment)}
    (h : r.afterCalls (call :: rest) = (.ok (), t)) :
    ∃ answer s, exec call.perform r = (.ok answer, s) ∧
    s.afterCalls rest = (.ok (), t) := by
  rw [afterCalls] at h
  rcases hexec : exec call.perform r with ⟨fault | answer, s⟩
  · rw [hexec] at h
    cases h
  · rw [hexec] at h
    exact ⟨answer, s, rfl, h⟩

/-- A name is given by one of the calls. -/
theorem Registry.exists_of_mem_namings {r : Registry}
    {calls : List (StoreCall Assignment)} {naming : Naming Registry}
    (h : naming ∈ r.namings calls) :
    ∃ call s, naming ∈ StoreCall.namings s call := by
  induction calls generalizing r with
  | nil => cases h
  | cons call rest ih =>
    rw [namings] at h
    rcases List.mem_append.mp h with hcall | hrest
    · exact ⟨call, r, hcall⟩
    · rcases hexec : exec call.perform r with ⟨fault | answer, s⟩
      · rw [hexec] at hrest
        cases hrest
      · rw [hexec] at hrest
        exact ih hrest

/-- The namings of calls are those of each of them, in order. -/
theorem Traced.afterCalls {r s : Registry} {past : List (Naming Registry)}
    (h : Traced r past s) (calls : List (StoreCall Assignment)) :
    Traced r (past ++ s.namings calls) (s.afterCalls calls).2 := by
  induction calls generalizing past s with
  | nil =>
    rw [Registry.namings, List.append_nil]
    exact h
  | cons call rest ih =>
    have hcall := h.perform call
    rw [Registry.namings, Registry.afterCalls]
    rcases hexec : exec call.perform s with ⟨fault | answer, t⟩
    · rw [hexec] at hcall
      rw [List.append_nil]
      exact hcall
    · rw [hexec] at hcall
      have hrest := ih hcall
      rw [List.append_assoc] at hrest
      exact hrest

/-- The name of the element a call is answered with. -/
def StoreAnswer.name : StoreAnswer → String
  | element e => e.name?.getD ""
  | _ => ""

/-- The calls for the further far ends of a relationship, numbered after the
first one. -/
def branchCalls (left base : String) (types : LabelArgument)
    (direction : Option Direction) (optional : Bool) : Nat → List String →
    List (StoreCall Assignment)
  | _, [] => []
  | i, right :: rest =>
    .matchRelationship (some left)
    (some right) types (some (base ++ toString i)) direction optional ::
      branchCalls left base types direction optional (i + 1) rest

/-- The calls of an ascent from a relationship with a node at its left end. -/
def Walk.ascentCalls (w : Walk) (left : String) (types : LabelArgument)
    (name : Option String) (direction : Option Direction) (optional : Bool) :
    List String → List (StoreCall Assignment)
  | [] => [.matchRelationship (some left) none types name direction optional]
  | first :: rest =>
    let call := .matchRelationship (some left) (some first) types name
      direction optional
    call :: match (exec call.perform w.registry).1 with
      | .ok answer =>
        branchCalls left answer.name types direction optional 1 rest
      | .error _ => []

/-- The calls a step makes from a context. -/
def WalkStep.calls (w : Walk) (c : ContextId) (step : WalkStep Assignment) :
    List (StoreCall Assignment) :=
  match step, w.contexts[c]? with
  | .store call, _ => [call]
  | .addChildNode given name optional, some here =>
    [.matchNode given name (here.optional || optional)]
  | .addRelationship _ _ _ optional, some here =>
    match here.place with
    | .node _ _ _ => []
    | .relationship _ _ _ _ =>
      [.matchNode .none none (here.optional || optional)]
  | .ascend, some here =>
    match here.place with
    | .node _ _ _ => []
    | .relationship origin types name direction =>
      match w.contexts[origin]? with
      | none => []
      | some source =>
        w.ascentCalls (source.name?.getD "") types name direction
          here.optional here.children
  | _, _ => []

/-- The calls a step makes that starts a walk. -/
def WalkStep.openingCalls : WalkStep Assignment → List (StoreCall Assignment)
  | .start (.one token) name optional =>
    if hasDirectionMarker token then [.matchNode .none none optional]
    else [.matchNode (.one token) name optional]
  | .start given name optional => [.matchNode given name optional]
  | .startAtNode given name optional => [.matchNode given name optional]
  | .startOnRelationship _ _ _ optional => [.matchNode .none none optional]
  | _ => []

namespace Walking

/-- A step leaves the registry behind that certain calls lead to, and
succeeds only if they do. -/
structure Asks {α : Type} (w : Walk) (x : Walking α)
    (calls : List (StoreCall Assignment)) : Prop where
  registry : (exec x w).2.registry = (w.registry.afterCalls calls).2
  succeeds : ∀ a, (exec x w).1 = .ok a →
  (w.registry.afterCalls calls).1 = .ok ()

/-- Registering changes the registry of a walk, and nothing else. -/
theorem exec_register {α : Type} (registration : Registration α) (w : Walk) :
    exec (register registration) w =
      ((exec registration w.registry).1,
        { w with registry := (exec registration w.registry).2 }) := by
  rw [register, exec_bind, exec_get]
  dsimp only
  rfl

/-- Matching a node is one call of the store. -/
theorem exec_matchNode (given : LabelArgument) (name : Option String)
    (optional : Bool) (w : Walk) :
    exec (matchNode given name optional) w =
      let reply :=
        exec (StoreCall.matchNode given name optional).perform w.registry
      (reply.1.map StoreAnswer.name, { w with registry := reply.2 }) := by
  rw [matchNode, exec_bind, exec_register, StoreCall.perform, exec_bind]
  rcases exec (Registration.node given name (.matching optional))
      w.registry with ⟨_ | e, r⟩ <;> rfl

/-- Matching a relationship is one call of the store. -/
theorem exec_matchRelationship (left : String) (right : Option String)
    (types : LabelArgument) (name : Option String)
    (direction : Option Direction) (optional : Bool) (w : Walk) :
    exec (matchRelationship left right types name direction optional) w =
      let call := StoreCall.matchRelationship (some left) right types name
        direction optional
      let reply := exec call.perform w.registry
      (reply.1.map StoreAnswer.name, { w with registry := reply.2 }) := by
  dsimp only
  rw [matchRelationship, exec_bind, exec_register, StoreCall.perform,
    exec_bind]
  rcases exec (Registration.relationship (some left) right types name
      direction (.matching optional))
    w.registry with ⟨_ | e, r⟩ <;> rfl

variable {α β : Type} {w : Walk}

/-- A step that makes no calls. -/
theorem asks_nothing {x : Walking α}
    (h : (exec x w).2.registry = w.registry) : Asks w x [] where
  registry := h
  succeeds _ _ := rfl

/-- A step that makes one call. -/
theorem asks_one {x : Walking α} {call : StoreCall Assignment}
    {f : StoreAnswer → α}
    (h : exec x w = ((exec call.perform w.registry).1.map f,
      { w with registry := (exec call.perform w.registry).2 })) :
    Asks w x [call] := by
  constructor
  · rw [h, Registry.afterCalls]
    rcases exec call.perform w.registry with ⟨_ | answer, r⟩ <;> rfl
  · intro a ha
    rw [h] at ha
    rw [Registry.afterCalls]
    rcases hexec : exec call.perform w.registry with ⟨fault | answer, r⟩
    · rw [hexec] at ha
      cases ha
    · rfl

/-- Steps behind the last call. -/
theorem Asks.still {x : Walking α} {f : α → Walking β}
    {calls : List (StoreCall Assignment)} (h : Asks w x calls)
    (hf : ∀ a v, (exec (f a) v).2.registry = v.registry) :
    Asks w (x >>= f) calls := by
  constructor
  · rw [← h.registry, exec_bind]
    rcases exec x w with ⟨_ | a, v⟩
    · rfl
    · exact hf a v
  · intro b hb
    rw [exec_bind] at hb
    rcases hexec : exec x w with ⟨_ | a, v⟩
    · rw [hexec] at hb
      cases hb
    · exact h.succeeds a (by rw [hexec])

/-- A call, and what is done with its answer. -/
theorem asks_cons {x : Walking α} {g : α → Walking β}
    {call : StoreCall Assignment} {f : StoreAnswer → α}
    {calls : List (StoreCall Assignment)}
    (h : exec x w = ((exec call.perform w.registry).1.map f,
      { w with registry := (exec call.perform w.registry).2 }))
    (hg : ∀ answer r, exec call.perform w.registry = (.ok answer, r) →
      Asks { w with registry := r } (g (f answer)) calls) :
    Asks w (x >>= g) (call :: calls) := by
  rcases hexec : exec call.perform w.registry with ⟨fault | answer, r⟩
  · rw [hexec] at h
    constructor
    · rw [exec_bind, h, Registry.afterCalls, hexec]
      rfl
    · intro b hb
      rw [exec_bind, h] at hb
      cases hb
  · rw [hexec] at h
    have hrest := hg answer r hexec
    constructor
    · rw [exec_bind, h, Registry.afterCalls, hexec]
      exact hrest.registry
    · intro b hb
      rw [exec_bind, h] at hb
      rw [Registry.afterCalls, hexec]
      exact hrest.succeeds b hb

/-- A context is looked up, and changes nothing. -/
theorem exec_context (c : ContextId) (w : Walk) :
    exec (context c) w = match w.contexts[c]? with
      | some here => (.ok here, w)
      | none => (.error (.noSuchContext "context"), w) := by
  rw [context, exec_bind, exec_get]
  dsimp only
  cases w.contexts[c]? <;> rfl

/-- A context that is looked up is there. -/
theorem exec_context_eq_ok {c : ContextId} {w v : Walk} {here : Context}
    (h : exec (context c) w = (.ok here, v)) :
    w.contexts[c]? = some here ∧ v = w := by
  rw [exec_context] at h
  cases hhere : w.contexts[c]? with
  | none =>
    rw [hhere] at h
    cases h
  | some found =>
    rw [hhere] at h
    cases h
    exact ⟨rfl, rfl⟩

section

open Guarantee

variable {G : Guarantee Walk}

/-- A step that looks up its context first. -/
theorem at_context {c : ContextId} {f : Context → Walking α}
    {p : α → Walk → Prop}
    (h : ∀ here, w.contexts[c]? = some here → G.At w (f here) p) :
    G.At w (context c >>= f) p := by
  cases hhere : w.contexts[c]? with
  | none =>
    have hexec : exec (context c) w = (.error (.noSuchContext "context"),
        w) := by
      rw [exec_context, hhere]
    exact at_bind_of_exec hexec fun _ hnone => nomatch hnone
  | some here =>
    have hexec : exec (context c) w = (.ok here, w) := by
      rw [exec_context, hhere]
    apply at_bind_of_exec hexec
    intro found hfound
    cases hfound
    exact h here hhere

/-- Looking up a context keeps every guarantee. -/
theorem kept_context (c : ContextId) : G.Kept (context c) := by
  intro w hw
  rw [exec_context]
  cases w.contexts[c]? <;> exact ⟨hw, G.refl w, fun _ _ => trivial⟩

/-- Leaving a node does nothing to a walk. -/
theorem kept_leave (c : ContextId) : G.Kept (leave c) := by
  intro w
  apply at_context
  intro here hhere
  cases here.parent with
  | some parent => exact kept_pure parent w
  | none => exact kept_throw _ w

/-- A guarantee that calls of the store do not break, as long as they give
no properties. -/
def Withstands (G : Guarantee Walk) : Prop :=
  ∀ call : StoreCall Assignment, call.properties = [] →
  G.Kept (register call.perform)

namespace Withstands

/-- What declarations keep, matching a node keeps. -/
theorem matchNode (h : Withstands G) (given : LabelArgument)
    (name : Option String) (optional : Bool) :
    G.Kept (matchNode given name optional) := by
  intro w hw
  have hcall := h (.matchNode given name optional) rfl w hw
  rw [exec_register] at hcall
  rw [exec_matchNode]
  exact ⟨hcall.1, hcall.2.1, fun _ _ => trivial⟩

/-- What declarations keep, matching a relationship keeps. -/
theorem matchRelationship (h : Withstands G) (left : String)
    (right : Option String) (types : LabelArgument) (name : Option String)
    (direction : Option Direction) (optional : Bool) :
    G.Kept (matchRelationship left right types name direction optional) := by
  intro w hw
  have hcall :=
    h (.matchRelationship (some left) right types name direction optional)
      rfl w hw
  rw [exec_register] at hcall
  rw [exec_matchRelationship]
  exact ⟨hcall.1, hcall.2.1, fun _ _ => trivial⟩

/-- What declarations keep, matching a fan keeps, edge by edge. -/
theorem matchFan (h : Withstands G) (left base : String)
    (types : LabelArgument) (direction : Option Direction) (optional : Bool)
    (i : Nat) (ends : List String) :
    G.Kept (matchFan left base types direction optional i ends) := by
  induction ends generalizing i with
  | nil => exact kept_pure _
  | cons right rest ih =>
    exact (h.matchRelationship _ _ _ _ _ _).bind fun _ => ih (i + 1)

/-- **An ascent keeps whatever calls of the store keep.** -/
theorem ascend (h : Withstands G) (c : ContextId) : G.Kept (ascend c) := by
  intro w
  apply at_context
  intro here hhere
  cases here.place with
  | node parent name skipped => exact kept_leave c w
  | relationship origin types name direction =>
    apply at_context
    intro source hsource
    cases here.children with
    | nil =>
      refine (h.matchRelationship _ _ _ _ _ _).bind (fun _ => ?_) w
      split
      · exact kept_leave origin
      · exact kept_pure origin
    | cons first rest =>
      refine (h.matchRelationship _ _ _ _ _ _).bind (fun base => ?_) w
      refine (h.matchFan _ base _ _ _ _ _).bind fun _ => ?_
      split
      · exact kept_leave origin
      · exact kept_pure origin

end Withstands

end

/-- Leaving a node registers nothing. -/
theorem registry_leave (c : ContextId) (w : Walk) :
    (exec (leave c) w).2.registry = w.registry := by
  rw [leave, exec_bind, exec_context]
  cases w.contexts[c]? with
  | none => rfl
  | some here =>
    dsimp only
    cases here.parent <;> rfl

/-- A step that looks up its context first. -/
theorem asks_context {c : ContextId} {f : Context → Walking α}
    {calls : List (StoreCall Assignment)}
    (hnone : w.contexts[c]? = none → calls = [])
    (h : ∀ here, w.contexts[c]? = some here → Asks w (f here) calls) :
    Asks w (context c >>= f) calls := by
  cases hhere : w.contexts[c]? with
  | none =>
    rw [hnone hhere]
    apply asks_nothing
    rw [exec_bind, exec_context, hhere]
  | some here =>
    have hexec : exec (context c >>= f) w = exec (f here) w := by
      rw [exec_bind, exec_context, hhere]
    obtain ⟨hregistry, hsucceeds⟩ := h here hhere
    rw [← hexec] at hregistry hsucceeds
    exact ⟨hregistry, hsucceeds⟩

/-- A fan asks for its edges, one after the other. -/
theorem asks_matchFan (left base : String) (types : LabelArgument)
    (direction : Option Direction) (optional : Bool) (i : Nat)
    (ends : List String) (w : Walk) :
    Asks w (matchFan left base types direction optional i ends)
      (branchCalls left base types direction optional i ends) := by
  induction ends generalizing i w with
  | nil => exact asks_nothing rfl
  | cons right rest ih =>
    exact asks_cons (exec_matchRelationship _ _ _ _ _ _ w) fun _ _ _ => ih _ _

/-- Adding a node asks for what it says. -/
theorem asks_addChildNode (c : ContextId) (given : LabelArgument)
    (name : Option String) (optional : Bool) :
    Asks w (addChildNode c given name optional)
      (WalkStep.calls w c (.addChildNode given name optional)) := by
  apply asks_context
  · intro hnone
    unfold WalkStep.calls
    rw [hnone]
  · intro here hhere
    unfold WalkStep.calls
    rw [hhere]
    exact (asks_one (exec_matchNode _ _ _ w)).still fun _ _ => rfl

/-- Adding a relationship asks for what it says. -/
theorem asks_addRelationship (c : ContextId) (types : LabelArgument)
    (name : Option String) (direction : Option Direction) (optional : Bool) :
    Asks w (addRelationship c types name direction optional)
      (WalkStep.calls w c
        (.addRelationship types name direction optional)) := by
  apply asks_context
  · intro hnone
    unfold WalkStep.calls
    rw [hnone]
  · intro here hhere
    unfold WalkStep.calls
    rw [hhere]
    dsimp only
    cases here.place with
    | node parent own skipped => exact asks_nothing rfl
    | relationship origin own given arrow =>
      exact (asks_one (exec_matchNode _ _ _ w)).still fun _ _ => rfl

/-- An ascent asks for the relationships to the nodes collected. -/
theorem asks_ascend (c : ContextId) :
    Asks w (ascend c) (WalkStep.calls w c .ascend) := by
  apply asks_context
  · intro hnone
    unfold WalkStep.calls
    rw [hnone]
  · intro here hhere
    unfold WalkStep.calls
    rw [hhere]
    dsimp only
    cases here.place with
    | node parent own skipped => exact asks_nothing (registry_leave c w)
    | relationship origin types name direction =>
      apply asks_context
      · intro hnone
        dsimp only
        rw [hnone]
      · intro source hsource
        dsimp only
        rw [hsource]
        dsimp only
        cases here.children with
        | nil =>
          apply (asks_one (exec_matchRelationship _ _ _ _ _ _ w)).still
          intro _ v
          split
          · exact registry_leave origin v
          · rfl
        | cons first rest =>
          apply asks_cons (exec_matchRelationship _ _ _ _ _ _ w)
          intro answer r hexec
          rw [hexec]
          apply (asks_matchFan _ _ _ _ _ _ _ _).still
          intro _ v
          split
          · exact registry_leave origin v
          · rfl

/-- **A step makes its calls, in order, and does nothing else to the
registry of its walk.** -/
theorem asks_move (c : ContextId) (step : WalkStep Assignment) :
    Asks w (step.move c) (step.calls w c) := by
  cases step with
  | addChildNode given name optional =>
    exact asks_addChildNode c given name optional
  | addRelationship given name direction optional =>
    exact asks_addRelationship c given name direction optional
  | ascend => exact asks_ascend c
  | store call =>
    have hregister : exec (register call.perform) w =
        ((exec call.perform w.registry).1.map id,
        { w with registry := (exec call.perform w.registry).2 }) := by
      rw [exec_register]
      cases (exec call.perform w.registry).1 <;> rfl
    exact (asks_one hregister).still fun _ _ => rfl
  | start | startAtNode | startOnRelationship | unknown =>
    unfold WalkStep.calls
    exact asks_nothing rfl

/-- A new context is the last one. -/
theorem exec_enter (context : Context) (w : Walk) :
    exec (enter context) w =
      (.ok w.contexts.size,
        { w with contexts := w.contexts.push context }) := rfl

/-- A relationship opened at a node is not registered yet. -/
theorem asks_startOnRelationship (types : LabelArgument)
    (name : Option String) (direction : Option Direction) (optional : Bool) :
    Asks w (startOnRelationship types name direction optional)
    [.matchNode .none none optional] := by
  apply (asks_one (exec_matchNode _ _ _ w)).still
  intro root v
  rw [exec_bind, exec_enter]
  dsimp only
  rw [addRelationship, exec_bind, exec_context, Array.getElem?_push_size]
  rfl

/-- **A step that starts a walk makes its calls.** -/
theorem asks_opening {step : WalkStep Assignment}
    {starting : Walking ContextId} (h : step.starting? = some starting) :
    Asks w starting step.openingCalls := by
  have hnode : ∀ given name optional,
      Asks w (startAtNode given name optional)
        [.matchNode given name optional] :=
    fun given name optional =>
      (asks_one (exec_matchNode _ _ _ w)).still fun _ _ => rfl
  cases step <;> cases h
  · next given name optional =>
    cases given with
    | none | many => exact hnode _ name optional
    | one token =>
      rw [WalkStep.openingCalls, start]
      by_cases hmarked : hasDirectionMarker token = true
      · rw [if_pos hmarked, if_pos hmarked]
        exact asks_startOnRelationship _ _ _ _
      · rw [if_neg hmarked, if_neg hmarked]
        exact hnode _ name optional
  · exact hnode _ _ _
  · exact asks_startOnRelationship _ _ _ _

end Walking

end GraphQuery.Pattern
