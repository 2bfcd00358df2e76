import GraphQuery.Proofs.Patterns.Ends
import GraphQuery.Proofs.Patterns.Requests

/-!
# The contexts of a walk

Whatever a walk does, its contexts stay fit: the nodes they are at and those
collected below them have proper names, and a relationship is opened from a
node.  A step may be taken from any context reached before, and a context at
a node stays at it.
-/

namespace GraphQuery.Pattern

open GraphQuery.Computation

/-- The name of the node a context is at. -/
def Context.nodeName? (here : Context) : Option String :=
  match here.place with
  | .node _ name _ => some name
  | .relationship _ _ _ _ => none

/-- A context at a node has the name of the node. -/
theorem Context.name?_of_nodeName? {here : Context} {name : String}
    (h : here.nodeName? = some name) : here.name? = some name := by
  obtain ⟨place, optional, children⟩ := here
  cases place with
  | node parent own skipped => exact h
  | relationship => cases h

/-! ## Contexts found again -/

/-- A context as it is found again later: at the same place, with more nodes
collected below it. -/
structure Context.Extends (here later : Context) : Prop where
  place : later.place = here.place
  optional : later.optional = here.optional
  children : here.children <+: later.children

/-- A context extends itself. -/
theorem Context.Extends.refl (here : Context) : here.Extends here :=
  ⟨rfl, rfl, List.prefix_refl _⟩

/-- Contexts are extended step by step. -/
theorem Context.Extends.trans {a b c : Context} (hab : a.Extends b)
    (hbc : b.Extends c) :
    a.Extends c where
  place := hbc.place.trans hab.place
  optional := hbc.optional.trans hab.optional
  children := hab.children.trans hbc.children

/-- A context that is extended stays at its node. -/
theorem Context.Extends.nodeName?_eq {here later : Context}
    (h : here.Extends later) :
    later.nodeName? = here.nodeName? := by
  rw [Context.nodeName?, h.place]
  rfl

/-- The contexts of a walk once a node is collected below one of them. -/
def collect (contexts : Array Context) (c : ContextId) (name : String) :
    Array Context :=
  contexts.modify c fun here =>
    { here with children := here.children ++ [name] }

/-- Every context is found again among later ones. -/
def ContextsExtend (before after : Array Context) : Prop :=
  ∀ (c : ContextId) (here : Context), before[c]? = some here →
    ∃ later, after[c]? = some later ∧ here.Extends later

section

variable {contexts : Array Context} {c i : ContextId} {name : String}
    {later : Context}

/-- A context after collecting is one from before, with at most the
collected node added. -/
theorem of_getElem?_collect (h : (collect contexts c name)[i]? = some later) :
    ∃ here, contexts[i]? = some here ∧ here.Extends later ∧
      ∀ child ∈ later.children, child ∈ here.children ∨ child = name := by
  rw [collect, Array.getElem?_modify] at h
  split at h
  · obtain ⟨here, hhere, rfl⟩ := Option.map_eq_some_iff.mp h
    refine ⟨here, hhere, ⟨rfl, rfl, List.prefix_append _ _⟩,
      fun child hchild => ?_⟩
    exact (List.mem_append.mp hchild).imp_right List.mem_singleton.mp
  · exact ⟨later, h, .refl later, fun child hchild => .inl hchild⟩

/-- A new context leaves the others as they are. -/
theorem ContextsExtend.push (contexts : Array Context) (context : Context) :
    ContextsExtend contexts (contexts.push context) := by
  intro c here hhere
  have hlt := (Array.getElem?_eq_some_iff.mp hhere).1
  refine ⟨here, ?_, .refl here⟩
  rw [Array.getElem?_push, if_neg (Nat.ne_of_lt hlt)]
  exact hhere

/-- Noting a node extends one context at most. -/
theorem ContextsExtend.collect (contexts : Array Context) (c : ContextId)
    (name : String) :
    ContextsExtend contexts (collect contexts c name) := by
  intro i here hhere
  rw [Pattern.collect, Array.getElem?_modify, hhere]
  split
  · exact ⟨_, rfl, rfl, rfl, List.prefix_append _ _⟩
  · exact ⟨here, rfl, .refl here⟩

end

/-! ## Sound walks -/

/-- The name of the node one of the contexts of a walk is at. -/
def Walk.nodeName? (w : Walk) (c : ContextId) : Option String :=
  w.contexts[c]?.bind Context.nodeName?

/-- A context whose names are proper, opened from a node if it is on a
relationship. -/
structure Context.Fit (w : Walk) (here : Context) : Prop where
  children : ∀ child ∈ here.children, Proper child
  node : ∀ name, here.nodeName? = some name → Proper name
  origin : ∀ origin types name direction,
    here.place = .relationship origin types name direction →
    ∃ left, w.nodeName? origin = some left

/-- A walk whose contexts are fit and whose store is indexed right. -/
structure Walk.Sound (w : Walk) : Prop where
  indexed : w.registry.store.Indexed
  stem : Proper w.registry.names.stem
  fit : ∀ (c : ContextId) (here : Context), w.contexts[c]? = some here →
  here.Fit w

/-- The guarantee that a walk stays sound, and that a context at a node
stays at that node. -/
def sounding : Guarantee Walk where
  holds := Walk.Sound
  leads w v := ∀ c name, w.nodeName? c = some name → v.nodeName? c = some name
  refl _ _ _ h := h
  trans hleft hright c name h := hright c name (hleft c name h)

/-- A walk whose contexts are found again is at its nodes still. -/
theorem sounding_of_extend {w v : Walk}
    (h : ContextsExtend w.contexts v.contexts) :
    sounding.leads w v := by
  intro c name hname
  obtain ⟨here, hhere, hnode⟩ := Option.bind_eq_some_iff.mp hname
  obtain ⟨later, hlater, hextends⟩ := h c here hhere
  exact Option.bind_eq_some_iff.mpr ⟨later, hlater,
    hextends.nodeName?_eq.trans hnode⟩

/-- A context that fits the walk fits it later on. -/
theorem Context.Fit.mono {w v : Walk} {here : Context} (h : here.Fit w)
    (hleads : sounding.leads w v) : here.Fit v where
  children := h.children
  node := h.node
  origin origin types name direction hplace := by
    obtain ⟨left, hleft⟩ := h.origin origin types name direction hplace
    exact ⟨left, hleads origin left hleft⟩

namespace Walk.Sound

variable {w : Walk}

/-- What the calls of a step do to the registry leaves a walk sound. -/
theorem traced (h : w.Sound) {past : List (Naming Registry)} {r : Registry}
    (htraced : Traced w.registry past r) :
    ({ w with registry := r } : Walk).Sound where
  indexed := htraced.indexed h.indexed
  stem := by
    show Proper r.names.stem
    rw [htraced.names_eq]
    exact h.stem
  fit c here hhere := (h.fit c here hhere).mono fun _ _ hname => hname

/-- The names of nodes are proper in a sound walk. -/
theorem proper_of_nodeName? (h : w.Sound) {c : ContextId} {name : String}
    (hname : w.nodeName? c = some name) : Proper name := by
  obtain ⟨here, hhere, hnode⟩ := Option.bind_eq_some_iff.mp hname
  exact (h.fit c here hhere).node name hnode

end Walk.Sound

namespace Walking

open Guarantee

variable {w : Walk}

/-- A node is registered under a proper name. -/
theorem at_matchNode (given : LabelArgument) (name : Option String)
    (optional : Bool) :
    sounding.At w (matchNode given name optional) fun name _ =>
      Proper name := by
  intro hw
  rw [exec_matchNode]
  dsimp only
  rcases hexec : exec (StoreCall.matchNode given name optional).perform
      w.registry with ⟨reply, r⟩
  have htraced := Traced.of_perform hexec
  refine ⟨hw.traced htraced, fun _ _ hname => hname, ?_⟩
  intro own hown
  cases reply with
  | error fault => cases hown
  | ok answer =>
    cases hown
    rw [StoreCall.perform] at hexec
    obtain ⟨e, s, hnode, hanswer⟩ := exec_bind_eq_ok.mp hexec
    cases hanswer
    rw [StoreAnswer.name, Registration.name?_of_node hw.indexed hnode,
      Option.getD_some]
    exact proper_decode .node given name hw.stem

/-- Calls of the store keep a walk sound. -/
theorem kept_call (call : StoreCall Assignment) :
    sounding.Kept (register call.perform) := by
  intro w hw
  rw [exec_register]
  have htraced := (Traced.refl (r := w.registry)).perform call
  exact ⟨hw.traced htraced, fun _ _ hname => hname, fun _ _ => trivial⟩

/-- Declarations keep a walk sound. -/
theorem withstands_sounding : Withstands sounding := fun call _ =>
    kept_call call

/-- A new context is where it was opened. -/
theorem at_enter {context : Context} (hfit : context.Fit w) :
    sounding.At w (enter context) fun c t =>
      t.nodeName? c = context.nodeName? := by
  apply at_modifyGet
  intro hw
  have hleads :
      sounding.leads w { w with contexts := w.contexts.push context } :=
    sounding_of_extend (ContextsExtend.push w.contexts context)
  refine ⟨⟨hw.indexed, hw.stem, ?_⟩, hleads, ?_⟩
  · intro c here hhere
    rw [Array.getElem?_push] at hhere
    split at hhere
    · rw [← Option.some.inj hhere]
      exact hfit.mono hleads
    · exact (hw.fit c here hhere).mono hleads
  · show Option.bind _ _ = _
    rw [Array.getElem?_push_size]
    rfl

/-- Noting a node of a proper name keeps a walk sound. -/
theorem at_addChild {name : String} (c : ContextId) (hname : Proper name) :
    sounding.At w (addChild c name) fun _ _ => True := by
  apply at_modify
  intro hw
  have hleads :
      sounding.leads w { w with contexts := collect w.contexts c name } :=
    sounding_of_extend (ContextsExtend.collect w.contexts c name)
  refine ⟨⟨hw.indexed, hw.stem, ?_⟩, hleads, trivial⟩
  intro i later hlater
  obtain ⟨here, hhere, hextends, hchildren⟩ := of_getElem?_collect hlater
  have hfit := (hw.fit i here hhere).mono hleads
  refine ⟨fun child hchild => ?_, fun own hown => ?_,
    fun origin types own direction hplace => ?_⟩
  · rcases hchildren child hchild with hold | hnew
    · exact hfit.children child hold
    · exact hnew ▸ hname
  · exact hfit.node own (hextends.nodeName?_eq.symm.trans hown)
  · exact hfit.origin origin types own direction
      (hextends.place.symm.trans hplace)

/-- A node that is collected below a context, and the context at it. -/
theorem fit_node {v : Walk} {parent : Option ContextId} {name : String}
    (skipped optional : Bool) (hname : Proper name) :
    Context.Fit v { place := .node parent name skipped, optional } where
  children _ hchild := nomatch hchild
  node _ hown := Option.some.inj hown ▸ hname
  origin _ _ _ _ hplace := nomatch hplace

/-- A relationship opened from a node. -/
theorem fit_relationship {v : Walk} {c : ContextId} {left : String}
    (types : LabelArgument) (name : Option String)
    (direction : Option Direction) (optional : Bool)
    (hleft : v.nodeName? c = some left) :
    Context.Fit v
      { place := .relationship c types name direction, optional } where
  children _ hchild := nomatch hchild
  node _ hown := nomatch hown
  origin _ _ _ _ hplace := by
    cases hplace
    exact ⟨left, hleft⟩

/-- Adding a node below keeps a walk sound. -/
theorem kept_addChildNode (c : ContextId) (given : LabelArgument)
    (name : Option String) (optional : Bool) :
    sounding.Kept (addChildNode c given name optional) := by
  intro w
  apply at_context
  intro here hhere
  refine (at_matchNode given name _).bind fun own t _ _ hown => ?_
  refine (at_enter (fit_node false _ hown)).bind fun child u _ _ _ => ?_
  exact (at_addChild c hown).bind fun _ v _ _ _ => kept_pure child v

/-- Adding a relationship keeps a walk sound. -/
theorem kept_addRelationship (c : ContextId)
    (types : LabelArgument) (name : Option String)
    (direction : Option Direction) (optional : Bool) :
    sounding.Kept (addRelationship c types name direction optional) := by
  intro w
  apply at_context
  intro here hhere
  dsimp only
  cases hplace : here.place with
  | node parent left skipped =>
    have hleft : w.nodeName? c = some left := by
      rw [Walk.nodeName?, hhere, Option.bind_some, Context.nodeName?, hplace]
    exact (at_enter (fit_relationship types name direction _ hleft)).mono
      fun _ _ _ _ _ => trivial
  | relationship origin own given arrow =>
    refine (at_matchNode .none none _).bind fun between t _ _ hbetween => ?_
    refine (at_enter (fit_node true _ hbetween)).bind
      fun middle u _ _ hmiddle => ?_
    refine (at_addChild c hbetween).bind fun _ v _ hleads _ => ?_
    have hfit :=
      fit_relationship types name direction (here.optional || optional)
      (hleads middle between hmiddle)
    exact (at_enter hfit).mono fun _ _ _ _ _ => trivial

/-- **Every step keeps a walk sound**, from whichever context it is taken. -/
theorem kept_move (c : ContextId) (step : WalkStep Assignment) :
    sounding.Kept (step.move c) := by
  cases step with
  | addChildNode given name optional =>
    exact kept_addChildNode c given name optional
  | addRelationship given name direction optional =>
    exact kept_addRelationship c given name direction optional
  | ascend => exact withstands_sounding.ascend c
  | store call => exact (kept_call call).bind fun _ => kept_pure c
  | start | startAtNode | startOnRelationship | unknown => exact kept_throw _

/-- Starting at a node makes a sound walk. -/
theorem kept_startAtNode (given : LabelArgument) (name : Option String)
    (optional : Bool) :
    sounding.Kept (startAtNode given name optional) := by
  intro w
  refine (at_matchNode given name optional).bind fun own t _ _ hown => ?_
  exact (at_enter (fit_node false _ hown)).mono fun _ _ _ _ _ => trivial

/-- Starting on a relationship makes a sound walk. -/
theorem kept_startOnRelationship (types : LabelArgument)
    (name : Option String) (direction : Option Direction) (optional : Bool) :
    sounding.Kept (startOnRelationship types name direction optional) := by
  intro w
  refine (at_matchNode .none none optional).bind fun root t _ _ hroot => ?_
  exact (at_enter (fit_node true _ hroot)).bind fun origin u _ _ _ =>
    kept_addRelationship _ _ _ _ _ u

/-- Every step that starts a walk makes a sound one. -/
theorem kept_starting {step : WalkStep Assignment}
    {starting : Walking ContextId} (h : step.starting? = some starting) :
    sounding.Kept starting := by
  cases step <;> cases h
  · next given name optional =>
    cases given with
    | none | many => exact kept_startAtNode _ _ _
    | one token =>
      rw [start]
      split
      · exact kept_startOnRelationship _ _ _ _
      · exact kept_startAtNode _ _ _
  · exact kept_startAtNode _ _ _
  · exact kept_startOnRelationship _ _ _ _

end Walking

/-- What a step does that starts a walk. -/
theorem Position.exec_of_starting {here : Option Position}
    {step : WalkStep Assignment} {starting : Walking ContextId}
    {p : Position} (hstarting : step.starting? = some starting)
    (h : Position.step here step = (.ok (), some p)) :
    ∃ log, exec starting { registry := { log } } =
      (.ok p.context, p.walk) := by
  unfold Position.step at h
  rw [hstarting] at h
  dsimp only at h
  split at h
  · next context walk hrun =>
    cases h
    exact ⟨_, hrun⟩
  · cases h

/-- A step of a walk, taken from one of its contexts. -/
structure Leg where
  source : ContextId
  step : WalkStep Assignment
  deriving Inhabited

namespace Walk

/-- Go on with a walk, each step from any of its contexts, as long as no
step fails. -/
def along (w : Walk) : List Leg → Except Fault Walk
  | [] => .ok w
  | leg :: rest =>
    match exec (leg.step.move leg.source) w with
    | (.ok _, v) => along v rest
    | (.error fault, _) => .error fault

variable {w v : Walk}

/-- Legs are walked one after the other. -/
theorem along_cons_eq_ok {leg : Leg} {rest : List Leg}
    (h : w.along (leg :: rest) = .ok v) :
    ∃ there u, exec (leg.step.move leg.source) w = (.ok there, u) ∧
    u.along rest = .ok v := by
  rw [along] at h
  rcases hexec : exec (leg.step.move leg.source) w with ⟨fault | there, u⟩
  · rw [hexec] at h
    cases h
  · rw [hexec] at h
    exact ⟨there, u, rfl, h⟩

/-- What a step does to the registry: it makes its calls, and all of them
succeed if it does. -/
theorem afterCalls_of_move {c there : ContextId} {step : WalkStep Assignment}
    (h : exec (step.move c) w = (.ok there, v)) :
    w.registry.afterCalls (step.calls w c) = (.ok (), v.registry) := by
  obtain ⟨hregistry, hsucceeds⟩ := Walking.asks_move (w := w) c step
  rw [h] at hregistry hsucceeds
  exact Prod.ext (hsucceeds there rfl) hregistry.symm

/-- A move keeps a walk sound. -/
theorem Sound.move (h : w.Sound) {c there : ContextId}
    {step : WalkStep Assignment}
    (hmove : exec (step.move c) w = (.ok there, v)) : v.Sound := by
  have hkept := (Walking.kept_move c step w h).1
  rwa [hmove] at hkept

/-- Legs keep a walk sound, one after the other. -/
theorem Sound.along {legs : List Leg} (h : w.Sound)
    (hlegs : w.along legs = .ok v) : v.Sound := by
  induction legs generalizing w with
  | nil =>
    cases hlegs
    exact h
  | cons leg rest ih =>
    obtain ⟨there, u, hmove, hrest⟩ := along_cons_eq_ok hlegs
    exact ih (h.move hmove) hrest

/-- **A walk never changes the ends of a relationship.** -/
theorem Sound.ends?_along {legs : List Leg} {name : String}
    {ends : String × String} (h : w.Sound) (hlegs : w.along legs = .ok v)
    (hends : w.registry.store.ends? name = some ends) :
    v.registry.store.ends? name = some ends := by
  induction legs generalizing w with
  | nil =>
    cases hlegs
    exact hends
  | cons leg rest ih =>
    obtain ⟨there, u, hmove, hrest⟩ := along_cons_eq_ok hlegs
    have htraced :=
      (Traced.refl (r := w.registry)).afterCalls (leg.step.calls w leg.source)
    rw [afterCalls_of_move hmove] at htraced
    exact ih (h.move hmove) hrest (htraced.ends? h.indexed hends)

/-- A walk that has just begun is sound. -/
theorem sound_of_starting {here : Option Position}
    {opening : WalkStep Assignment} {root : ContextId}
    (hopening : opening.starting?.isSome = true)
    (hstart : Position.step here opening = (.ok (), some ⟨w, root⟩)) :
    w.Sound := by
  obtain ⟨starting, hstarting⟩ := Option.isSome_iff_exists.mp hopening
  have hletters : ['a', 'n', 'o', 'n'].all (fun c => !Text.isBlank c) =
      true := by decide
  have hempty : ∀ log, Walk.Sound { registry := { log } } := fun log =>
    { indexed := Store.indexed_empty
      stem := Proper.of_forall (by decide) (by simpa using hletters)
      fit := fun c here hhere => by cases hhere }
  obtain ⟨log, hexec⟩ := Position.exec_of_starting hstarting hstart
  have hkept := (Walking.kept_starting hstarting _ (hempty log)).1
  rwa [hexec] at hkept

end Walk

end GraphQuery.Pattern
