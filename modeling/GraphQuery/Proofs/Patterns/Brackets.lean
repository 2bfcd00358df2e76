import GraphQuery.Proofs.Patterns.Contexts

/-!
# Walks come back

A walk descends to a node or onto a relationship and ascends again.  Going
on from a relationship opens two contexts, an anonymous node and the
relationship that leaves it, and an ascent to such a node passes through it.
So a walk never stops at such a node (`Walk.Visited.rests`), the context
above the one a descent leads to is the one it came from
(`Walking.at_addRelationship`), and a walk whose descents are all followed
by their ascents is back where it was: `Walk.Visited.comes_back`.
-/

namespace GraphQuery.Pattern

open GraphQuery.Computation

/-- Whether a walk passes through a place on its way up. -/
def Place.isPassing : Place → Bool
  | .node (some _) _ skipped => skipped
  | _ => false

/-- Only an anonymous node in between is passed through. -/
theorem Place.isPassing_eq_false {place : Place}
    (h : ∀ parent name, place ≠ .node (some parent) name true) :
    place.isPassing = false := by
  cases place with
  | relationship => rfl
  | node parent name skipped =>
    cases parent with
    | none => rfl
    | some parent =>
      cases skipped with
      | false => rfl
      | true => exact absurd rfl (h parent name)

namespace Walk

/-- The place of a context. -/
def place? (w : Walk) (c : ContextId) : Option Place :=
  w.contexts[c]?.map Context.place

/-- A context a walk can stop at. -/
def Rests (w : Walk) (c : ContextId) :
    Prop := ∃ place, w.place? c = some place ∧ place.isPassing = false

/-- The context an ascent leads to. -/
def above? (w : Walk) (c : ContextId) : Option ContextId :=
  match w.place? c with
  | some (.node parent _ _) => parent
  | some (.relationship origin _ _ _) =>
    match w.place? origin with
    | some (.node (some parent) _ true) => some parent
    | some _ => some origin
    | none => none
  | none => none

/-- The context that a number of ascents lead to. -/
def climb (w : Walk) : Nat → ContextId → Option ContextId
  | 0, c => some c
  | n + 1, c => (w.above? c).bind (w.climb n)

end Walk

/-- The guarantee that a walk can stop above each of its nodes, and that its
contexts stay. -/
def resting : Guarantee Walk where
  holds w := ∀ (c parent : ContextId) (name : String) (skipped : Bool),
    w.place? c = some (.node (some parent) name skipped) → w.Rests parent
  leads w v := ∀ (c : ContextId) (here : Context),
    w.contexts[c]? = some here →
    ∃ later, v.contexts[c]? = some later ∧ here.Extends later
  refl _ _ here h := ⟨here, h, .refl here⟩
  trans hleft hright c here h := by
    obtain ⟨middle, hmiddle, hfirst⟩ := hleft c here h
    obtain ⟨later, hlater, hsecond⟩ := hright c middle hmiddle
    exact ⟨later, hlater, hfirst.trans hsecond⟩

section

variable {w v : Walk} {c d : ContextId} {here : Context} {place : Place}

namespace Walk

/-- The place of a context is part of it. -/
theorem place?_of_context (h : w.contexts[c]? = some here) :
    w.place? c = some here.place := by
  rw [place?, h]
  rfl

/-- Contexts keep their places. -/
theorem place?_mono (hleads : resting.leads w v)
    (h : w.place? c = some place) :
    v.place? c = some place := by
  obtain ⟨here, hhere, rfl⟩ := Option.map_eq_some_iff.mp h
  obtain ⟨later, hlater, hextends⟩ := hleads c here hhere
  rw [place?_of_context hlater, hextends.place]

/-- A context where the walk can stop stays one. -/
theorem Rests.mono (h : w.Rests c) (hleads : resting.leads w v) :
    v.Rests c := by
  obtain ⟨place, hplace, hpassing⟩ := h
  exact ⟨place, place?_mono hleads hplace, hpassing⟩

/-- Above a node is its parent. -/
theorem above?_of_node {parent : Option ContextId} {name : String}
    {skipped : Bool} (h : w.place? c = some (.node parent name skipped)) :
    w.above? c = parent := by
  rw [above?, h]

/-- Above a relationship that leaves a node the walk has stopped at stands
that node. -/
theorem above?_of_rests {types : LabelArgument} {name : Option String}
    {direction : Option Direction}
    (h : w.place? c = some (.relationship d types name direction))
    (hd : w.Rests d) : w.above? c = some d := by
  obtain ⟨place, hplace, hpassing⟩ := hd
  rw [above?, h]
  dsimp only
  rw [hplace]
  match place, hpassing with
  | .node none _ _, _ => rfl
  | .node (some _) _ false, _ => rfl
  | .relationship .., _ => rfl

/-- Above a relationship that leaves a node passed through stands what is
above that node. -/
theorem above?_of_passing {types : LabelArgument} {name : Option String}
    {direction : Option Direction} {origin : ContextId} {between : String}
    (h : w.place? c = some (.relationship origin types name direction))
    (horigin : w.place? origin = some (.node (some d) between true)) :
    w.above? c = some d := by
  rw [above?, h]
  dsimp only
  rw [horigin]

/-- What is above a context stays there. -/
theorem above?_mono (hleads : resting.leads w v) (h : w.above? c = some d) :
    v.above? c = some d := by
  cases hplace : w.place? c with
  | none =>
    rw [above?, hplace] at h
    cases h
  | some place =>
    have hlater := place?_mono hleads hplace
    rw [above?, hplace] at h
    rw [above?, hlater]
    cases place with
    | node parent name skipped => exact h
    | relationship origin types name direction =>
      dsimp only at h ⊢
      cases horigin : w.place? origin with
      | none =>
        rw [horigin] at h
        cases h
      | some start =>
        rw [horigin] at h
        rw [place?_mono hleads horigin]
        exact h

/-- What is reached from a context by climbing stays there. -/
theorem climb_mono (hleads : resting.leads w v) {n : Nat}
    (h : w.climb n c = some d) :
    v.climb n c = some d := by
  induction n generalizing c with
  | zero => exact h
  | succ n ih =>
    obtain ⟨above, habove, hclimb⟩ := Option.bind_eq_some_iff.mp h
    exact Option.bind_eq_some_iff.mpr ⟨above, above?_mono hleads habove,
      ih hclimb⟩

end Walk

namespace Walking

open Guarantee

/-- What is registered does not touch the contexts. -/
theorem rests_register {α : Type} (registration : Registration α) :
    resting.Kept (register registration) := by
  intro w hw
  rw [exec_register]
  exact ⟨hw, fun c here hhere => ⟨here, hhere, .refl here⟩, fun _ _ =>
    trivial⟩

/-- Declarations do not touch the contexts. -/
theorem withstands_resting : Withstands resting := fun call _ =>
    rests_register call.perform

/-- A new context below one the walk can stop at. -/
theorem rests_enter {context : Context}
    (hparent : ∀ parent name skipped,
      context.place = .node (some parent) name skipped →
      w.Rests parent) :
    resting.At w (enter context) fun c t =>
      t.place? c = some context.place := by
  apply at_modifyGet
  intro hw
  have hleads :
      resting.leads w { w with contexts := w.contexts.push context } :=
    ContextsExtend.push w.contexts context
  refine ⟨?_, hleads, ?_⟩
  · intro c parent name skipped hplace
    obtain ⟨here, hhere, hnode⟩ := Option.map_eq_some_iff.mp hplace
    rw [Array.getElem?_push] at hhere
    split at hhere
    · cases hhere
      exact (hparent parent name skipped hnode).mono hleads
    · have hbefore : w.place? c =
          some (.node (some parent) name skipped) := by
        rw [Walk.place?_of_context hhere, hnode]
      exact (hw c parent name skipped hbefore).mono hleads
  · show Option.map _ _ = _
    rw [Array.getElem?_push_size]
    rfl

/-- Noting a node does not touch the places of contexts. -/
theorem rests_addChild (c : ContextId) (name : String) :
    resting.Kept (addChild c name) := by
  intro w
  apply at_modify
  intro hw
  have hleads :
      resting.leads w { w with contexts := collect w.contexts c name } :=
    ContextsExtend.collect w.contexts c name
  refine ⟨?_, hleads, trivial⟩
  intro i parent own skipped hplace
  obtain ⟨later, hlater, hnode⟩ := Option.map_eq_some_iff.mp hplace
  obtain ⟨here, hhere, hextends, -⟩ := of_getElem?_collect hlater
  have hbefore : w.place? i = some (.node (some parent) own skipped) := by
    rw [Walk.place?_of_context hhere, ← hextends.place, hnode]
  exact (hw i parent own skipped hbefore).mono hleads

/-- A relationship opened from a node. -/
theorem rests_open (c : ContextId) (types : LabelArgument)
    (name : Option String) (direction : Option Direction) (optional : Bool) :
    resting.At w
      (enter { place := .relationship c types name direction, optional })
        fun d t =>
      t.place? d = some (.relationship c types name direction) :=
  rests_enter fun _ _ _ hplace => Place.noConfusion hplace

/-- Descending to a node leads below the context the walk was in. -/
theorem at_addChildNode (hc : w.Rests c) (given : LabelArgument)
    (name : Option String) (optional : Bool) :
    resting.At w (addChildNode c given name optional) fun d t => t.Rests d ∧
    t.above? d = some c := by
  apply at_context
  intro here _
  refine (withstands_resting.matchNode given name _ w).bind
    fun own t _ hkept _ => ?_
  have hparent : ∀ parent between skipped,
      Place.node (some c) own false = .node (some parent) between skipped →
      t.Rests parent := by
    rintro parent between skipped hplace
    cases hplace
    exact hc.mono hkept
  refine (rests_enter hparent).bind fun child u _ _ hchild => ?_
  refine (rests_addChild c own u).bind fun _ v _ hlater _ => at_pure fun _ =>
    ?_
  have hplace := Walk.place?_mono hlater hchild
  exact ⟨⟨_, hplace, rfl⟩, Walk.above?_of_node hplace⟩

/-- Opening a relationship leads below the context the walk was in, also if
it was on a relationship and an anonymous node lies between the two. -/
theorem at_addRelationship (hc : w.Rests c) (types : LabelArgument)
    (name : Option String) (direction : Option Direction) (optional : Bool) :
    resting.At w (addRelationship c types name direction optional) fun d t =>
      t.Rests d ∧ t.above? d = some c := by
  apply at_context
  intro here hhere
  dsimp only
  cases hplace : here.place with
  | node parent left skipped =>
    refine (rests_open _ types name direction _).mono
      fun d t _ hleads hd => ?_
    exact ⟨⟨_, hd, rfl⟩, Walk.above?_of_rests hd (hc.mono hleads)⟩
  | relationship origin own given arrow =>
    refine (withstands_resting.matchNode .none none _ w).bind
      fun between t _ hkept _ => ?_
    have hparent : ∀ parent name skipped,
        Place.node (some c) between true = .node (some parent) name skipped →
        t.Rests parent := by
      rintro parent name skipped hnode
      cases hnode
      exact hc.mono hkept
    refine (rests_enter hparent).bind fun middle u _ _ hmiddle => ?_
    refine (rests_addChild c between u).bind fun _ v _ hadded _ => ?_
    refine (rests_open _ types name direction _).mono
      fun d t _ hentered hd => ?_
    have hpassed :=
      Walk.place?_mono hentered (Walk.place?_mono hadded hmiddle)
    exact ⟨⟨_, hd, rfl⟩, Walk.above?_of_passing hd hpassed⟩

/-- Leaving a node leads to its parent, where the walk can stop. -/
theorem at_leave (hw : resting.holds w) {parent : Option ContextId}
    {name : String} {skipped : Bool}
    (hplace : w.place? c = some (.node parent name skipped)) :
    resting.At w (leave c) fun d t => t.Rests d ∧ parent = some d := by
  apply at_context
  intro here hhere
  have hkind : here.place = .node parent name skipped :=
    Option.some.inj ((Walk.place?_of_context hhere).symm.trans hplace)
  rw [Context.parent, hkind]
  cases parent with
  | none => exact at_throw
  | some parent => exact at_pure fun _ =>
    ⟨hw c parent name skipped hplace, rfl⟩

/-- An ascent leads to the context above, where the walk can stop.  It
passes through an anonymous node in between and stops at any other one. -/
theorem at_ascend (c : ContextId) :
    resting.At w (ascend c) fun d t => t.Rests d ∧ w.above? c = some d := by
  refine at_of_holds fun hw => ?_
  apply at_context
  intro here hhere
  have hplace := Walk.place?_of_context hhere
  cases hkind : here.place with
  | node parent name skipped =>
    rw [hkind] at hplace
    refine (at_leave hw hplace).mono fun d t _ _ hd => ⟨hd.1, ?_⟩
    rw [Walk.above?_of_node hplace, hd.2]
  | relationship origin types name direction =>
    rw [hkind] at hplace
    apply at_context
    intro start hstart
    have horigin := Walk.place?_of_context hstart
    have hpasses : ∀ {u parent name}, resting.leads w u →
        start.place = .node (some parent) name true →
        resting.At u (leave origin) fun d t => t.Rests d ∧
        w.above? c = some d := by
      intro u parent name hleads hkind
      rw [hkind] at horigin
      refine at_of_holds fun hu => ?_
      refine (at_leave hu (Walk.place?_mono hleads horigin)).mono
        fun d t _ _ hd => ⟨hd.1, ?_⟩
      rw [Walk.above?_of_passing hplace horigin, hd.2]
    have hstays : ∀ {u}, resting.leads w u →
        (∀ parent name, start.place ≠ .node (some parent) name true) →
          resting.At u (pure origin) fun d t => t.Rests d ∧
          w.above? c = some d := by
      intro u hleads hother
      have hrests : w.Rests origin :=
        ⟨_, horigin, Place.isPassing_eq_false hother⟩
      exact at_pure fun _ =>
        ⟨hrests.mono hleads, Walk.above?_of_rests hplace hrests⟩
    cases here.children with
    | nil =>
      refine (withstands_resting.matchRelationship _ _ _ _ _ _ w).bind
        fun _ u _ hleads _ => ?_
      split
      · next hkind => exact hpasses hleads hkind
      · next hother => exact hstays hleads hother
    | cons first rest =>
      refine (withstands_resting.matchRelationship _ _ _ _ _ _ w).bind
        fun base u _ hfirst _ => ?_
      refine (withstands_resting.matchFan _ _ _ _ _ _ _ u).bind
        fun _ v _ hfan _ => ?_
      split
      · next hkind => exact hpasses (resting.trans hfirst hfan) hkind
      · next hother => exact hstays (resting.trans hfirst hfan) hother

/-- **A walk always stops where it can go on from**: every step leads from
such a context to another. -/
theorem at_move (hc : w.Rests c) (step : WalkStep Assignment) :
    resting.At w (step.move c) fun d t => t.Rests d := by
  cases step with
  | addChildNode given name optional =>
    exact (at_addChildNode hc _ _ _).mono fun _ _ _ _ hd => hd.1
  | addRelationship given name direction optional =>
    exact (at_addRelationship hc _ _ _ _).mono fun _ _ _ _ hd => hd.1
  | ascend => exact (at_ascend c).mono fun _ _ _ _ hd => hd.1
  | store call =>
    exact (rests_register _ w).bind fun _ t _ hleads _ => at_pure fun _ =>
      hc.mono hleads
  | start | startAtNode | startOnRelationship | unknown => exact at_throw

/-- A walk can stop at the node it starts at. -/
theorem at_startAtNode (given : LabelArgument) (name : Option String)
    (optional : Bool) :
    resting.At w (startAtNode given name optional) fun d t => t.Rests d := by
  refine (withstands_resting.matchNode given name optional w).bind
    fun own t _ _ _ => ?_
  exact (rests_enter fun _ _ _ hplace => by cases hplace).mono
    fun d u _ _ hd => ⟨_, hd, rfl⟩

/-- A walk can stop on the relationship it starts on. -/
theorem at_startOnRelationship (types : LabelArgument) (name : Option String)
    (direction : Option Direction) (optional : Bool) :
    resting.At w (startOnRelationship types name direction optional)
      fun d t => t.Rests d := by
  refine (withstands_resting.matchNode .none none optional w).bind
    fun root t _ _ _ => ?_
  refine (rests_enter fun _ _ _ hplace => by cases hplace).bind
    fun origin u _ _ horigin => ?_
  have hrests : u.Rests origin := ⟨_, horigin, rfl⟩
  exact (at_addRelationship hrests _ _ _ _).mono fun _ _ _ _ hd => hd.1

/-- A walk can stop wherever a step starts it. -/
theorem at_starting {step : WalkStep Assignment}
    {starting : Walking ContextId} (h : step.starting? = some starting) :
    resting.At w starting fun d t => t.Rests d := by
  cases step <;> cases h
  · next given name optional =>
    cases given with
    | none | many => exact at_startAtNode _ _ _
    | one token =>
      rw [start]
      split
      · exact at_startOnRelationship _ _ _ _
      · exact at_startAtNode _ _ _
  · exact at_startAtNode _ _ _
  · exact at_startOnRelationship _ _ _ _

end Walking

end

/-! ### Reached contexts -/

/-- A walk and a context it has reached.  Steps may be taken from any
context reached before; one that fails reaches none, but what it did stays
done. -/
inductive Walk.Visited : Walk → ContextId → Prop
  | opened {here : Option Position} {opening : WalkStep Assignment}
      {w : Walk} {c : ContextId}
    (hopening : opening.starting?.isSome = true)
    (hstart : Position.step here opening = (.ok (), some ⟨w, c⟩)) :
    Visited w c
  | moved {w v : Walk} {c d : ContextId} {step : WalkStep Assignment}
      (hc : Visited w c)
    (hmove : exec (step.move c) w = (.ok d, v)) : Visited v d
  | left {w v : Walk} {c d : ContextId} {step : WalkStep Assignment}
    {outcome : Except Fault ContextId} (hc : Visited w c) (hd : Visited w d)
    (hmove : exec (step.move d) w = (outcome, v)) : Visited v c

/-- A walk can stop at every context it has reached.  A step taken elsewhere
leaves the place of this context as it is, even if it fails. -/
theorem Walk.Visited.rests {w : Walk} {c : ContextId} (h : w.Visited c) :
    resting.holds w ∧ w.Rests c := by
  induction h with
  | @opened here opening w c hopening hstart =>
    obtain ⟨starting, hstarting⟩ := Option.isSome_iff_exists.mp hopening
    have hempty : ∀ log, resting.holds { registry := { log } } := by
      intro log c parent name skipped hplace
      cases hplace
    obtain ⟨log, hexec⟩ := Position.exec_of_starting hstarting hstart
    obtain ⟨hholds, -, hrests⟩ := Walking.at_starting hstarting (hempty log)
    rw [hexec] at hholds hrests
    exact ⟨hholds, hrests c rfl⟩
  | @moved w v c d step _ hmove ih =>
    obtain ⟨hholds, -, hrests⟩ := Walking.at_move ih.2 step ih.1
    rw [hmove] at hholds hrests
    exact ⟨hholds, hrests d rfl⟩
  | @left w v c d step outcome _ _ hmove ihc ihd =>
    obtain ⟨hholds, hleads, -⟩ := Walking.at_move ihd.2 step ihd.1
    rw [hmove] at hholds hleads
    exact ⟨hholds, ihc.2.mono hleads⟩

/-- Steps that do not fail: the first one, and the others. -/
theorem Position.step_of_run_cons {here : Option Position}
    {step : WalkStep Assignment} {rest : List (WalkStep Assignment)}
    {p : Position} (h : Position.run here (step :: rest) = (.ok (), some p)) :
    ∃ there, Position.step here step = (.ok (), there) ∧
    Position.run there rest = (.ok (), some p) := by
  rw [Position.run] at h
  rcases hstep : Position.step here step with ⟨fault | ⟨⟩, there⟩
  · rw [hstep] at h
    cases h
  · rw [hstep] at h
    exact ⟨there, rfl, h⟩

/-- Steps that end well take the first one, and then the others from there. -/
theorem Position.run_cons_eq_ok {p q : Position} {step : WalkStep Assignment}
    {rest : List (WalkStep Assignment)} (hstep : step.starting? = none)
    (h : Position.run (some p) (step :: rest) = (.ok (), some q)) :
    ∃ d v, exec (step.move p.context) p.walk = (.ok d, v) ∧
      Position.run (some ⟨v, d⟩) rest = (.ok (), some q) := by
  simp only [Position.run, Position.step, hstep] at h
  rcases hmove : exec (step.move p.context) p.walk with ⟨fault | d, v⟩
  · have hrun : (step.move p.context).run.run p.walk = _ := hmove
    rw [hrun] at h
    cases h
  · have hrun : (step.move p.context).run.run p.walk = _ := hmove
    rw [hrun] at h
    exact ⟨d, v, rfl, h⟩

/-- Where a run of steps ends, a walk has been.  A step that starts a walk
forgets the one before; any other goes on from where it is. -/
theorem Walk.visited_of_run {here : Option Position}
    {steps : List (WalkStep Assignment)} {q : Position}
    (hhere : ∀ p, here = some p → p.walk.Visited p.context)
    (hrun : Position.run here steps = (.ok (), some q)) :
    q.walk.Visited q.context := by
  induction steps generalizing here with
  | nil =>
    cases hrun
    exact hhere q rfl
  | cons step rest ih =>
    cases hstarting : step.starting? with
    | none =>
      cases here with
      | none =>
        simp only [Position.run, Position.step, hstarting] at hrun
        cases hrun
      | some p =>
        obtain ⟨d, v, hmove, hrest⟩ := Position.run_cons_eq_ok hstarting hrun
        refine ih ?_ hrest
        rintro p' hp'
        cases hp'
        exact .moved (hhere p rfl) hmove
    | some starting =>
      obtain ⟨there, hstep, hrest⟩ := Position.step_of_run_cons hrun
      refine ih ?_ hrest
      rintro p rfl
      exact .opened (Option.isSome_iff_exists.mpr ⟨starting, hstarting⟩) hstep

/-- The descents still open after a step, from those before it; an ascent
closes one, and there must be one that it closes. -/
def WalkStep.descentsAfter {α : Type} (descents : Nat) : WalkStep α →
    Option Nat
  | addChildNode _ _ _ | addRelationship _ _ _ _ => some (descents + 1)
  | ascend => if 0 < descents then some (descents - 1) else none
  | store _ => some descents
  | _ => none

/-- Steps that descend and ascend in balance: each ascent closes a descent
among them, and each descent is closed. -/
def Balanced {α : Type} (steps : List (WalkStep α)) : Prop :=
  steps.foldlM WalkStep.descentsAfter 0 = some 0

instance {α : Type} (steps : List (WalkStep α)) :
    Decidable (Balanced steps) :=
  inferInstanceAs (Decidable (_ = _))

/-- A step that goes up or down starts no walk. -/
theorem WalkStep.starting?_of_descentsAfter {α : Type} {step : WalkStep α}
    {n m : Nat} (h : step.descentsAfter n = some m) :
    step.starting? = none := by
  cases step <;> first | rfl | cases h

/-- A walk in a context that ascents from the descents still open lead up
from, to the one it set out from. -/
structure Walk.Below (w : Walk) (d : ContextId) (descents : Nat)
    (c : ContextId) : Prop where
  holds : resting.holds w
  rests : w.Rests d
  climb : w.climb descents d = some c

namespace Walk.Below

variable {w v : Walk} {c d e : ContextId} {n m : Nat}

/-- What one step does to it.  Either descent can be undone by one more
ascent. -/
theorem move (h : w.Below d n c) {step : WalkStep Assignment}
    (hm : step.descentsAfter n = some m)
    (hmove : exec (step.move d) w = (.ok e, v)) :
    v.Below e m c ∧ resting.leads w v := by
  have hdescent : resting.At w (step.move d) (fun e t => t.Rests e ∧
      t.above? e = some d) →
      v.Below e (n + 1) c ∧ resting.leads w v := by
    intro hat
    obtain ⟨hholds, hleads, hbelow⟩ := hat h.holds
    rw [hmove] at hholds hleads hbelow
    obtain ⟨hrests, habove⟩ := hbelow e rfl
    refine ⟨⟨hholds, hrests, ?_⟩, hleads⟩
    exact Option.bind_eq_some_iff.mpr ⟨d, habove, climb_mono hleads h.climb⟩
  cases step with
  | addChildNode given name optional =>
    cases hm
    exact hdescent (Walking.at_addChildNode h.rests given name optional)
  | addRelationship given name direction optional =>
    cases hm
    exact hdescent
      (Walking.at_addRelationship h.rests given name direction optional)
  | ascend =>
    cases n with
    | zero => cases hm
    | succ n =>
      cases hm
      obtain ⟨hholds, hleads, habove⟩ := Walking.at_ascend d h.holds
      have hexec : exec (Walking.ascend d) w = (.ok e, v) := hmove
      rw [hexec] at hholds hleads habove
      obtain ⟨hrests, hup⟩ := habove e rfl
      obtain ⟨above, hsame, hclimb⟩ := Option.bind_eq_some_iff.mp h.climb
      cases hup.symm.trans hsame
      exact ⟨⟨hholds, hrests, climb_mono hleads hclimb⟩, hleads⟩
  | store call =>
    cases hm
    obtain ⟨hholds, hleads, -⟩ :=
      Walking.rests_register call.perform w h.holds
    obtain ⟨answer, u, hcall, hsame⟩ := exec_bind_eq_ok.mp hmove
    cases hsame
    rw [hcall] at hholds hleads
    exact ⟨⟨hholds, h.rests.mono hleads, climb_mono hleads h.climb⟩, hleads⟩
  | start | startAtNode | startOnRelationship | unknown => cases hm

/-- What steps in balance do to it, step by step. -/
theorem run {steps : List (WalkStep Assignment)} {q : Position}
    (h : w.Below d n c) (hm : steps.foldlM WalkStep.descentsAfter n = some m)
    (hrun : Position.run (some ⟨w, d⟩) steps = (.ok (), some q)) :
    q.walk.Below q.context m c ∧ resting.leads w q.walk := by
  induction steps generalizing w d n with
  | nil =>
    cases hm
    cases hrun
    exact ⟨h, resting.refl w⟩
  | cons step rest ih =>
    rw [List.foldlM_cons] at hm
    obtain ⟨k, hk, hrest⟩ := Option.bind_eq_some_iff.mp hm
    obtain ⟨e, v, hmove, hlater⟩ :=
      Position.run_cons_eq_ok (WalkStep.starting?_of_descentsAfter hk) hrun
    obtain ⟨hbelow, hleads⟩ := h.move hk hmove
    obtain ⟨hend, hmore⟩ := ih hbelow hrest hlater
    exact ⟨hend, resting.trans hleads hmore⟩

end Walk.Below

/-- **Walks come back.**  From any context that a walk has reached, in
whichever order and with whatever failures, steps that descend and ascend in
balance and do not fail lead back to that context.  It is at the same place,
with more nodes collected below it. -/
theorem Walk.Visited.comes_back {w : Walk} {c : ContextId}
    {steps : List (WalkStep Assignment)} {q : Position} (h : w.Visited c)
    (hsteps : Balanced steps)
    (hrun : Position.run (some ⟨w, c⟩) steps = (.ok (), some q)) :
    q.context = c ∧ ∃ here later, w.contexts[c]? = some here ∧
    q.walk.contexts[c]? = some later ∧
      here.Extends later := by
  obtain ⟨hholds, hrests⟩ := h.rests
  have hbelow : w.Below c 0 c := ⟨hholds, hrests, rfl⟩
  obtain ⟨hend, hleads⟩ := hbelow.run hsteps hrun
  obtain ⟨place, hplace, -⟩ := hrests
  obtain ⟨here, hhere, -⟩ := Option.map_eq_some_iff.mp hplace
  obtain ⟨later, hlater, hextends⟩ := hleads c here hhere
  exact ⟨Option.some.inj hend.climb, here, later, hhere, hlater, hextends⟩

/-- Steps that end well somewhere end there. -/
theorem Position.run_eq_ok {here : Option Position}
    {steps : List (WalkStep Assignment)}
    (hok : (Position.run here steps).1.isOk = true)
    (hsome : (Position.run here steps).2.isSome = true) :
    Position.run here steps =
      (.ok (), some ((Position.run here steps).2.getD default)) := by
  obtain ⟨there, hthere⟩ := Option.isSome_iff_exists.mp hsome
  rw [hthere]
  cases houtcome : (Position.run here steps).1 with
  | error fault =>
    rw [houtcome] at hok
    cases hok
  | ok => exact Prod.ext houtcome hthere

/-- A walk that starts on a relationship and has collected a node below it. -/
def knowing : List (WalkStep Assignment) :=
  [.startOnRelationship (.one "KNOWS") none none false,
    .addChildNode (.one "Person") (some "a") false, .ascend]

/-- From a relationship over two others to a node, and back again. -/
def errand : List (WalkStep Assignment) :=
  [.addRelationship (.one "LIKES") none none false,
    .addRelationship (.one "SEES") none none false,
    .addChildNode (.one "Person") (some "b") false,
    .addRelationship (.one "KNOWS") none none false,
    .ascend, .ascend, .ascend, .ascend,
    .addChildNode (.one "Person") (some "c") false, .ascend]

/-- A balanced errand over relationships and nodes in between leads back to
where it began. -/
theorem Walk.Visited.comes_back_of_errand :
    let here := (Position.run none knowing).2.getD default
    ∃ q, Position.run (some here) errand = (.ok (), some q) ∧
    q.context = here.context := by
  intro here
  have hknowing : Position.run none knowing = (.ok (), some here) :=
    Position.run_eq_ok (by decide +kernel) (by decide +kernel)
  have herrand : Position.run (some here) errand = (.ok (), some _) :=
    Position.run_eq_ok (by decide +kernel) (by decide +kernel)
  have hvisited : here.walk.Visited here.context :=
    Walk.visited_of_run (fun _ hnone => by cases hnone) hknowing
  obtain ⟨hsame, -⟩ := comes_back hvisited (by decide) herrand
  exact ⟨_, herrand, hsame⟩

end GraphQuery.Pattern
