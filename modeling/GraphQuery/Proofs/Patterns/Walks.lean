import GraphQuery.Proofs.Patterns.Requests

/-!
# What walks declare

A step of a walk makes declarations in the store of the walk and moves
between contexts.  So what every declaration keeps is kept by walks of any
length, also by steps that fail half-way: `Keeps.walk`.
-/

namespace GraphQuery.Pattern

/-- A guarantee about the store of a walk. -/
def onWalk (G : Guarantee Store) : Guarantee Walk where
  holds w := G.holds w.registry.store
  leads w w' := G.leads w.registry.store w'.registry.store
  refl w := G.refl w.registry.store
  trans := G.trans

/-- The properties a step of a walk gives. -/
def WalkStep.properties : WalkStep Assignment → List Assignment
  | store call => call.properties
  | _ => []

namespace Keeps

open Guarantee Walking

variable {G : Guarantee Store} {fit : List Assignment → Prop}

/-- A step that leaves the registry of a walk as it is. -/
theorem modifyContexts {α : Type} {f : Walk → α × Walk}
    (hf : ∀ w, (f w).2.registry = w.registry) :
    (onWalk G).Kept (MonadStateOf.modifyGet f : Walking α) := by
  intro w
  apply at_modifyGet
  intro hw
  have hregistry := hf w
  refine ⟨?_, ?_, trivial⟩
  · show G.holds (f w).2.registry.store
    rw [hregistry]
    exact hw
  · show G.leads w.registry.store (f w).2.registry.store
    rw [hregistry]
    exact G.refl w.registry.store

/-- What calls of the store keep, walks keep that make them. -/
theorem register {α : Type} {registration : Registration α}
    (hkept : (onStore G).Kept registration) :
    (onWalk G).Kept (register registration) := by
  apply kept_get_bind
  intro w
  have hset : (onWalk G).At w
      (set { w with registry := (Computation.exec registration w.registry).2
        } : Walking PUnit)
      fun _ _ => True := by
    apply at_set
    intro hw
    obtain ⟨hholds, hleads, -⟩ := hkept w.registry hw
    exact ⟨hholds, hleads, trivial⟩
  exact hset.bind fun _ t _ _ _ => kept_lift _ t

/-- A new context does not touch the store. -/
theorem enter (context : Context) : (onWalk G).Kept (enter context) :=
  modifyContexts fun _ => rfl

/-- Noting a node does not touch the store. -/
theorem addChild (c : ContextId) (name : String) :
    (onWalk G).Kept (addChild c name) :=
  modifyContexts fun _ => rfl

variable (h : Keeps G fit)

include h

/-- Changes of contexts do not touch the store. -/
theorem withstands : Withstands (onWalk G) :=
  fun call hproperties => register (h.perform call (hproperties ▸ h.none))

/-- Adding a node keeps what declarations keep. -/
theorem addChildNode (c : ContextId) (labels : LabelArgument)
    (name : Option String) (optional : Bool) :
    (onWalk G).Kept (addChildNode c labels name optional) := by
  apply (kept_context c).bind
  intro here
  apply (h.withstands.matchNode _ _ _).bind
  intro registered
  apply (enter _).bind
  intro child
  exact (addChild _ _).bind fun _ => kept_pure child

/-- Adding a relationship keeps what declarations keep. -/
theorem addRelationship (c : ContextId) (types : LabelArgument)
    (name : Option String) (direction : Option Direction) (optional : Bool) :
    (onWalk G).Kept (addRelationship c types name direction optional) := by
  apply (kept_context c).bind
  intro here
  cases here.place with
  | node => exact enter _
  | relationship =>
    apply (h.withstands.matchNode _ _ _).bind
    intro between
    apply (enter _).bind
    intro middle
    exact (addChild _ _).bind fun _ => enter _

/-- Starting at a node keeps what declarations keep. -/
theorem startAtNode (labels : LabelArgument) (name : Option String)
    (optional : Bool) :
    (onWalk G).Kept (startAtNode labels name optional) :=
  (h.withstands.matchNode _ _ _).bind fun _ => enter _

/-- Starting on a relationship keeps what declarations keep. -/
theorem startOnRelationship (types : LabelArgument) (name : Option String)
    (direction : Option Direction) (optional : Bool) :
    (onWalk G).Kept (startOnRelationship types name direction optional) := by
  apply (h.withstands.matchNode _ _ _).bind
  intro root
  exact (enter _).bind fun origin => h.addRelationship _ _ _ _ _

/-- Starting in either way keeps what declarations keep. -/
theorem start (labels : LabelArgument) (name : Option String)
    (optional : Bool) :
    (onWalk G).Kept (start labels name optional) := by
  cases labels with
  | one token =>
    rw [Walking.start]
    split
    · exact h.startOnRelationship _ _ _ _
    · exact h.startAtNode _ _ _
  | none | many => exact h.startAtNode _ _ _

/-- Every step that starts a walk keeps what declarations keep. -/
theorem starting {step : WalkStep Assignment} {starting : Walking ContextId}
    (hstarting : step.starting? = some starting) :
    (onWalk G).Kept starting := by
  cases step <;> cases hstarting
  · exact h.start _ _ _
  · exact h.startAtNode _ _ _
  · exact h.startOnRelationship _ _ _ _

/-- Every move keeps what declarations keep, if what it gives fits. -/
theorem move (c : ContextId) {step : WalkStep Assignment}
    (hfit : fit step.properties) :
    (onWalk G).Kept (step.move c) := by
  cases step with
  | addChildNode => exact h.addChildNode _ _ _ _
  | addRelationship => exact h.addRelationship _ _ _ _ _
  | ascend => exact h.withstands.ascend _
  | store call =>
    exact (register (h.perform call hfit)).bind fun _ => kept_pure c
  | start | startAtNode | startOnRelationship | unknown => exact kept_throw _

end Keeps

/-- A guarantee holds of the pattern one has reached, if one has started. -/
def Position.Holds (G : Guarantee Store) (here : Option Position) : Prop :=
  ∀ position ∈ here, G.holds position.walk.registry.store

/-- Before any walk there is nothing to hold. -/
theorem Position.holds_none (G : Guarantee Store) : Holds G none := by
  intro position hnone
  cases hnone

namespace Keeps

variable {G : Guarantee Store} {fit : List Assignment → Prop}
    {here : Option Position}

/-- What declarations keep, a walk keeps step by step: whether a step fails
or not, the registry it leaves is that of its walk. -/
theorem position (h : Keeps G fit) (hempty : G.holds {})
    {step : WalkStep Assignment} (hfit : fit step.properties)
    (hhere : Position.Holds G here) :
    Position.Holds G (Position.step here step).2 := by
  have hrun : ∀ {α : Type} {x : Walking α} {w w' : Walk} {r : Except Fault α},
      (onWalk G).Kept x → StateT.run (ExceptT.run x) w = (r, w') →
      G.holds w.registry.store → G.holds w'.registry.store := by
    intro α x w w' r hkept hrun hw
    have hw' : (Computation.exec x w).2 = w' := congrArg Prod.snd hrun
    exact hw' ▸ (hkept w hw).1
  unfold Position.step
  cases hstart : step.starting? with
  | some starting =>
    dsimp only
    split
    · next context walk hwalk =>
      rintro _ ⟨rfl⟩
      exact hrun (h.starting hstart) hwalk hempty
    · exact hhere
  | none =>
    cases here with
    | none => exact hhere
    | some position =>
      dsimp only
      split
      · next context walk hwalk =>
        rintro _ ⟨rfl⟩
        exact hrun (h.move position.context hfit) hwalk (hhere position rfl)
      · next fault walk hwalk =>
        rintro _ ⟨rfl⟩
        exact hrun (h.move position.context hfit) hwalk (hhere position rfl)

/-- **What every declaration keeps is kept by every walk.** -/
theorem walk (h : Keeps G fit) (hempty : G.holds {})
    {steps : List (WalkStep Assignment)}
    (hfit : ∀ step ∈ steps, fit step.properties)
    (hhere : Position.Holds G here) :
    Position.Holds G (Position.run here steps).2 := by
  induction steps generalizing here with
  | nil => exact hhere
  | cons step rest ih =>
    have hstep := h.position hempty (hfit step List.mem_cons_self) hhere
    rw [Position.run]
    rcases hoc : Position.step here step with ⟨_ | _, there⟩
    · rwa [hoc] at hstep
    · rw [hoc] at hstep
      exact ih (fun other hother =>
        hfit other (List.mem_cons_of_mem step hother)) hstep

end Keeps

end GraphQuery.Pattern
