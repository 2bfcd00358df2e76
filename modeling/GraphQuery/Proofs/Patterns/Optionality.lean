import GraphQuery.Proofs.Patterns.Fans
import GraphQuery.Proofs.Patterns.Intents
import Mathlib.Logic.Relation

/-!
# Optionality

A context is opened optionally or not, and it is optional if it or one of
those above it was.  Every step registers with the intent of one context,
which is the one it opens or the one it ascends from:
`Walk.optionality_is_inherited`.
-/

namespace GraphQuery.Pattern

open GraphQuery.Computation

/-- What is inherited between contexts: where one was opened, and whether it
is optional. -/
structure Limb where
  parent : Option ContextId
  optional : Bool
  deriving DecidableEq

def Context.limb (here : Context) : Limb := ⟨here.parent, here.optional⟩

/-- Contexts, without what they stand for. -/
def limbs (contexts : Array Context) : List Limb :=
  contexts.toList.map Context.limb

section

variable {contexts : Array Context}

/-- Every context has a limb. -/
theorem length_limbs : (limbs contexts).length = contexts.size := by
  rw [limbs, List.length_map, Array.length_toList]

/-- The limb at a place is that of the context there. -/
theorem getElem?_limbs (i : Nat) :
    (limbs contexts)[i]? = contexts[i]?.map Context.limb := by
  rw [limbs, List.getElem?_map, Array.getElem?_toList]

/-- A new context has the last limb. -/
theorem limbs_push (here : Context) :
    limbs (contexts.push here) = limbs contexts ++ [here.limb] := by
  rw [limbs, Array.toList_push, List.map_append]
  rfl

/-- Noting a node that was collected changes no limb. -/
theorem limbs_modify (c : ContextId) (own : String) :
    limbs (contexts.modify c fun context =>
      { context with children := context.children ++ [own] }) =
      limbs contexts := by
  apply List.ext_getElem?
  intro i
  rw [getElem?_limbs, getElem?_limbs, Array.getElem?_modify]
  split
  · rw [Option.map_map]
    rfl
  · rfl

end

/-- The contexts a step opens if it does not fail. -/
def WalkStep.opened (w : Walk) (c : ContextId) (step : WalkStep Assignment) :
    List Limb :=
  match step, w.contexts[c]? with
  | .addChildNode _ _ optional, some here =>
    [⟨some c, here.optional || optional⟩]
  | .addRelationship _ _ _ optional, some here =>
    match here.place with
    | .node _ _ _ => [⟨some c, here.optional || optional⟩]
    | .relationship _ _ _ _ =>
      [⟨some c, here.optional || optional⟩,
        ⟨some w.contexts.size, here.optional || optional⟩]
  | _, _ => []

/-- The guarantee that no context is opened and none is changed. -/
def still : Guarantee Walk where
  holds _ := True
  leads w v := v.contexts = w.contexts
  refl _ := rfl
  trans hleft hright := hright.trans hleft

namespace Walking

open Guarantee

/-- Registering opens no context. -/
theorem still_register {α : Type} (registration : Registration α) :
    still.Kept (register registration) := by
  intro w hw
  rw [exec_register]
  exact ⟨trivial, rfl, fun _ _ => trivial⟩

/-- Declarations open no context. -/
theorem withstands_still : Withstands still := fun call _ =>
    still_register call.perform

variable {w v : Walk} {c there : ContextId}

/-- What opens no context leaves the contexts as they are. -/
theorem contexts_of_still {α : Type} {x : Walking α}
    {outcome : Except Fault α} (hx : still.Kept x)
    (h : exec x w = (outcome, v)) : v.contexts = w.contexts := by
  have hkept := (hx w trivial).2.1
  rwa [h] at hkept

/-- A step that succeeds opens its contexts.  A relationship that is added
to another one opens two contexts, the second one from the first. -/
theorem limbs_of_move {step : WalkStep Assignment}
    (h : exec (step.move c) w = (.ok there, v)) :
    limbs v.contexts = limbs w.contexts ++ step.opened w c := by
  unfold WalkStep.opened
  cases step with
  | addChildNode given name optional =>
    obtain ⟨here, u, hcontext, hrest⟩ := exec_bind_eq_ok.mp h
    obtain ⟨hhere, rfl⟩ := exec_context_eq_ok hcontext
    obtain ⟨own, t, hmatch, hrest⟩ := exec_bind_eq_ok.mp hrest
    obtain ⟨child, _, henter, hrest⟩ := exec_bind_eq_ok.mp hrest
    cases henter
    obtain ⟨_, _, hadd, hrest⟩ := exec_bind_eq_ok.mp hrest
    cases hadd
    cases hrest
    rw [hhere]
    dsimp only
    rw [limbs_modify, limbs_push,
      contexts_of_still (withstands_still.matchNode _ _ _) hmatch]
    rfl
  | addRelationship given name direction optional =>
    obtain ⟨here, u, hcontext, hrest⟩ := exec_bind_eq_ok.mp h
    obtain ⟨hhere, rfl⟩ := exec_context_eq_ok hcontext
    rw [hhere]
    dsimp only at hrest ⊢
    cases hplace : here.place with
    | node parent own skipped =>
      rw [hplace] at hrest
      cases hrest
      exact limbs_push _
    | relationship origin types own arrow =>
      rw [hplace] at hrest
      obtain ⟨between, t, hmatch, hrest⟩ := exec_bind_eq_ok.mp hrest
      obtain ⟨middle, _, henter, hrest⟩ := exec_bind_eq_ok.mp hrest
      cases henter
      obtain ⟨_, _, hadd, hrest⟩ := exec_bind_eq_ok.mp hrest
      cases hadd
      cases hrest
      dsimp only
      rw [limbs_push, limbs_modify, limbs_push,
        contexts_of_still (withstands_still.matchNode _ _ _) hmatch,
        List.append_assoc]
      rfl
  | ascend =>
    rw [List.append_nil, contexts_of_still (withstands_still.ascend c) h]
  | store call =>
    have hstays : still.Kept (WalkStep.move c (.store call)) :=
      (still_register _).bind fun _ => kept_pure c
    rw [List.append_nil, contexts_of_still hstays h]
  | start | startAtNode | startOnRelationship | unknown => cases h

/-- A step that fails leaves the contexts alone. -/
theorem contexts_of_error {step : WalkStep Assignment} {fault : Fault}
    (h : exec (step.move c) w = (.error fault, v)) :
    v.contexts = w.contexts := by
  cases step with
  | addChildNode given name optional =>
    rcases exec_bind_eq_error.mp h with hcontext | ⟨here, u, hcontext, hrest⟩
    · exact contexts_of_still (kept_context c) hcontext
    · obtain ⟨hhere, rfl⟩ := exec_context_eq_ok hcontext
      rcases exec_bind_eq_error.mp hrest with hmatch | ⟨own, t, hmatch, hrest⟩
      · exact contexts_of_still (withstands_still.matchNode _ _ _) hmatch
      · cases hrest
  | addRelationship given name direction optional =>
    rcases exec_bind_eq_error.mp h with hcontext | ⟨here, u, hcontext, hrest⟩
    · exact contexts_of_still (kept_context c) hcontext
    · obtain ⟨hhere, rfl⟩ := exec_context_eq_ok hcontext
      dsimp only at hrest
      cases hplace : here.place with
      | node parent own skipped =>
        rw [hplace] at hrest
        cases hrest
      | relationship origin types own arrow =>
        rw [hplace] at hrest
        rcases exec_bind_eq_error.mp hrest with hmatch |
            ⟨between, t, hmatch, hrest⟩
        · exact contexts_of_still (withstands_still.matchNode _ _ _) hmatch
        · cases hrest
  | ascend => exact contexts_of_still (withstands_still.ascend c) h
  | store call =>
    have hstays : still.Kept (WalkStep.move c (.store call)) :=
      (still_register _).bind fun _ => kept_pure c
    exact contexts_of_still hstays h
  | start | startAtNode | startOnRelationship | unknown =>
    cases h
    rfl

end Walking

/-! ## Inheriting -/

/-- What a step is told about being optional; an ascent is told nothing. -/
def WalkStep.flag {α : Type} : WalkStep α → Bool
  | start _ _ optional | startAtNode _ _ optional | startOnRelationship
      _ _ _ optional => optional
  | addChildNode _ _ optional | addRelationship _ _ _ optional => optional
  | ascend | store _ | unknown _ => false

/-- Contexts and the flags they were opened with: the root has its own flag,
and every later one was opened from an earlier one and inherits from it. -/
inductive Inherits : List Limb → List Bool → Prop
  | root (flag : Bool) : Inherits [⟨none, flag⟩] [flag]
  | child {ls : List Limb} {flags : List Bool} {p : Nat} {above : Limb}
      (flag : Bool)
    (before : Inherits ls flags) (habove : ls[p]? = some above) :
    Inherits (ls ++ [⟨some p, above.optional || flag⟩]) (flags ++ [flag])

/-- A context that was opened with a flag, among others: the root, or one
opened from an earlier one. -/
inductive Limb.Follows (ls : List Limb) (i : Nat) (flag : Bool) : Limb → Prop
  | root (hi : i = 0) : Follows ls i flag ⟨none, flag⟩
  | below {p : Nat} {above : Limb} (hp : p < i)
    (habove : ls[p]? = some above) :
    Follows ls i flag ⟨some p, above.optional || flag⟩

/-- More contexts behind make no difference. -/
theorem Limb.Follows.append {ls : List Limb} {i : Nat} {flag : Bool}
    {limb : Limb} (h : limb.Follows ls i flag) (more : List Limb) :
    limb.Follows (ls ++ more) i flag := by
  cases h with
  | root hi => exact .root hi
  | below hp habove =>
    refine .below hp ?_
    rw [List.getElem?_append_left (List.getElem?_eq_some_iff.mp habove).1,
      habove]

namespace Inherits

variable {ls : List Limb} {flags : List Bool} {flag : Bool}

/-- There is a flag for every context. -/
theorem length (h : Inherits ls flags) : flags.length = ls.length := by
  induction h with
  | root => rfl
  | child flag _ _ ih =>
    rw [List.length_append, List.length_append, ih, List.length_singleton,
      List.length_singleton]

/-- Every context follows from those in front of it. -/
theorem follows (h : Inherits ls flags) {i : Nat} {limb : Limb}
    (hlimb : ls[i]? = some limb) :
    ∃ flag, flags[i]? = some flag ∧ limb.Follows ls i flag := by
  induction h generalizing i limb with
  | root flag =>
    match i with
    | 0 =>
      cases hlimb
      exact ⟨flag, rfl, .root rfl⟩
    | i + 1 => cases hlimb
  | @child ls flags p above flag before habove ih =>
    by_cases hi : i < ls.length
    · rw [List.getElem?_append_left hi] at hlimb
      obtain ⟨own, hown, hfollows⟩ := ih hlimb
      refine ⟨own, ?_, hfollows.append _⟩
      rw [List.getElem?_append_left (before.length ▸ hi), hown]
    · have hlt := (List.getElem?_eq_some_iff.mp hlimb).1
      rw [List.length_append, List.length_singleton] at hlt
      obtain rfl : i = ls.length := by omega
      rw [List.getElem?_concat_length] at hlimb
      cases hlimb
      have hp := (List.getElem?_eq_some_iff.mp habove).1
      refine ⟨flag, ?_, (Limb.Follows.below hp habove).append _⟩
      rw [← before.length, List.getElem?_concat_length]

/-- A context below the last one, opened with the same flag, is optional if
that one is. -/
theorem behind {first : Limb} (h : Inherits (ls ++ [first]) flags)
    (hflag : flag = true → first.optional = true) :
    Inherits (ls ++ [first, ⟨some ls.length, first.optional⟩])
    (flags ++ [flag]) := by
  have hsame : (first.optional || flag) = first.optional :=
    Bool.or_eq_left_iff_imp.mpr hflag
  have hbelow := h.child flag List.getElem?_concat_length
  rwa [hsame, List.append_assoc] at hbelow

/-- If the root was opened optionally, all contexts are optional. -/
theorem optional_of_root (h : Inherits ls flags)
    (hroot : flags[0]? = some true) {i : Nat} {limb : Limb}
    (hlimb : ls[i]? = some limb) : limb.optional = true := by
  induction i using Nat.strong_induction_on generalizing limb with
  | _ i ih =>
    obtain ⟨own, hown, hfollows⟩ := h.follows hlimb
    cases hfollows with
    | root hi =>
      subst hi
      exact Option.some.inj (hown.symm.trans hroot)
    | below hp habove =>
      dsimp only
      rw [ih _ hp habove, Bool.true_or]

/-- **A context is optional exactly if it or one above it was opened
optionally.**  The context above stands somewhere in front, so the induction
is a strong one. -/
theorem optional_iff (h : Inherits ls flags) {i : Nat} {limb : Limb}
    (hlimb : ls[i]? = some limb) :
    limb.optional = true ↔ ∃ a,
      Relation.ReflTransGen (fun c p => ∃ l : Limb, ls[c]? = some l ∧
        l.parent = some p) i a ∧
        flags[a]? = some true := by
  induction i using Nat.strong_induction_on generalizing limb with
  | _ i ih =>
    obtain ⟨own, hown, hfollows⟩ := h.follows hlimb
    constructor
    · intro hoptional
      cases hfollows with
      | root hi => exact ⟨i, .refl, hown.trans (congrArg some hoptional)⟩
      | @below p above hp habove =>
        rcases Bool.or_eq_true_iff.mp hoptional with hup | hself
        · obtain ⟨a, hpath, ha⟩ := (ih p hp habove).mp hup
          exact ⟨a, .head ⟨_, hlimb, rfl⟩ hpath, ha⟩
        · exact ⟨i, .refl, hown.trans (congrArg some hself)⟩
    · rintro ⟨a, hpath, ha⟩
      rcases hpath.cases_head with rfl | ⟨p, ⟨_, hsame, hparent⟩, hrest⟩
      · obtain rfl : own = true := Option.some.inj (hown.symm.trans ha)
        cases hfollows with
        | root => rfl
        | below => exact Bool.or_true _
      · obtain rfl := Option.some.inj (hlimb.symm.trans hsame)
        cases hfollows with
        | root => cases hparent
        | below hp habove =>
          cases hparent
          exact Bool.or_eq_true_iff.mpr
            (.inl ((ih p hp habove).mpr ⟨a, hrest, ha⟩))

end Inherits

/-- A step opens a context from an earlier one, and at most one more from
the first. -/
theorem WalkStep.opened_cases (w : Walk) (c : ContextId)
    (step : WalkStep Assignment) :
    step.opened w c = [] ∨ ∃ here, w.contexts[c]? = some here ∧
      (step.opened w c = [⟨some c, here.optional || step.flag⟩] ∨
        step.opened w c = [⟨some c, here.optional || step.flag⟩,
          ⟨some w.contexts.size, here.optional || step.flag⟩]) := by
  unfold opened
  cases hhere : w.contexts[c]? with
  | none => cases step <;> exact .inl rfl
  | some here =>
    cases step with
    | addChildNode => exact .inr ⟨here, rfl, .inl rfl⟩
    | addRelationship =>
      dsimp only
      cases here.place with
      | node => exact .inr ⟨here, rfl, .inl rfl⟩
      | relationship => exact .inr ⟨here, rfl, .inr rfl⟩
    | ascend | store | start | startAtNode | startOnRelationship | unknown =>
      exact .inl rfl

/-- What a step opens inherits from the contexts there are. -/
theorem Inherits.opened {w : Walk} {flags : List Bool}
    (h : Inherits (limbs w.contexts) flags) (c : ContextId)
    (step : WalkStep Assignment) :
    Inherits (limbs w.contexts ++ step.opened w c)
      (flags ++ List.replicate (step.opened w c).length step.flag) := by
  rcases step.opened_cases w c with hnone | ⟨here, hhere, hopened⟩
  · rw [hnone, List.append_nil, List.length_nil, List.replicate_zero,
      List.append_nil]
    exact h
  · have habove : (limbs w.contexts)[c]? = some here.limb := by
      rw [getElem?_limbs, hhere, Option.map_some]
    have hfirst := h.child step.flag habove
    rcases hopened with hone | htwo
    · rw [hone]
      exact hfirst
    · have hsecond := hfirst.behind fun hflag =>
        Bool.or_eq_true_iff.mpr (.inr hflag)
      rw [length_limbs, List.append_assoc] at hsecond
      rw [htwo]
      exact hsecond

/-- Whether what a step registers is matched optionally. -/
def WalkStep.optional (w : Walk) (c : ContextId)
    (step : WalkStep Assignment) : Bool :=
  match w.contexts[c]? with
  | some here => here.optional || step.flag
  | none => step.flag

/-- The context that what a step registers belongs to: the one it opens
first, or the one it ascends from. -/
def WalkStep.owner {α : Type} (w : Walk) (c : ContextId) : WalkStep α →
    ContextId
  | ascend => c
  | _ => w.contexts.size

/-- Whether a step is one of the walk itself, and not a call of its store. -/
def WalkStep.isOwn {α : Type} : WalkStep α → Bool
  | store _ => false
  | _ => true

/-- A fan is matched as its relationship is, optionally or not. -/
theorem optional?_of_mem_branchCalls {left base : String}
    {types : LabelArgument} {direction : Option Direction} {optional : Bool}
    {i : Nat} {rights : List String} {call : StoreCall Assignment}
    (h : call ∈ branchCalls left base types direction optional i rights) :
    call.optional? = some optional := by
  induction rights generalizing i with
  | nil => cases h
  | cons right rest ih =>
    rcases List.mem_cons.mp h with rfl | hrest
    · rfl
    · exact ih hrest

/-- All that an ascent asks for is matched as its relationship is,
optionally or not. -/
theorem optional?_of_mem_ascentCalls {w : Walk} {left : String}
    {types : LabelArgument} {name : Option String}
    {direction : Option Direction} {optional : Bool} {rights : List String}
    {call : StoreCall Assignment}
    (h : call ∈ w.ascentCalls left types name direction optional rights) :
    call.optional? = some optional := by
  cases rights with
  | nil =>
    rw [List.mem_singleton.mp h]
    rfl
  | cons first rest =>
    rw [Walk.ascentCalls] at h
    rcases List.mem_cons.mp h with rfl | hrest
    · rfl
    · split at hrest
      · exact optional?_of_mem_branchCalls hrest
      · cases hrest

/-- All calls of a step match optionally, or none of them does. -/
theorem WalkStep.optional?_of_mem_calls {w : Walk} {c : ContextId}
    {step : WalkStep Assignment} (hown : step.isOwn = true)
    {call : StoreCall Assignment} (hcall : call ∈ step.calls w c) :
    call.optional? = some (step.optional w c) := by
  unfold calls at hcall
  unfold WalkStep.optional
  cases hhere : w.contexts[c]? with
  | none =>
    rw [hhere] at hcall
    cases step with
    | store => cases hown
    | _ => cases hcall
  | some here =>
    rw [hhere] at hcall
    cases step with
    | addChildNode =>
      rw [List.mem_singleton.mp hcall]
      rfl
    | addRelationship =>
      dsimp only at hcall
      cases hplace : here.place with
      | node =>
        rw [hplace] at hcall
        cases hcall
      | relationship =>
        rw [hplace] at hcall
        rw [List.mem_singleton.mp hcall]
        rfl
    | ascend =>
      dsimp only at hcall
      cases hplace : here.place with
      | node =>
        rw [hplace] at hcall
        cases hcall
      | relationship origin =>
        rw [hplace] at hcall
        dsimp only at hcall
        split at hcall
        · cases hcall
        · rw [optional?_of_mem_ascentCalls hcall]
          exact congrArg some (Bool.or_false _).symm
    | store => cases hown
    | start | startAtNode | startOnRelationship | unknown => cases hcall

/-- What a step has declared when it ends, whether it failed or not. -/
def Leg.made (w : Walk) (leg : Leg) : List Declaration :=
  w.registry.made (leg.step.calls w leg.source)

section

variable {w v : Walk} {c : ContextId} {step : WalkStep Assignment}
    {outcome : Except Fault ContextId}

/-- What a step has made leads from store to store. -/
theorem applyAll_made_of_move (hown : step.isOwn = true)
    (h : exec (step.move c) w = (outcome, v)) :
    w.registry.store.applyAll (w.registry.made (step.calls w c)) =
      .ok v.registry.store := by
  have hregistry := (Walking.asks_move (w := w) c step).registry
  rw [h] at hregistry
  rw [hregistry]
  exact Registry.applyAll_made fun call hcall =>
    ⟨_, step.optional?_of_mem_calls hown hcall⟩

/-- A node that cannot be matched is not declared. -/
theorem made_of_matchNode_error {given : LabelArgument}
    {name : Option String} {optional : Bool} {fault : Fault}
    (h : exec (Walking.matchNode given name optional) w = (.error fault, v)) :
    w.registry.made [.matchNode given name optional] = [] := by
  rw [Walking.exec_matchNode] at h
  dsimp only at h
  rcases hexec : exec (StoreCall.matchNode given name optional).perform
      w.registry with
    ⟨fault | answer, r⟩
  · have hstops : StopsIn _ _ _ _ := StoreCall.stopsIn_of_matching rfl hexec
    have hlength := (Store.made_of_stopsIn hstops).2
    rw [Registry.made, hexec]
    exact List.append_eq_nil_iff.mpr
      ⟨List.length_eq_zero_iff.mp (Nat.lt_one_iff.mp hlength), rfl⟩
  · rw [hexec] at h
    cases h

/-- A node that is not added has declared nothing. -/
theorem made_of_addChildNode_error {here : Context} {given : LabelArgument}
    {name : Option String} {optional : Bool} {fault : Fault}
    (hhere : w.contexts[c]? = some here)
    (h : exec (Walking.addChildNode c given name optional) w =
      (.error fault, v)) :
    w.registry.made [.matchNode given name (here.optional || optional)] =
      [] := by
  rw [Walking.addChildNode, exec_bind, Walking.exec_context, hhere] at h
  rcases exec_bind_eq_error.mp h with hmatch | ⟨own, t, hmatch, hrest⟩
  · exact made_of_matchNode_error hmatch
  · cases hrest

/-- A relationship that is not added has declared nothing. -/
theorem made_of_addRelationship_error {here : Context}
    {types : LabelArgument} {name : Option String}
    {direction : Option Direction} {optional : Bool} {fault : Fault}
    (hhere : w.contexts[c]? = some here)
    (h : exec (Walking.addRelationship c types name direction optional) w =
      (.error fault, v)) :
    w.registry.made [.matchNode .none none (here.optional || optional)] =
      [] := by
  rw [Walking.addRelationship, exec_bind, Walking.exec_context, hhere] at h
  dsimp only at h
  split at h
  · cases h
  · rcases exec_bind_eq_error.mp h with hmatch | ⟨between, t, hmatch, hrest⟩
    · exact made_of_matchNode_error hmatch
    · cases hrest

/-- The first context a step opens. -/
theorem first_opened {limb : Limb} {rest : List Limb}
    (h : limbs v.contexts = limbs w.contexts ++ limb :: rest) :
    ∃ here, v.contexts[w.contexts.size]? = some here ∧
    here.optional = limb.optional := by
  have hfirst : (limbs v.contexts)[w.contexts.size]? = some limb := by
    rw [h, ← length_limbs, List.getElem?_append_right (Nat.le_refl _),
      Nat.sub_self]
    rfl
  rw [getElem?_limbs] at hfirst
  obtain ⟨here, hhere, rfl⟩ := Option.map_eq_some_iff.mp hfirst
  exact ⟨here, hhere, rfl⟩

/-- If a step declares anything, it belongs to a context.  An ascent
declares for the context it leaves, a descent for the first one it opens. -/
theorem owner_of_move (hown : step.isOwn = true)
    (h : exec (step.move c) w = (outcome, v))
    (hmade : w.registry.made (step.calls w c) ≠ []) :
    ∃ here, v.contexts[step.owner w c]? = some here ∧
    here.optional = step.optional w c := by
  unfold WalkStep.optional
  unfold WalkStep.calls at hmade
  cases hhere : w.contexts[c]? with
  | none =>
    rw [hhere] at hmade
    cases step with
    | store => cases hown
    | _ => exact absurd rfl hmade
  | some here =>
    rw [hhere] at hmade
    cases step with
    | store => cases hown
    | start | startAtNode | startOnRelationship | unknown =>
      exact absurd rfl hmade
    | ascend =>
      rw [WalkStep.owner,
        Walking.contexts_of_still (Walking.withstands_still.ascend c) h]
      exact ⟨here, hhere, (Bool.or_false _).symm⟩
    | addChildNode =>
      cases outcome with
      | error fault => exact absurd (made_of_addChildNode_error hhere h) hmade
      | ok there =>
        have hlimbs := Walking.limbs_of_move h
        unfold WalkStep.opened at hlimbs
        rw [hhere] at hlimbs
        exact first_opened hlimbs
    | addRelationship =>
      dsimp only at hmade
      cases hplace : here.place with
      | node =>
        rw [hplace] at hmade
        exact absurd rfl hmade
      | relationship =>
        rw [hplace] at hmade
        cases outcome with
        | error fault =>
          exact absurd (made_of_addRelationship_error hhere h) hmade
        | ok there =>
          have hlimbs := Walking.limbs_of_move h
          unfold WalkStep.opened at hlimbs
          rw [hhere] at hlimbs
          dsimp only at hlimbs
          rw [hplace] at hlimbs
          exact first_opened hlimbs

end

/-! ## Along a walk -/

/-- A walk, and for each of its contexts the flag it was opened with. -/
structure Flagged where
  walk : Walk
  flags : List Bool

namespace Flagged

/-- A walk that has just begun. -/
def begun (start : Walk) (flag : Bool) : Flagged :=
  ⟨start, List.replicate start.contexts.size flag⟩

/-- Take a step, whether it fails or not.  What it opens gets its flag. -/
def take (f : Flagged) (leg : Leg) : Flagged :=
  let w := (exec (leg.step.move leg.source) f.walk).2
  ⟨w, f.flags ++ List.replicate (w.contexts.size - f.walk.contexts.size)
    leg.step.flag⟩

def after (f : Flagged) (legs : List Leg) : Flagged := legs.foldl take f

/-- A walk that is sound and whose contexts inherit. -/
structure Fine (f : Flagged) : Prop where
  sound : f.walk.Sound
  inherits : Inherits (limbs f.walk.contexts) f.flags

/-- A walk all of whose contexts are optional, and what they registered too. -/
structure Lenient (f : Flagged) : Prop extends Fine f where
  root : f.flags[0]? = some true
  entries : ∀ entry ∈ f.walk.registry.store.entries,
    entry.intent = .toMatchOptionally

variable {f : Flagged}

/-- A leg leaves a walk fine. -/
theorem Fine.take (h : f.Fine) (leg : Leg) : (f.take leg).Fine where
  sound := (Walking.kept_move leg.source leg.step f.walk h.sound).1
  inherits := by
    unfold Flagged.take
    rcases hexec : exec (leg.step.move leg.source) f.walk with
        ⟨fault | there, v⟩
    · dsimp only
      rw [Walking.contexts_of_error hexec, Nat.sub_self, List.replicate_zero,
        List.append_nil]
      exact h.inherits
    · have hlimbs := Walking.limbs_of_move hexec
      have hsize := congrArg List.length hlimbs
      rw [List.length_append, length_limbs, length_limbs] at hsize
      dsimp only
      rw [hsize, Nat.add_sub_cancel_left, hlimbs]
      exact h.inherits.opened leg.source leg.step

/-- Legs leave a walk fine. -/
theorem Fine.after (h : f.Fine) (legs : List Leg) : (f.after legs).Fine := by
  induction legs generalizing f with
  | nil => exact h
  | cons leg rest ih => exact ih (h.take leg)

/-- What a step declares has the intent of a context. -/
theorem intent_of_made {leg : Leg} (hown : leg.step.isOwn = true)
    {d : Declaration} (hd : d ∈ leg.made f.walk) :
    ∃ here, (f.take leg).walk.contexts[leg.step.owner f.walk leg.source]? =
      some here ∧
      d.intent = .matching here.optional := by
  obtain ⟨here, hhere, hoptional⟩ :=
    owner_of_move hown rfl (List.ne_nil_of_mem hd)
  refine ⟨here, hhere, ?_⟩
  rw [hoptional]
  exact Registry.intent_of_made (fun call hcall =>
    leg.step.optional?_of_mem_calls hown hcall) hd

/-- What a leg declares has the intent of the context it belongs to. -/
theorem intentOf?_of_made (h : f.Fine) {leg : Leg}
    (hown : leg.step.isOwn = true) {d : Declaration}
    (hd : d ∈ leg.made f.walk) {name : String} (hname : d.name? = some name) :
    ∃ here, (f.take leg).walk.contexts[leg.step.owner f.walk leg.source]? =
      some here ∧
      (f.take leg).walk.registry.store.intentOf? name =
        some (.matching here.optional) := by
  obtain ⟨here, hhere, hintent⟩ := intent_of_made hown hd
  refine ⟨here, hhere, ?_⟩
  refine h.sound.indexed.intentOf?_applyAll (applyAll_made_of_move hown rfl)
    (fun e he => ?_)
    (.inr ⟨d, hd, hname⟩)
  obtain ⟨other, hother, hsame⟩ := intent_of_made hown he
  rw [hsame, Option.some.inj (hother.symm.trans hhere)]

/-- A leg leaves a walk lenient. -/
theorem Lenient.take (h : f.Lenient) {leg : Leg}
    (hown : leg.step.isOwn = true) :
    (f.take leg).Lenient := by
  have hfine := h.toFine.take leg
  have hroot : (f.take leg).flags[0]? = some true := by
    rw [Flagged.take,
      List.getElem?_append_left (List.getElem?_eq_some_iff.mp h.root).1]
    exact h.root
  refine ⟨hfine, hroot, ?_⟩
  refine Store.intent_of_applyAll (applyAll_made_of_move hown rfl)
    (fun d hd => ?_) h.entries
  obtain ⟨here, hhere, hintent⟩ := intent_of_made hown hd
  have hlimb :
      (limbs (f.take leg).walk.contexts)[leg.step.owner f.walk leg.source]? =
      some here.limb := by
    rw [getElem?_limbs, hhere]
    rfl
  have hoptional : here.optional = true :=
    hfine.inherits.optional_of_root hroot hlimb
  rw [hintent, hoptional]
  rfl

/-- Legs leave a walk lenient. -/
theorem Lenient.after (h : f.Lenient) {legs : List Leg}
    (hown : ∀ leg ∈ legs, leg.step.isOwn = true) :
    (f.after legs).Lenient := by
  induction legs generalizing f with
  | nil => exact h
  | cons leg rest ih =>
    exact ih (h.take (hown leg List.mem_cons_self)) fun leg hmem =>
      hown leg (List.mem_cons_of_mem _ hmem)

end Flagged

/-! ## The beginning of a walk -/

namespace Walking

variable {w v : Walk} {c : ContextId}

/-- A walk that starts at a node has one limb, with the flag of the start. -/
theorem limbs_of_startAtNode {given : LabelArgument} {name : Option String}
    {optional : Bool} (hw : w.registry.store.Indexed)
    (hempty : w.contexts = #[])
    (h : exec (startAtNode given name optional) w = (.ok c, v)) :
    limbs v.contexts = [⟨none, optional⟩] := by
  obtain ⟨-, -, own, hcontexts⟩ := contexts_of_startAtNode hw h
  rw [hcontexts, limbs_push, hempty]
  rfl

/-- A walk that starts on a relationship has one limb more below the first. -/
theorem limbs_of_startOnRelationship {types : LabelArgument}
    {name : Option String} {direction : Option Direction} {optional : Bool}
    (hw : w.registry.store.Indexed) (hempty : w.contexts = #[])
    (h : exec (startOnRelationship types name direction optional) w =
      (.ok c, v)) :
    limbs v.contexts = [⟨none, optional⟩, ⟨some 0, optional⟩] := by
  obtain ⟨-, -, own, hcontexts⟩ := contexts_of_startOnRelationship hw h
  rw [hcontexts, limbs_push, limbs_push, hempty]
  rfl

/-- A walk begins with its root, and with a relationship that leaves it if
it starts on one. -/
theorem limbs_of_starting {step : WalkStep Assignment}
    {starting : Walking ContextId} (hw : w.registry.store.Indexed)
    (hempty : w.contexts = #[]) (hstarting : step.starting? = some starting)
    (h : exec starting w = (.ok c, v)) :
    limbs v.contexts = [⟨none, step.flag⟩] ∨
      limbs v.contexts = [⟨none, step.flag⟩, ⟨some 0, step.flag⟩] := by
  cases step with
  | start given name optional =>
    cases hstarting
    cases given with
    | none | many => exact .inl (limbs_of_startAtNode hw hempty h)
    | one token =>
      rw [start] at h
      split at h
      · exact .inr (limbs_of_startOnRelationship hw hempty h)
      · exact .inl (limbs_of_startAtNode hw hempty h)
  | startAtNode =>
    cases hstarting
    exact .inl (limbs_of_startAtNode hw hempty h)
  | startOnRelationship =>
    cases hstarting
    exact .inr (limbs_of_startOnRelationship hw hempty h)
  | addChildNode | addRelationship | ascend | store | unknown =>
    cases hstarting

end Walking

/-- A start asks for what it asks for with its own flag. -/
theorem WalkStep.optional?_of_mem_openingCalls {step : WalkStep Assignment}
    {call : StoreCall Assignment} (hcall : call ∈ step.openingCalls) :
    call.optional? = some step.flag := by
  cases step with
  | start given name optional =>
    cases given with
    | none | many =>
      rw [List.mem_singleton.mp hcall]
      rfl
    | one token =>
      rw [openingCalls] at hcall
      split at hcall
      all_goals
        rw [List.mem_singleton.mp hcall]
        rfl
  | startAtNode | startOnRelationship =>
    rw [List.mem_singleton.mp hcall]
    rfl
  | addChildNode | addRelationship | ascend | store | unknown => cases hcall

namespace Flagged

variable {here : Option Position} {opening : WalkStep Assignment}
    {start : Walk} {c : ContextId}

/-- A walk that has just begun is fine. -/
theorem fine_begun (hopening : opening.starting?.isSome = true)
    (hstart : Position.step here opening = (.ok (), some ⟨start, c⟩)) :
    (begun start opening.flag).Fine where
  sound := Walk.sound_of_starting hopening hstart
  inherits := by
    obtain ⟨starting, hstarting⟩ := Option.isSome_iff_exists.mp hopening
    obtain ⟨log, hexec⟩ := Position.exec_of_starting hstarting hstart
    have hroot : Inherits ([] ++ [⟨none, opening.flag⟩]) [opening.flag] :=
      .root opening.flag
    rw [begun, ← length_limbs]
    rcases Walking.limbs_of_starting Store.indexed_empty rfl hstarting
        hexec with hone | htwo
    · rw [hone]
      exact hroot
    · rw [htwo]
      exact hroot.behind id

/-- All of a walk is optional if its root is opened so. -/
theorem lenient_begun (hopening : opening.starting?.isSome = true)
    (hstart : Position.step here opening = (.ok (), some ⟨start, c⟩))
    (hflag : opening.flag = true) :
    (begun start opening.flag).Lenient := by
  have hfine := fine_begun hopening hstart
  obtain ⟨starting, hstarting⟩ := Option.isSome_iff_exists.mp hopening
  obtain ⟨log, hexec⟩ := Position.exec_of_starting hstarting hstart
  refine ⟨hfine, ?_, ?_⟩
  · have hsize : 0 < start.contexts.size := by
      rw [← length_limbs]
      rcases Walking.limbs_of_starting Store.indexed_empty rfl hstarting
          hexec with hone | htwo
      · rw [hone]
        exact Nat.one_pos
      · rw [htwo]
        exact Nat.two_pos
    rw [begun, List.getElem?_replicate, if_pos hsize, hflag]
  · have hregistry :=
      (Walking.asks_opening (w := { registry := { log } }) hstarting).registry
    rw [hexec] at hregistry
    have hcalls : ∀ call ∈ opening.openingCalls,
        call.optional? = some opening.flag :=
      fun call hcall => WalkStep.optional?_of_mem_openingCalls hcall
    have happly := Registry.applyAll_made (r := { log }) fun call hcall =>
      ⟨_, hcalls call hcall⟩
    rw [← hregistry] at happly
    refine Store.intent_of_applyAll happly (fun d hd =>
      ?_) fun entry hentry => by
      cases hentry
    rw [Registry.intent_of_made hcalls hd, hflag]
    rfl

end Flagged

/-- One context was opened from another. -/
def Walk.OpenedFrom (w : Walk) (c parent : ContextId) : Prop :=
  ∃ here, w.contexts[c]? = some here ∧ here.parent = some parent

/-- Where a context was opened is told by its limb. -/
theorem Walk.openedFrom_iff {w : Walk} {c parent : ContextId} :
    w.OpenedFrom c parent ↔
      ∃ limb : Limb, (limbs w.contexts)[c]? = some limb ∧
      limb.parent = some parent := by
  constructor
  · rintro ⟨here, hhere, hparent⟩
    exact ⟨here.limb, by rw [getElem?_limbs, hhere, Option.map_some], hparent⟩
  · rintro ⟨limb, hlimb, hparent⟩
    rw [getElem?_limbs] at hlimb
    obtain ⟨here, hhere, rfl⟩ := Option.map_eq_some_iff.mp hlimb
    exact ⟨here, hhere, hparent⟩

/-- A context of a fine walk is optional exactly if it or one above it was
opened optionally. -/
theorem Flagged.Fine.optional_iff {f : Flagged} (h : f.Fine) {c : ContextId}
    {here : Context} (hhere : f.walk.contexts[c]? = some here) :
    here.optional = true ↔
      ∃ above, Relation.ReflTransGen f.walk.OpenedFrom c above ∧
      f.flags[above]? = some true := by
  have hlimb : (limbs f.walk.contexts)[c]? = some here.limb := by
    rw [getElem?_limbs, hhere, Option.map_some]
  have hopened : f.walk.OpenedFrom = fun c parent =>
      ∃ limb : Limb, (limbs f.walk.contexts)[c]? = some limb ∧
      limb.parent = some parent := by
    funext c parent
    exact propext Walk.openedFrom_iff
  rw [hopened]
  exact h.inherits.optional_iff hlimb

/-- **Optionality is inherited along the whole path.**  On a walk that
begins a new tree and takes any steps from any of its contexts, whether they
fail or not, a context is optional exactly if it or one of those it was
opened from was opened optionally.  What a next step of the walk does to the
store is to make declarations, and when it ends the name of each of them is
matched optionally exactly if the context it belongs to is optional.  If the
root is optional and the walk is the only one to register in the store,
nothing is matched strictly. -/
theorem Walk.optionality_is_inherited {here : Option Position}
    {opening : WalkStep Assignment} {start : Walk} {c : ContextId}
    (hopening : opening.starting?.isSome = true)
    (hstart : Position.step here opening = (.ok (), some ⟨start, c⟩))
    (legs : List Leg) :
    let f := (Flagged.begun start opening.flag).after legs
    (∀ d found, f.walk.contexts[d]? = some found →
      (found.optional = true ↔
        ∃ above, Relation.ReflTransGen f.walk.OpenedFrom d above ∧
        f.flags[above]? = some true)) ∧
    (∀ leg : Leg, leg.step.isOwn = true →
      f.walk.registry.store.applyAll (leg.made f.walk) =
        .ok (f.take leg).walk.registry.store ∧
      ∀ d ∈ leg.made f.walk, ∀ name, d.name? = some name →
        ∃ owner, (f.take leg).walk.contexts[leg.step.owner
          f.walk leg.source]? = some owner ∧
          (f.take leg).walk.registry.store.intentOf? name =
            some (.matching owner.optional)) ∧
    (opening.flag = true → (∀ leg ∈ legs, leg.step.isOwn = true) →
      f.walk.registry.store.chunk .matchedStrictly = []) := by
  have hfine := (Flagged.fine_begun hopening hstart).after legs
  refine ⟨fun d found hfound => hfine.optional_iff hfound, fun leg hown =>
    ?_, fun hflag hown => ?_⟩
  · exact ⟨applyAll_made_of_move hown rfl, fun d hd name hname =>
      Flagged.intentOf?_of_made hfine hown hd hname⟩
  · have hlenient := (Flagged.lenient_begun hopening hstart hflag).after hown
    exact Store.chunk_eq_nil hlenient.entries (by decide)

/-- A friend of a person, who is optional because the relationship to them
is; and a tree whose root is optional, where all is. -/
theorem Walk.optionality_is_inherited_of_friend :
    let relationship : Leg :=
      ⟨0, .addRelationship (.one "KNOWS") none none true⟩
    let friend : Leg := ⟨1, .addChildNode (.one "Person") (some "q") false⟩
    let f := (Flagged.begun person.walk false).after [relationship]
    let root :=
      (Position.step none (.startAtNode (.one "Person") none true)).2.getD
        default
    (∃ above, Relation.ReflTransGen (f.take friend).walk.OpenedFrom 2 above ∧
      (f.take friend).flags[above]? = some true) ∧
    (f.take friend).walk.registry.store.intentOf? "q" =
      some (.matching true) ∧
    ((Flagged.begun root.walk true).after [relationship,
      friend]).walk.registry.store.chunk
      .matchedStrictly = [] := by
  intro relationship friend f root
  have hperson :
      Position.step none (.startAtNode (.one "Person") (some "p") false) =
      (.ok (), some ⟨person.walk, person.context⟩) :=
    Position.step_eq_ok (by decide +kernel) (by decide +kernel)
  have hroot : Position.step none (.startAtNode (.one "Person") none true) =
      (.ok (), some ⟨root.walk, root.context⟩) :=
    Position.step_eq_ok (by decide +kernel) (by decide +kernel)
  obtain ⟨here, hhere⟩ : ∃ here,
      (f.take friend).walk.contexts[2]? = some here :=
    Option.isSome_iff_exists.mp (by decide +kernel)
  have hoptional : (f.take friend).walk.contexts[2]?.map Context.optional =
      some true := by
    decide +kernel
  rw [hhere] at hoptional
  obtain ⟨hinherited, -⟩ :=
    optionality_is_inherited rfl hperson [relationship, friend]
  obtain ⟨-, hown, -⟩ := optionality_is_inherited rfl hperson [relationship]
  obtain ⟨-, -, hlenient⟩ :=
    optionality_is_inherited rfl hroot [relationship, friend]
  refine ⟨(hinherited 2 here hhere).mp (Option.some.inj hoptional), ?_, ?_⟩
  · have hmade : friend.made f.walk =
        [.node "q" ["Person"] [] (.matching true)] := rfl
    obtain ⟨owner, howner, hintent⟩ :=
      (hown friend rfl).2 _ (hmade ▸ List.mem_singleton_self _) "q" rfl
    obtain rfl : here = owner := Option.some.inj (hhere.symm.trans howner)
    rwa [Option.some.inj hoptional] at hintent
  · exact hlenient rfl fun leg hleg => by
      rcases List.mem_cons.mp hleg with rfl | hlast
      · rfl
      · rw [List.mem_singleton.mp hlast]
        rfl

end GraphQuery.Pattern
