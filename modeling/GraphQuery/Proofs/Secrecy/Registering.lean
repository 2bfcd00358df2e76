import GraphQuery.Pattern.Walk
import GraphQuery.Proofs.Secrecy.Alike
import GraphQuery.Proofs.Secrecy.Blank

/-!
# Registering does not look at values

Registrations that differ in the values of properties alone cannot be told
apart: they name the same elements, draw the same anonymous names and log
the same events (`Pattern.Registration.alike_node` and the lemmas after it).
So it is with walks: `Pattern.Position.run_alike`.
-/

namespace GraphQuery

/-- Outcomes that are the same under a tag are alike under it. -/
theorem Likeness.Outcomes.of_map_eq {σ α β : Type} {L : Likeness σ}
    {tag : α → β} {r r' : Except Fault α}
    (hfaults : ∀ fault, L.faults fault fault) (h : r.map tag = r'.map tag) :
    L.Outcomes (fun a b => tag a = tag b) r r' := by
  cases r with
  | ok a =>
    cases r' with
    | ok b => exact .ok (Except.ok.inj h)
    | error fault => cases h
  | error fault =>
    cases r' with
    | ok b => cases h
    | error fault' =>
      obtain rfl : fault = fault' := Except.error.inj h
      exact .error (hfaults fault)

namespace Pattern

namespace Element

/-- Blanking leaves the name of an element. -/
theorem name?_blank (e : Element) : e.blank.name? = e.name? := by
  cases e <;> rfl

/-- Elements that differ in values alone have the same name. -/
theorem name?_eq_of_blank_eq {e e' : Element} (h : e.blank = e'.blank) :
    e.name? = e'.name? := by
  rw [← name?_blank, h, name?_blank]

/-- Properties can be given before or after blanking. -/
theorem assign_blank (e : Element) (assignments : List Assignment) :
    e.blank.assign (assignments.map Assignment.blank) =
      (e.assign assignments).blank := by
  cases e with
  | node n => simp [blank, assign]
  | relationship r => simp [blank, assign]
  | raw _ | misplaced _ => rfl

end Element

namespace Store

variable {s s' : Store} {properties properties' : List Assignment}

/-- Blanking leaves the size of a store. -/
theorem size_blank (s : Store) : s.blank.size = s.size := by
  simp [blank, size]

/-- A name stands for the blanked entry. -/
theorem find?_blank (s : Store) (name : String) :
    s.blank.find? name = (s.find? name).map Entry.blank := by
  rw [find?, find?, Option.map_bind]
  apply congrArg
  funext i
  exact List.getElem?_map

/-- An entry can be added before or after blanking. -/
theorem push_blank (s : Store) (entry : Entry) :
    (s.push entry).blank = s.blank.push entry.blank := by
  simp [push, blank]

/-- An entry with a name can be added before or after blanking. -/
theorem pushNamed_blank (s : Store) (name : String) (entry : Entry) :
    (s.pushNamed name entry).blank = s.blank.pushNamed name entry.blank := by
  simp [pushNamed, blank]

/-- An entry can be replaced before or after blanking. -/
theorem replace_blank (s : Store) (name : String) (entry : Entry) :
    (s.replace name entry).blank = s.blank.replace name entry.blank := by
  have hpositions : s.blank.positions = s.positions := rfl
  rw [replace, replace, hpositions]
  cases s.positions.lookup name with
  | none => rfl
  | some i => simp [blank, List.map_set]

/-- What is left of a declaration without its values. -/
def blankPair (declared : Element × Store) : Element × Store :=
  (declared.1.blank, declared.2.blank)

/-- A node can be declared before or after blanking. -/
theorem declareNode_blank (s : Store) (name : String) (labels : List String)
    (properties : List Assignment) (intent : Intent) :
    s.blank.declareNode name labels (properties.map Assignment.blank) intent =
      (s.declareNode name labels properties intent).map blankPair := by
  rw [declareNode, declareNode, find?_blank]
  rcases s.find? name with _ | ⟨_ | _ | _ | _, _⟩
  · simp [blankPair, Except.map, pushNamed_blank, Element.blank, Entry.blank]
  · simp [blankPair, Except.map, replace_blank, Element.blank, Entry.blank]
  all_goals rfl

/-- A relationship can be declared before or after blanking. -/
theorem declareRelationship_blank (s : Store) (new : Relationship)
    (intent : Intent) :
    s.blank.declareRelationship
        { new with properties := new.properties.map Assignment.blank }
          intent =
      (s.declareRelationship new intent).map blankPair := by
  rw [declareRelationship, declareRelationship, find?_blank]
  rcases s.find? new.name with _ | ⟨_ | _ | _ | _, _⟩
  · simp [blankPair, Except.map, pushNamed_blank, Element.blank, Entry.blank]
  · rfl
  · simp [blankPair, Except.map, replace_blank, Element.blank, Entry.blank]
  all_goals rfl

/-- An element of a store can be given properties before or after blanking. -/
theorem assign_blank (s : Store) (name : String)
    (properties : List Assignment) (intent : Intent) :
    s.blank.assign name (properties.map Assignment.blank) intent =
      (s.assign name properties intent).map blankPair := by
  rw [assign, assign, find?_blank]
  cases s.find? name with
  | none => rfl
  | some entry => simp [blankPair, Except.map, replace_blank, Entry.blank,
      Element.assign_blank]

end Store

/-- Two registries are the same but for the values of properties. -/
structure Registry.Like (r r' : Registry) : Prop where
  store : r.store.blank = r'.store.blank
  names : r.names = r'.names
  log : r.log = r'.log

namespace Registration

open Likeness

/-- Registries are compared without values, and so are faults. -/
def likeness : Likeness Registry where
  states := Registry.Like
  faults fault fault' := fault.blank = fault'.blank

/-- No fault of a registration is an excuse. -/
theorem strict (fault : Fault) : ¬ likeness.excused fault := id

/-- Elements are compared without values. -/
abbrev SameElement (e e' : Element) : Prop := e.blank = e'.blank

variable {properties properties' : List Assignment}

/-- A name is drawn alike. -/
theorem alike_drawName : likeness.Alike Eq drawName drawName := by
  apply alike_modifyGet
  intro r r' h
  dsimp only
  rw [h.names]
  exact ⟨⟨h.store, rfl, h.log⟩, rfl⟩

/-- A name and labels are read alike. -/
theorem alike_resolve (sort : ElementSort) (given : LabelArgument)
    (name : Option String) :
    likeness.Alike Eq (resolve sort given name)
    (resolve sort given name) := by
  apply alike_modifyGet
  intro r r' h
  dsimp only
  rw [h.names]
  rcases decode sort given name r'.names with ⟨resolved, names⟩
  exact ⟨⟨h.store, rfl, h.log⟩, rfl⟩

/-- A declaration that does not look at values cannot be told apart from
another such one. -/
theorem alike_declare (kind name : String) (intent : Intent)
    {declaration declaration' : Store → Except Fault (Element × Store)}
    (h : ∀ s s', s.blank = s'.blank →
      (declaration s).map Store.blankPair =
        (declaration' s').map Store.blankPair) :
    likeness.Alike SameElement (declare kind name intent declaration)
      (declare kind name intent declaration') := by
  apply alike_get_bind
  intro r r' hr
  refine (alike_lift
    (Outcomes.of_map_eq (fun _ => rfl) (h _ _ hr.store))).bind ?_
  rintro ⟨element, store⟩ ⟨element', store'⟩ hpair
  have helement : element.blank = element'.blank := congrArg Prod.fst hpair
  have hstore : store.blank = store'.blank := congrArg Prod.snd hpair
  have hsize : store.size = store'.size := by
    rw [← Store.size_blank, hstore, Store.size_blank]
  have hsize' : r.store.size = r'.store.size := by
    rw [← Store.size_blank, hr.store, Store.size_blank]
  dsimp only
  rw [hsize, hsize', hr.log]
  refine (alike_set ?_).bind fun _ _ _ => alike_pure helement
  exact ⟨hstore, hr.names, rfl⟩

/-- A node is registered alike, whatever values it is given. -/
theorem alike_node (given : LabelArgument) (name : Option String)
    (intent : Intent)
    (h : properties.map Assignment.blank = properties'.map Assignment.blank) :
    likeness.Alike SameElement (node given name intent properties)
      (node given name intent properties') := by
  refine (alike_resolve _ _ _).bind ?_
  rintro ⟨resolved, labels⟩ _ rfl
  apply alike_declare
  intro s s' hs
  rw [← Store.declareNode_blank, hs, h, Store.declareNode_blank]

/-- An end is registered alike. -/
theorem alike_endpoint (given : Option String) (intent : Intent) :
    likeness.Alike Eq (endpoint given intent) (endpoint given intent) := by
  unfold endpoint
  split
  · exact alike_drawName
  · refine (alike_resolve _ _ _).bind ?_
    rintro ⟨name, labels⟩ _ rfl
    dsimp only
    split
    · exact (alike_node _ _ _ rfl).bind fun _ _ _ => alike_pure rfl
    · exact alike_pure rfl

/-- A relationship is registered alike, whatever values it is given. -/
theorem alike_relationship (left right : Option String)
    (given : LabelArgument) (name : Option String)
    (direction : Option Direction) (intent : Intent)
    (h : properties.map Assignment.blank = properties'.map Assignment.blank) :
    likeness.Alike SameElement
      (relationship left right given name direction intent properties)
      (relationship left right given name direction intent properties') := by
  unfold relationship
  rcases extractDirection given.labels with ⟨types, marked⟩
  refine (alike_endpoint _ _).bind ?_
  rintro left _ rfl
  refine (alike_endpoint _ _).bind ?_
  rintro right _ rfl
  refine (alike_resolve _ _ _).bind ?_
  rintro ⟨resolved, types⟩ _ rfl
  apply alike_declare
  intro s s' hs
  rw [← Store.declareRelationship_blank, ← Store.declareRelationship_blank,
    hs]
  dsimp only
  rw [h]

/-- A fragment is registered alike. -/
theorem alike_raw (text : String) (intent : Intent) :
    likeness.Alike SameElement (raw text intent) (raw text intent) := by
  refine (alike_modify fun r r' hr => ?_).bind fun _ _ _ => alike_pure rfl
  have hstore : (r.store.push ⟨.raw text, intent⟩).blank =
      (r'.store.push ⟨.raw text, intent⟩).blank := by
    rw [Store.push_blank, hr.store, Store.push_blank]
  exact ⟨hstore, hr.names, hr.log⟩

/-- Properties are given alike, whatever their values. -/
theorem alike_assign (name : String) (intent : Intent)
    (h : properties.map Assignment.blank = properties'.map Assignment.blank) :
    likeness.Alike SameElement (assign name properties intent)
    (assign name properties' intent) := by
  apply alike_get_bind
  intro r r' hr
  have hassign : (r.store.assign name properties intent).map Store.blankPair =
      (r'.store.assign name properties' intent).map Store.blankPair := by
    rw [← Store.assign_blank, hr.store, h, Store.assign_blank]
  refine (alike_lift (Outcomes.of_map_eq (fun _ => rfl) hassign)).bind ?_
  rintro ⟨element, store⟩ ⟨element', store'⟩ hpair
  have helement : element.blank = element'.blank := congrArg Prod.fst hpair
  have hstore : store.blank = store'.blank := congrArg Prod.snd hpair
  refine (alike_set ?_).bind fun _ _ _ => alike_pure helement
  exact ⟨hstore, hr.names, hr.log⟩

/-- A node is created or merged alike. -/
theorem alike_writtenNode (writing : Writing) (given : LabelArgument)
    (name : Option String)
    (h : properties.map Assignment.blank = properties'.map Assignment.blank) :
    likeness.Alike SameElement (writtenNode writing given name properties)
      (writtenNode writing given name properties') := by
  refine (alike_lift (Outcomes.of_eq fun _ => rfl)).bind ?_
  rintro labels _ rfl
  exact alike_node _ _ _ h

/-- A relationship is created or merged alike. -/
theorem alike_writtenRelationship (writing : Writing)
    (left right : Option String) (given : LabelArgument)
    (name : Option String) (direction : Option Direction)
    (h : properties.map Assignment.blank = properties'.map Assignment.blank) :
    likeness.Alike SameElement
      (writtenRelationship writing left right given name direction properties)
      (writtenRelationship writing left right given name
        direction properties') := by
  refine (alike_lift (Outcomes.of_eq fun _ => rfl)).bind ?_
  rintro types _ rfl
  exact alike_relationship _ _ _ _ _ _ h

end Registration

open Likeness

/-- A call of a store without the values it gives. -/
def StoreCall.blank (call : StoreCall Assignment) : StoreCall Assignment :=
  call.withProperties (call.properties.map Assignment.blank)

/-- **A call of a store does not look at values.** -/
theorem StoreCall.alike_perform (call : StoreCall Assignment) :
    Registration.likeness.Alike (fun _ _ => True) call.perform
      call.blank.perform := by
  have hblank : ∀ properties : List Assignment,
      properties.map Assignment.blank =
      (properties.map Assignment.blank).map Assignment.blank := by
    intro properties
    rw [List.map_map]
    exact List.map_congr_left fun a _ => a.blank_blank.symm
  cases call with
  | matchNode =>
    exact (Registration.alike_node _ _ _ rfl).bind fun _ _ _ =>
      alike_pure trivial
  | matchRelationship =>
    exact (Registration.alike_relationship _ _ _ _ _ _ rfl).bind fun _ _ _ =>
      alike_pure trivial
  | matchRaw | writeRaw =>
    exact (Registration.alike_raw _ _).bind fun _ _ _ => alike_pure trivial
  | writeNode =>
    exact (Registration.alike_writtenNode _ _ _ (hblank _)).bind fun _ _ _ =>
      alike_pure trivial
  | writeRelationship =>
    exact (Registration.alike_writtenRelationship _ _ _ _ _ _ (hblank _)).bind
      fun _ _ _ => alike_pure trivial
  | assign =>
    exact (Registration.alike_assign _ _ (hblank _)).bind fun _ _ _ =>
      alike_pure trivial
  | get | intentOf | chunk | size =>
    exact alike_get_bind fun _ _ _ => alike_pure trivial

/-- Two walks are the same but for the values of properties. -/
structure Walk.Like (w w' : Walk) : Prop where
  contexts : w.contexts = w'.contexts
  registry : w.registry.Like w'.registry

/-- A walk is like itself. -/
theorem Walk.Like.refl (w : Walk) : w.Like w := ⟨rfl, rfl, rfl, rfl⟩

namespace Walking

/-- Walks are compared without values, and so are faults. -/
def likeness : Likeness Walk where
  states := Walk.Like
  faults fault fault' := fault.blank = fault'.blank

/-- No fault of a walk is an excuse. -/
theorem strict (fault : Fault) : ¬ likeness.excused fault := id

/-- What is registered alike is so on a walk. -/
theorem alike_register {α β : Type} {R : α → β → Prop}
    {registration : Registration α} {registration' : Registration β}
    (h : Registration.likeness.Alike R registration registration') :
    likeness.Alike R (register registration) (register registration') := by
  apply alike_get_bind
  intro w w' hw
  obtain ⟨hregistry, hout⟩ := h.sure Registration.strict hw.registry
  refine (alike_set ?_).bind fun _ _ _ =>
    alike_lift (hout.of_faults fun _ _ => id)
  exact ⟨hw.contexts, hregistry⟩

/-- A node is matched alike. -/
theorem alike_matchNode (given : LabelArgument) (name : Option String)
    (optional : Bool) :
    likeness.Alike Eq (matchNode given name optional)
    (matchNode given name optional) := by
  refine (alike_register (Registration.alike_node _ _ _ rfl)).bind
    fun e e' h => ?_
  rw [Element.name?_eq_of_blank_eq h]
  exact alike_pure rfl

/-- A relationship is matched alike. -/
theorem alike_matchRelationship (left : String) (right : Option String)
    (types : LabelArgument) (name : Option String)
    (direction : Option Direction) (optional : Bool) :
    likeness.Alike Eq
      (matchRelationship left right types name direction optional)
      (matchRelationship left right types name direction optional) := by
  refine (alike_register
    (Registration.alike_relationship _ _ _ _ _ _ rfl)).bind fun e e' h => ?_
  rw [Element.name?_eq_of_blank_eq h]
  exact alike_pure rfl

/-- A context is opened alike. -/
theorem alike_enter (context : Context) :
    likeness.Alike Eq (enter context) (enter context) := by
  apply alike_modifyGet
  intro w w' h
  rw [h.contexts]
  exact ⟨⟨rfl, h.registry⟩, rfl⟩

/-- It is looked up alike. -/
theorem alike_context (c : ContextId) :
    likeness.Alike Eq (context c) (context c) := by
  apply alike_get_bind
  intro w w' h
  rw [h.contexts]
  split
  · exact alike_pure rfl
  · exact alike_throw rfl

/-- A node is noted alike. -/
theorem alike_addChild (c : ContextId) (name : String) :
    likeness.Alike Eq (addChild c name) (addChild c name) := by
  apply alike_modify
  intro w w' h
  rw [h.contexts]
  exact ⟨rfl, h.registry⟩

/-- It is added alike. -/
theorem alike_addChildNode (c : ContextId) (given : LabelArgument)
    (name : Option String) (optional : Bool) :
    likeness.Alike Eq (addChildNode c given name optional)
    (addChildNode c given name optional) := by
  refine (alike_context c).bind ?_
  rintro here _ rfl
  refine (alike_matchNode _ _ _).bind ?_
  rintro registered _ rfl
  refine (alike_enter _).bind ?_
  rintro child _ rfl
  exact (alike_addChild _ _).bind fun _ _ _ => alike_pure rfl

/-- A relationship is added alike. -/
theorem alike_addRelationship (c : ContextId) (types : LabelArgument)
    (name : Option String) (direction : Option Direction) (optional : Bool) :
    likeness.Alike Eq (addRelationship c types name direction optional)
      (addRelationship c types name direction optional) := by
  refine (alike_context c).bind ?_
  rintro here _ rfl
  dsimp only
  split
  · exact alike_enter _
  · refine (alike_matchNode _ _ _).bind ?_
    rintro between _ rfl
    refine (alike_enter _).bind ?_
    rintro middle _ rfl
    exact (alike_addChild _ _).bind fun _ _ _ => alike_enter _

/-- A node is left alike. -/
theorem alike_leave (c : ContextId) :
    likeness.Alike Eq (leave c) (leave c) := by
  refine (alike_context c).bind ?_
  rintro here _ rfl
  split
  · exact alike_pure rfl
  · exact alike_throw rfl

/-- A fan is matched alike. -/
theorem alike_matchFan (left base : String) (types : LabelArgument)
    (direction : Option Direction) (optional : Bool) (i : Nat)
    (ends : List String) :
    likeness.Alike Eq (matchFan left base types direction optional i ends)
      (matchFan left base types direction optional i ends) := by
  induction ends generalizing i with
  | nil => exact alike_pure rfl
  | cons right rest ih =>
    exact (alike_matchRelationship _ _ _ _ _ _).bind fun _ _ _ => ih (i + 1)

/-- One ascends alike. -/
theorem alike_ascend (c : ContextId) :
    likeness.Alike Eq (ascend c) (ascend c) := by
  refine (alike_context c).bind ?_
  rintro here _ rfl
  dsimp only
  split
  · exact alike_leave c
  · next origin types name direction _ =>
    refine (alike_context origin).bind ?_
    rintro start _ rfl
    split
    · refine (alike_matchRelationship _ _ _ _ _ _).bind fun _ _ _ => ?_
      split
      · exact alike_leave origin
      · exact alike_pure rfl
    · refine (alike_matchRelationship _ _ _ _ _ _).bind ?_
      rintro base _ rfl
      refine (alike_matchFan _ _ _ _ _ _ _).bind fun _ _ _ => ?_
      split
      · exact alike_leave origin
      · exact alike_pure rfl

end Walking

namespace WalkStep

/-- A step of a walk without the values it gives. -/
def blank : WalkStep Assignment → WalkStep Assignment
  | store call => .store call.blank
  | step => step

/-- Whether a step starts a walk does not depend on values. -/
theorem starting?_blank (step : WalkStep Assignment) :
    step.blank.starting? = step.starting? := by
  cases step <;> rfl

/-- What a step is called does not depend on values. -/
theorem method_blank (step : WalkStep Assignment) :
    step.blank.method = step.method := by
  cases step <;> rfl

/-- A step moves alike, whatever values it gives. -/
theorem alike_move (c : ContextId) (step : WalkStep Assignment) :
    Walking.likeness.Alike Eq (step.move c) (step.blank.move c) := by
  cases step with
  | addChildNode => exact Walking.alike_addChildNode _ _ _ _
  | addRelationship => exact Walking.alike_addRelationship _ _ _ _ _
  | ascend => exact Walking.alike_ascend _
  | store call =>
    exact (Walking.alike_register call.alike_perform).bind fun _ _ _ =>
      alike_pure rfl
  | start | startAtNode | startOnRelationship | unknown =>
    exact alike_throw rfl

end WalkStep

namespace Position

/-- Two positions are the same but for the values of properties. -/
inductive Like : Option Position → Option Position → Prop
  | nowhere : Like none none
  | here {w w' : Walk} (h : w.Like w') (c : ContextId) :
      Like (some ⟨w, c⟩) (some ⟨w', c⟩)

/-- What a walk leads to, compared without values. -/
def LikeEnd (x y : Except Fault Unit × Option Position) : Prop :=
  Walking.likeness.Outcomes Eq x.1 y.1 ∧ Like x.2 y.2

/-- A step moves alike from wherever like walks are. -/
theorem step_alike {here here' : Option Position} (h : Like here here')
    (step : WalkStep Assignment) :
    LikeEnd (Position.step here step) (Position.step here' step.blank) := by
  unfold Position.step
  rw [step.starting?_blank, step.method_blank]
  cases step.starting? with
  | some starting =>
    cases h with
    | nowhere =>
      dsimp only
      rcases starting.run.run { registry := { log := [] } } with
          ⟨fault | c, w⟩
      · exact ⟨.error rfl, .nowhere⟩
      · exact ⟨.ok rfl, .here (Walk.Like.refl w) c⟩
    | @here v v' h c =>
      dsimp only
      rw [h.registry.log]
      rcases starting.run.run { registry := { log := v'.registry.log } } with
          ⟨fault | c', w⟩
      · exact ⟨.error rfl, .here h c⟩
      · exact ⟨.ok rfl, .here (Walk.Like.refl w) c'⟩
  | none =>
    cases h with
    | nowhere => exact ⟨.error rfl, .nowhere⟩
    | @here v v' h c =>
      obtain ⟨hwalk, hout⟩ := (step.alike_move c).sure Walking.strict h
      dsimp only
      rcases hx : StateT.run (ExceptT.run (step.move c)) v with ⟨r, w⟩
      rcases hy : StateT.run (ExceptT.run (step.blank.move c)) v' with
          ⟨r', w'⟩
      rw [Computation.exec, Computation.exec, hx, hy] at hwalk hout
      cases hout with
      | @ok c' _ heq =>
        subst heq
        exact ⟨.ok rfl, .here hwalk c'⟩
      | error hfault => exact ⟨.error hfault, .here hwalk c⟩

/-- **A walk does not look at values.** -/
theorem run_alike {here here' : Option Position} (h : Like here here')
    (steps : List (WalkStep Assignment)) :
    LikeEnd (Position.run here steps)
    (Position.run here' (steps.map WalkStep.blank)) := by
  induction steps generalizing here here' with
  | nil => exact ⟨.ok rfl, h⟩
  | cons step rest ih =>
    obtain ⟨hout, hthere⟩ := step_alike h step
    rw [List.map_cons, run, run]
    rcases hx : Position.step here step with ⟨r, there⟩
    rcases hy : Position.step here' step.blank with ⟨r', there'⟩
    rw [hx, hy] at hout hthere
    cases hout with
    | ok _ => exact ih hthere
    | error hfault => exact ⟨.error hfault, hthere⟩

end Position

end Pattern

end GraphQuery
