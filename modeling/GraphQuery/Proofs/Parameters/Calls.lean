import GraphQuery.Proofs.Condition.Calls
import GraphQuery.Proofs.Parameters.Building

/-!
# What the calls of a builder bind

The calls that filter and the calls that change a query keep every parameter
bound where it was made: `Change.kept_perform`.
-/

namespace GraphQuery

/-- A property is written without parameters. -/
@[simp]
theorem writtenProperty_parameters (entry written : String) :
    (writtenProperty entry written).parameters = [] := rfl

/-- A property given in either way has no parameters. -/
@[simp]
theorem PropertyArgument.expression_parameters (entry : String)
    (argument : PropertyArgument) :
    (argument.expression entry).parameters = [] := by
  cases argument <;> rfl

/-- What a call returns has no parameters. -/
@[simp]
theorem writtenProjection_parameters (entry written : String) :
    (writtenProjection entry written).parameters = [] := by
  unfold writtenProjection
  dsimp only
  split
  · rfl
  · split <;> rfl

namespace Building

open Guarantee Workspace

variable {given : Parameter → Prop} {b inner : BuilderId}

/-! ### Filters -/

/-- A comparison is bound in the stack of its builder. -/
theorem kept_whereCompare (property spelling : String) (value : Value)
    (chain : String) :
    (grounding given).Kept
      (whereCompare b property spelling value chain) := by
  refine fun w => at_lift_bind fun operator _ => at_entry_bind fun found _ =>
    ?_
  refine (at_bind value).bind fun right w' _ _ hright =>
    at_lift_bind fun chain _ => ?_
  exact at_addFilter (.inl (by simpa [Filter.parameters] using hright))

/-- A comparison with a sequence is bound in the stack of its builder. -/
theorem kept_whereIn (property : String) (values : Value) (chain : String) :
    (grounding given).Kept (whereIn b property values chain) := by
  rw [whereIn]
  split
  · exact kept_whereCompare _ _ _ _
  · exact kept_throw _

/-- A comparison of two properties binds nothing. -/
theorem kept_whereProperties (left spelling right chain : String) :
    (grounding given).Kept (whereProperties b left spelling right chain) := by
  refine fun w => at_lift_bind fun operator _ => at_entry_bind fun found _ =>
    ?_
  exact at_lift_bind fun chain _ =>
    kept_addFilter (by simp [Filter.parameters]) w

/-- A null check binds nothing. -/
theorem kept_whereNull (property : String) (negate : Bool) (chain : String) :
    (grounding given).Kept (whereNull b property negate chain) := by
  refine fun w => at_entry_bind fun found _ => at_lift_bind fun chain _ => ?_
  exact kept_addFilter (by simp [Filter.parameters]) w

/-- A fragment binds nothing. -/
theorem kept_whereRaw (text chain : String) :
    (grounding given).Kept (whereRaw b text chain) :=
  fun w => at_lift_bind fun _ _ =>
    kept_addFilter (by simp [Filter.parameters]) w

/-- A group takes the filters of a builder that is noted. -/
theorem kept_whereGroup (negate : Bool) (chain : String) :
    (grounding given).Kept (whereGroup b inner negate chain) := by
  refine fun w => at_builder_bind fun found hfound => ?_
  rw [← body_eq hfound]
  dsimp only
  split
  · refine at_lift_bind fun chain _ => ?_
    refine (at_noteTaking inner).bind fun _ w' _ _ htaken => ?_
    rw [← htaken.2]
    exact at_addFilter (.inr ⟨inner, negate, chain, htaken.1, rfl⟩)
  · exact kept_pure _ w

/-- A predicate nests its builder and binds nothing. -/
theorem kept_whereExists (negate : Bool) (chain : String) :
    (grounding given).Kept (whereExists b inner negate chain) :=
  fun w => at_lift_bind fun _ _ =>
    kept_addFilter (by simp [Filter.parameters]) w

/-- A count binds what it is compared with. -/
theorem kept_whereCount (operator : String) (count : Value) (chain : String) :
    (grounding given).Kept (whereCount b inner operator count chain) := by
  refine fun w => (at_bind count).bind fun value w' _ _ hvalue =>
    at_lift_bind fun chain _ => ?_
  exact at_addFilter (.inl (by simpa [Filter.parameters] using hvalue))

/-- The steps of a mapping keep all bindings. -/
theorem kept_mappingSteps :
    MappingSteps (grounding given) (fun _ => True) (fun _ _ => True) where
  newSubQuery _ w := (kept_newSubQuery w).mono fun _ _ _ _ _ =>
    ⟨trivial, trivial⟩
  whereCompare _ := kept_whereCompare
  whereNull _ := kept_whereNull
  whereGroup _ _ := kept_whereGroup

/-- **A mapping keeps all bindings**, with the groups in it. -/
theorem kept_whereFilters (b : BuilderId) (chain : String)
    (entries : List (String × Value)) :
    (grounding given).Kept (whereFilters b chain entries) :=
  kept_mappingSteps.whereFilters trivial chain entries

/-! ### Values given to properties -/

/-- Assignments whose values are written with what a builder binds. -/
def Bound (b : BuilderId) (assignments : List Assignment) (w : Workspace) :
    Prop :=
  ∀ p ∈ assignedParameters assignments, (w.stackOf b).Binds p

/-- Assignments are bound if each of them is. -/
theorem bound_of_forall {w : Workspace} {assignments : List Assignment}
    (h : ∀ a ∈ assignments, Bound b [a] w) : Bound b assignments w := by
  intro p hp
  obtain ⟨a, ha, hp'⟩ := List.mem_flatMap.mp hp
  exact h a ha p (by simpa [assignedParameters] using hp')

/-- Each of bound assignments is. -/
theorem bound_of_mem {w : Workspace} {assignments : List Assignment}
    (h : Bound b assignments w) {a : Assignment} (ha : a ∈ assignments) :
    Bound b [a] w := by
  intro p hp
  refine h p (List.mem_flatMap.mpr ⟨a, ha, ?_⟩)
  simpa [assignedParameters] using hp

/-- What is bound stays so. -/
theorem bound_stable (a : Assignment) (w w' : Workspace) (h : Grows w w')
    (ha : Bound b [a] w) :
    Bound b [a] w' :=
  fun p hp => h.binds b p (ha p hp)

/-- An assignment is bound where it is made. -/
theorem at_bindOne {w : Workspace} (owner key : String) (value : Value) :
    (grounding given).At w
      (do return Assignment.mk owner key (← bind b value)) fun a w' =>
      Bound b [a] w' := by
  refine (at_bind value).bind fun e w' _ _ he => at_pure fun _ p hp => he p ?_
  simpa [assignedParameters] using hp

/-- Assignments to one element are bound where they are made. -/
theorem at_assignmentsOn {w : Workspace} (owner : String)
    (values : List (String × Value)) :
    (grounding given).At w (assignmentsOn b owner values) fun as w' =>
      Bound b as w' := by
  refine (at_mapM bound_stable (fun entry _ s => ?_) w).mono
    fun as w' _ _ has => bound_of_forall has
  exact at_bindOne owner entry.1 entry.2

/-- Assignments to the elements that are named are bound where they are
made. -/
theorem at_assignments {w : Workspace} (values : List (String × Value)) :
    (grounding given).At w (assignments b values) fun as w' =>
      Bound b as w' := by
  refine at_entry_bind fun found _ => ?_
  refine (at_mapM bound_stable (fun item _ s => ?_) w).mono
    fun as w' _ _ has => bound_of_forall has
  exact at_bindOne _ _ item.2

/-- Giving bound assignments to an element keeps all bindings. -/
theorem at_register_assign {w : Workspace} (name : String)
    (intent : Pattern.Intent) {assignments : List Assignment}
    (h : Bound b assignments w) :
    (grounding given).At w
      (register b (Pattern.Registration.assign name assignments intent))
      fun _ _ => True :=
  at_register fun _ hheld =>
    (Pattern.keeps_given _).assign name intent fun p hp => hheld p (h p hp)

/-- Assignments that are set have the parameters they have. -/
theorem setItem_parameters (assignments : List Assignment) :
    (assignments.map SetItem.assign).flatMap SetItem.parameters =
      assignedParameters assignments := by
  rw [List.flatMap_map]
  rfl

/-! ### Changes -/

/-- Creating or merging an element binds its values. -/
theorem kept_writeElement (writing : Pattern.Writing)
    (values : List (String × Value))
    {registration : Pattern.Registration Pattern.Element}
    (h : ∀ held, (Pattern.Registration.holding held).Kept registration) :
    (grounding given).Kept (writeElement b writing values registration) := by
  intro w
  refine (at_register fun _ _ => h _).bind fun element w₁ _ _ _ => ?_
  dsimp only
  split
  · refine (at_assignmentsOn _ _).bind fun properties w₂ _ _ hbound => ?_
    exact (at_register_assign _ _ hbound).bind fun _ _ _ _ _ =>
      at_pure fun _ => trivial
  · exact at_pure fun _ => trivial

/-- Giving values to be written binds them. -/
theorem kept_write (writing : Pattern.Writing)
    (values : List (String × Value)) :
    (grounding given).Kept (write b writing values) := by
  have hassign : (grounding given).Kept (do
      (← assignments b values).forM fun assignment => do
        let _ ← register b
          (Pattern.Registration.assign assignment.owner
            [assignment] writing.intent)) := by
    refine fun w => (at_assignments values).bind fun as w' _ _ hbound => ?_
    refine at_forM bound_stable (fun a _ s ha => ?_) fun a ha =>
      bound_of_mem hbound ha
    exact (at_register_assign _ _ ha).bind fun _ _ _ _ _ => at_pure fun _ =>
      trivial
  rw [write]
  split
  · refine Kept.bind (kept_edit (fun _ => rfl) fun s p hp => ?_) fun _ =>
      hassign
    rw [Content.mem_parameters] at hp ⊢
    simp only [Option.toList_none, List.not_mem_nil, or_false] at hp
    grind
  · exact hassign

/-- A change of the content in one place, where it adds parameters the
builder binds. -/
theorem at_edit_content {w : Workspace}
    {change : Structure BuilderId → Structure BuilderId}
    {new : List Parameter} (hnew : ∀ p ∈ new, (w.stackOf b).Binds p)
    (hwheres : ∀ s, (change s).wheres = s.wheres)
    (hcontent : ∀ s, ∀ p ∈ (change s).toContent.parameters,
      p ∈ s.toContent.parameters ∨ p ∈ new) :
    (grounding given).At w (edit b change) fun _ _ => True :=
  at_edit hwheres fun s p hp => (hcontent s p hp).imp_right fun hp' =>
    .inr (hnew p hp')

/-- Giving rows to create from binds them as a batch. -/
theorem kept_writeBatch (rows : List (List (String × Value))) :
    (grounding given).Kept (writeBatch b rows) := by
  unfold writeBatch
  split
  · refine kept_edit (fun _ => rfl) fun s p hp => ?_
    rw [Content.mem_parameters] at hp ⊢
    simp only [Option.toList_none, List.not_mem_nil, or_false] at hp
    grind
  · next first _ =>
    have hcolumn : ∀ owner key row written, (grounding given).Kept
        (register b (Pattern.Registration.assign owner
          [⟨owner, key, .column row written⟩]
          .toCreate)) := by
      intro owner key row written w
      refine (at_register_assign _ _ fun p hp => ?_).mono fun _ _ _ _ _ =>
        trivial
      simp [assignedParameters, Expression.parameters] at hp
    intro w
    refine (at_bind _).bind fun e w' _ _ hbound => ?_
    split
    · next batch =>
      have hbatch : ∀ p ∈ [batch], (w'.stackOf b).Binds p := hbound
      refine At.bind (at_edit_content hbatch (fun _ => rfl) fun s p hp =>
        ?_) fun _ t _ _ _ => ?_
      · rw [Content.mem_parameters] at hp ⊢
        simp only [Option.toList_some] at hp
        grind
      · refine at_builder_bind fun found _ => kept_forM (fun item _ => ?_) t
        exact (hcolumn _ _ _ _).bind fun _ => kept_pure _
    · refine at_builder_bind fun found _ => kept_forM (fun item _ => ?_) w'
      exact (hcolumn _ _ _ _).bind fun _ => kept_pure _

/-- Setting a property binds its value. -/
theorem kept_set (property : String) (value : Value) :
    (grounding given).Kept (set b property value) := by
  refine fun w => at_entry_bind fun found _ => ?_
  refine (at_bind value).bind fun e w' _ _ hbound => ?_
  refine at_edit_content hbound (fun _ => rfl) fun s p hp => ?_
  rw [Content.mem_parameters] at hp ⊢
  simp only [List.flatMap_append, List.mem_append, List.flatMap_singleton,
    SetItem.parameters] at hp
  grind

/-- A change that leaves the parameters of the content as they are. -/
theorem kept_edit_plain {change : Structure BuilderId → Structure BuilderId}
    (hwheres : ∀ s, (change s).wheres = s.wheres)
    (hcontent : ∀ s,
      (change s).toContent.parameters = s.toContent.parameters) :
    (grounding given).Kept (edit b change) :=
  kept_edit hwheres fun s _ hp => hcontent s ▸ hp

/-- Items without parameters can be set. -/
theorem kept_addSets {items : List SetItem}
    (h : items.flatMap SetItem.parameters = []) :
    (grounding given).Kept (addSets b items) :=
  kept_edit_plain (fun _ => rfl) fun s => by simp [Content.parameters, h]

/-- Projections without parameters can be returned. -/
theorem kept_addReturns {projections : List Expression}
    (h : ∀ e ∈ projections, e.parameters = []) :
    (grounding given).Kept (addReturns b projections) :=
  kept_edit_plain (fun _ => rfl) fun s => by
    simp [Content.parameters, Expression.parametersOfAll_eq_nil h]

/-- Deleting binds nothing. -/
theorem kept_addDeletes (names : List String) :
    (grounding given).Kept (addDeletes b names) := by
  have hnone : Expression.parametersOfAll (names.map Expression.var) = [] :=
    Expression.parametersOfAll_eq_nil (by simp [Expression.parameters])
  exact kept_edit_plain (fun _ => rfl) fun s => by
    simp [Content.parameters, hnone]

/-- Asking for a page binds nothing. -/
theorem kept_paginate (page size : Int) :
    (grounding given).Kept (paginate b page size) := by
  rw [paginate]
  split
  · exact kept_throw _
  · split
    · exact kept_throw _
    · exact kept_edit_plain (fun _ => rfl) fun _ => rfl

/-- Ordering binds nothing. -/
theorem kept_orderBy (direction : String)
    (properties : List PropertyArgument) :
    (grounding given).Kept (orderBy b direction properties) := by
  have hnone : ∀ entry, Expression.parametersOfAll
      (properties.map (PropertyArgument.expression entry)) = [] :=
        fun entry =>
    Expression.parametersOfAll_eq_nil (by simp)
  refine (kept_lift _).bind fun order =>
    kept_edit_plain (fun _ => rfl) fun s => ?_
  simp [Content.parameters, hnone]

end Building

open Building Guarantee Workspace in
/-- **The calls that change a builder keep every parameter bound where it
was made.** -/
theorem Change.kept_perform {given : Parameter → Prop} (b : BuilderId)
    (change : Change) :
    (grounding given).Kept (change.perform b) := by
  have hregister : ∀ {registration : Pattern.Registration Pattern.Element},
      (∀ held, (Pattern.Registration.holding held).Kept registration) →
      (grounding given).Kept (do let _ ← register b registration) :=
        fun h w =>
    (at_register fun _ _ => h _).bind fun _ _ _ _ _ => at_pure fun _ =>
      trivial
  cases change with
  | matchNode =>
    exact hregister fun _ =>
      (Pattern.keeps_given _).node _ _ _ (by simp [assignedParameters])
  | matchRelationship =>
    exact hregister fun _ =>
      (Pattern.keeps_given _).relationship
        _ _ _ _ _ _ (by simp [assignedParameters])
  | matchRaw | writeRaw => exact hregister fun _ =>
    (Pattern.keeps_given _).raw _ _
  | writeNode =>
    exact kept_writeElement _ _ fun _ =>
      (Pattern.keeps_given _).writtenNode _ _ _ (by simp [assignedParameters])
  | writeRelationship =>
    exact kept_writeElement _ _ fun _ =>
      (Pattern.keeps_given _).writtenRelationship
        _ _ _ _ _ _ (by simp [assignedParameters])
  | write => exact kept_write _ _
  | writeBatch => exact kept_writeBatch _
  | setOnMatch values =>
    refine fun w => (at_assignments values).bind fun as w' _ _ hbound => ?_
    refine at_edit_content hbound (fun _ => rfl) fun s p hp => ?_
    simp only [Content.mem_parameters, List.flatMap_append, List.mem_append,
      setItem_parameters]
      at hp ⊢
    grind
  | setOnCreate values =>
    refine fun w => (at_assignments values).bind fun as w' _ _ hbound => ?_
    refine at_edit_content hbound (fun _ => rfl) fun s p hp => ?_
    simp only [Content.mem_parameters, List.flatMap_append, List.mem_append,
      setItem_parameters]
      at hp ⊢
    grind
  | set => exact kept_set _ _
  | setMany => exact kept_forM fun _ _ => kept_set _ _
  | setLabels labels =>
    exact fun w => at_entry_bind fun found _ =>
      kept_addSets
        (by simp [List.flatMap_map, writtenLabelItem, SetItem.parameters]) w
  | setLabel => exact kept_addSets rfl
  | setRaw =>
    exact kept_addSets (by simp [List.flatMap_map, SetItem.parameters])
  | remove =>
    rw [Change.perform]
    exact kept_edit_plain (fun _ => rfl) fun _ => rfl
  | removeLabel name labels =>
    rw [Change.perform]
    split
    · exact kept_pure _
    · exact kept_edit_plain (fun _ => rfl) fun _ => rfl
  | delete => exact kept_addDeletes _
  | detachDelete names =>
    rw [Change.perform]
    refine Kept.bind ?_ fun _ => kept_addDeletes names
    exact kept_edit_plain (fun _ => rfl) fun _ => rfl
  | return_ projections =>
    rw [Change.perform]
    refine fun w => at_entry_bind fun found _ =>
      kept_addReturns (fun e he => ?_) w
    obtain ⟨written, -, rfl⟩ := List.mem_map.mp he
    exact writtenProjection_parameters found.body.entry written
  | returnAll =>
    refine kept_edit (fun _ => rfl) fun s p hp => ?_
    simp only [Content.mem_parameters, Expression.parametersOfAll,
      Expression.parameters,
      List.append_nil, List.not_mem_nil, false_or] at hp ⊢
    grind
  | returnRaw =>
    rw [Change.perform]
    exact kept_addReturns (by simp [Expression.parameters])
  | returnVariables =>
    rw [Change.perform]
    exact kept_addReturns (by simp [Expression.parameters])
  | returnCall function name arguments =>
    refine fun w => at_entry_bind fun found _ =>
      kept_addReturns (fun e he => ?_) w
    rw [List.mem_singleton.mp he, Expression.parameters,
      Expression.parameters]
    exact Expression.parametersOfAll_eq_nil (by simp)
  | distinct | skip | limit =>
    rw [Change.perform]
    exact kept_edit_plain (fun _ => rfl) fun _ => rfl
  | paginate => exact kept_paginate _ _
  | orderBy => exact kept_orderBy _ _
  | compare => exact kept_whereCompare _ _ _ _
  | compareProperties => exact kept_whereProperties _ _ _ _
  | compareIn => exact kept_whereIn _ _ _
  | isNull => exact kept_whereNull _ _ _
  | rawFilter => exact kept_whereRaw _ _
  | filters => exact kept_whereFilters _ _ _
  | useConnection => exact fun _ => at_amend fun _ _ =>
    ⟨.inl rfl, fun _ hp => .inl hp, .inl rfl⟩

end GraphQuery
