import GraphQuery.Proofs.Condition.Calls
import GraphQuery.Proofs.Patterns.Rejections
import GraphQuery.Proofs.Scripts.Building

/-!
# What changes do to builders

Every call that changes a builder does nothing but what is listed as edits
and new builders: `Change.touches_perform`.  A builder that comes to refer
to another one refers to one made later.
-/

namespace GraphQuery

/-- An operator that is accepted is known. -/
theorem comparison_eq_ok {operation spelling operator : String}
    (h : comparison operation spelling = .ok operator) :
    comparison? spelling = some operator := by
  unfold comparison at h
  split at h
  · next found hfound =>
    cases h
    exact hfound
  · cases h

namespace Building

open Guarantee Workspace

variable {links : BuilderId → BuilderId → Prop} {given : Assignment → Prop}
    {w : Workspace}
  {b inner : BuilderId}

/-! ### Filters -/

/-- A filter of an allowed kind is added to its builder. -/
theorem touching_addFilter {filter : Filter BuilderId}
    (h : ∀ found, w.builders[b]? = some found →
      w.NewFilter links b found.body.entry filter) :
    (touching links given).At w (addFilter b filter) fun _ _ => True :=
  (touching_edit fun found hfound => .filter (h found hfound)).mono
    fun _ _ _ _ _ => trivial

/-- A filter of an allowed kind is added to the builder at hand. -/
theorem touching_addFilter_of_found {filter : Filter BuilderId}
    {found : Builder} (hfound : w.builders[b]? = some found)
    (h : w.NewFilter links b found.body.entry filter) :
    (touching links given).At w (addFilter b filter) fun _ _ => True :=
  touching_edit_of_found hfound (.filter h)

/-- A comparison adds one by a known operator. -/
theorem touches_whereCompare (property spelling : String) (value : Value)
    (chain : String) :
    (touching links given).Kept
      (whereCompare b property spelling value chain) := by
  intro w
  apply at_lift_bind
  intro operator hoperator
  apply at_entry_bind
  intro found hfound
  refine (touching_bind value).bind ?_
  intro right w' _ _ hbound
  obtain ⟨hright, hbuilders, -⟩ := hbound
  apply at_lift_bind
  intro chain _
  have hfound' : w'.builders[b]? = some found := hbuilders ▸ hfound
  exact touching_addFilter_of_found hfound'
    (.compare (comparison_eq_ok hoperator) hright)

/-- A comparison with a sequence adds a filter by a known operator. -/
theorem touches_whereIn (property : String) (values : Value)
    (chain : String) :
    (touching links given).Kept (whereIn b property values chain) := by
  rw [whereIn]
  split
  · exact touches_whereCompare _ _ _ _
  · exact kept_throw _

/-- A comparison of two properties adds a filter by a known operator. -/
theorem touches_whereProperties (left spelling right chain : String) :
    (touching links given).Kept
      (whereProperties b left spelling right chain) := by
  intro w
  apply at_lift_bind
  intro operator hoperator
  apply at_entry_bind
  intro found hfound
  apply at_lift_bind
  intro chain _
  exact touching_addFilter_of_found hfound
    (.compareProperties (comparison_eq_ok hoperator))

/-- A null check adds its filter. -/
theorem touches_whereNull (property : String) (negate : Bool)
    (chain : String) :
    (touching links given).Kept (whereNull b property negate chain) := by
  intro w
  apply at_entry_bind
  intro found hfound
  apply at_lift_bind
  intro chain _
  exact touching_addFilter_of_found hfound .isNull

/-- A fragment adds its filter. -/
theorem touches_whereRaw (text chain : String) :
    (touching links given).Kept (whereRaw b text chain) := by
  intro w
  apply at_lift_bind
  intro chain _
  exact touching_addFilter fun _ _ => .raw

/-- A group adds the filters of a linked builder. -/
theorem touches_whereGroup (hlink : links b inner) (negate : Bool)
    (chain : String) :
    (touching links given).Kept (whereGroup b inner negate chain) := by
  intro w
  apply at_builder_bind
  intro found hfound
  rw [← body_eq hfound]
  dsimp only
  split
  · next hsome =>
    apply at_lift_bind
    intro chain _
    apply (touching_noteTaking inner).bind
    intro _ w' _ _ hbuilders
    have hbody : w.body inner = w'.body inner :=
      body_congr (by rw [hbuilders])
    rw [hbody] at hsome ⊢
    apply touching_addFilter
    intro other _
    exact .group hlink (by simpa using hsome)
  · exact kept_pure _ w

/-- A predicate nests a linked builder. -/
theorem touching_whereExists (hlink : links b inner)
    (hinner : inner < w.builders.size) (negate : Bool) (chain : String) :
    (touching links given).At w (whereExists b inner negate chain) fun _ _ =>
      True := by
  apply at_lift_bind
  intro chain _
  exact touching_addFilter fun _ _ => .exists hlink hinner

/-- A count nests a linked builder and compares by a known operator. -/
theorem touching_whereCount (hlink : links b inner)
    (hinner : inner < w.builders.size) {spelling operator : String}
    (hoperator : comparison? spelling = some operator) (count : Value)
    (chain : String) :
    (touching links given).At w (whereCount b inner operator count chain)
      fun _ _ => True := by
  refine (touching_bind count).bind ?_
  intro value w' _ _ hbound
  obtain ⟨hvalue, hbuilders, -⟩ := hbound
  apply at_lift_bind
  intro chain _
  apply touching_addFilter
  intro _ _
  exact .count hlink (hbuilders ▸ hinner) hoperator hvalue

/-- The steps of a mapping link what they nest. -/
theorem touches_mappingSteps (hlinks : ∀ b c, b < c → links b c) :
    MappingSteps (touching links given) (fun _ => True) links where
  newSubQuery _ _ := touching_newSubQuery.mono fun inner _ _ _ hinner =>
    ⟨trivial, hlinks _ inner hinner.1⟩
  whereCompare _ := touches_whereCompare
  whereNull _ := touches_whereNull
  whereGroup _ := touches_whereGroup

/-- A mapping links what it nests, with the groups in it. -/
theorem touches_whereFilters (hlinks : ∀ b c, b < c → links b c)
    (b : BuilderId) (chain : String) (entries : List (String × Value)) :
    (touching links given).Kept (whereFilters b chain entries) :=
  (touches_mappingSteps hlinks).whereFilters trivial chain entries

/-! ### Values given to properties -/

/-- An assignment is made of a value, and touches no builder. -/
theorem touching_bindOne (owner key : String) (value : Value) :
    (touching links given).At w
      (do return Assignment.mk owner key (← bind b value)) fun a w' =>
      a.hasValue = true ∧ w'.builders = w.builders := by
  refine (touching_bind value).bind ?_
  intro e w' _ _ hbound
  obtain ⟨hvalue, hbuilders, -⟩ := hbound
  exact at_pure fun _ => ⟨hvalue, hbuilders⟩

/-- Binding the values of a list. -/
theorem touching_bindAll {α : Type} {f : α → Building Assignment} (l : List α)
    (hf : ∀ x w, (touching links given).At w (f x) fun a w' =>
      a.hasValue = true ∧ w'.builders = w.builders) :
    (touching links given).At w (l.mapM f) fun as _ => ∀ a ∈ as,
      a.hasValue = true := by
  have heach : ∀ x ∈ l, ∀ w, (touching links given).At w (f x) fun a _ =>
      a.hasValue = true :=
    fun x _ w => (hf x w).mono fun _ _ _ _ h => h.1
  exact at_mapM (fun _ _ _ _ h => h) heach w

/-- Assignments to one element are made of values. -/
theorem touching_assignmentsOn (owner : String)
    (values : List (String × Value)) :
    (touching links given).At w (assignmentsOn b owner values) fun as _ =>
      ∀ a ∈ as, a.hasValue = true :=
  touching_bindAll values fun _ _ => touching_bindOne _ _ _

/-- Assignments to the elements that are named are made of values. -/
theorem touching_assignments (values : List (String × Value)) :
    (touching links given).At w (assignments b values) fun as _ =>
      ∀ a ∈ as, a.hasValue = true := by
  apply at_entry_bind
  intro found _
  exact touching_bindAll values fun _ _ => touching_bindOne _ _ _

/-- Giving values to an element declares them in the pattern. -/
theorem touches_assign (name : String) (intent : Pattern.Intent)
    {assignments : List Assignment}
    (h : ∀ a ∈ assignments, a.hasValue = true) :
    (touching links given).Kept
      (register b (Pattern.Registration.assign name assignments intent)) :=
  touches_register fun s => (Pattern.keeps_leadsTo _ s).assign name intent h

/-! ### Changes -/

/-- Creating or merging an element declares it in the pattern, with its
values. -/
theorem touches_writeElement (writing : Pattern.Writing)
    (values : List (String × Value))
    {registration : Pattern.Registration Pattern.Element}
    (h : ∀ {G : Guarantee Pattern.Store} {fit : List Assignment → Prop},
      Pattern.Keeps G fit →
      (Pattern.onStore G).Kept registration) :
    (touching links given).Kept
      (writeElement b writing values registration) := by
  apply (touches_register fun s => h (Pattern.keeps_leadsTo _ s)).bind
  intro element
  dsimp only
  split
  · intro w
    refine (touching_assignmentsOn _ _).bind ?_
    intro properties w' _ _ hvalues
    exact ((touches_assign _ _ hvalues).bind fun _ => kept_pure _) w'
  · exact kept_pure _

/-- Giving values to be written declares them in the pattern; creating drops
the batch before. -/
theorem touches_write (writing : Pattern.Writing)
    (values : List (String × Value)) :
    (touching links given).Kept (write b writing values) := by
  have hassign : (touching links given).Kept (do
      (← assignments b values).forM fun assignment => do
        let _ ← register b
          (Pattern.Registration.assign assignment.owner
            [assignment] writing.intent)) := by
    intro w
    refine (touching_assignments values).bind ?_
    intro as w' _ _ hvalues
    refine kept_forM (fun a ha => ?_) w'
    have hone : ∀ a' ∈ [a], a'.hasValue = true := by
      intro a' ha'
      rw [List.mem_singleton.mp ha']
      exact hvalues a ha
    exact (touches_assign _ _ hone).bind fun _ => kept_pure _
  rw [write]
  split
  · exact (touches_edit fun _ _ => .unbatched).bind fun _ => hassign
  · exact hassign

/-- Setting a property appends its assignment. -/
theorem touches_set (property : String) (value : Value) :
    (touching links given).Kept (set b property value) := by
  intro w
  apply at_entry_bind
  intro found _
  refine (touching_bind value).bind ?_
  intro e w' _ _ hbound
  refine touches_edit (fun w s => ?_) w'
  apply Alteration.set
  exact hbound.1

/-- Deleting appends its variables. -/
theorem touches_addDeletes (names : List String) :
    (touching links given).Kept (addDeletes b names) :=
  touches_edit fun _ _ => .delete

/-- Asking for a page sets it. -/
theorem touches_paginate (page size : Int) :
    (touching links given).Kept (paginate b page size) := by
  rw [paginate]
  split
  · exact kept_throw _
  · split
    · exact kept_throw _
    · exact touches_edit fun _ _ => .page

/-- Ordering sets the order. -/
theorem touches_orderBy (direction : String)
    (properties : List PropertyArgument) :
    (touching links given).Kept (orderBy b direction properties) :=
  (kept_lift _).bind fun _ => touches_edit fun _ _ => .order

/-- Giving properties to an element is one declaration, if it does not fail. -/
theorem store_exec_assign (name : String) (properties : List Assignment)
    (intent : Pattern.Intent) (r : Pattern.Registry) :
    let store :=
      (Computation.exec (Pattern.Registration.assign name properties intent)
        r).2.store
    (Pattern.Declaration.assign name properties intent).apply r.store =
      .ok store ∨
      store = r.store := by
  intro store
  have hexec := Pattern.Registration.exec_assign name properties intent r
  cases hassign : r.store.assign name properties intent with
  | error fault =>
    rw [hassign] at hexec
    exact .inr (congrArg (fun run => run.2.store) hexec)
  | ok made =>
    rw [hassign] at hexec
    have hstore : store = made.2 := congrArg (fun run => run.2.store) hexec
    rw [Pattern.Declaration.apply, hassign, hstore]
    exact .inl rfl

/-- Reading a property from the row at hand, by a key of the first row of
the batch. -/
theorem touching_lookUp {batch : Parameter} {first : List (String × Value)}
    {rest : List (List (String × Value))} {body : Structure BuilderId}
    {written : String}
    (hthere : ∃ found, w.builders[b]? = some found ∧
      ∃ pattern, found.body = { body with pattern })
    (hbatch : body.batchCreate = some batch)
    (hrows : batch.value = .list ((first :: rest).map Value.map))
    (hkey : written ∈ first.map Prod.fst) :
    (touching links given).At w
      (register b
        (Pattern.Registration.assign (propertyReference body.entry written).1
        [⟨(propertyReference body.entry written).1,
          (propertyReference body.entry written).2,
          .column body.batchVariable written⟩] .toCreate))
      fun _ w' => ∃ found, w'.builders[b]? = some found ∧
        ∃ pattern, found.body = { body with pattern } := by
  obtain ⟨found, hfound, old, hbody⟩ := hthere
  refine (touching_register fun other hother w' r hr => ?_).mono ?_
  · obtain rfl : found = other := Option.some.inj (hfound.symm.trans hother)
    rcases store_exec_assign (propertyReference body.entry written).1
      [⟨(propertyReference body.entry written).1,
        (propertyReference body.entry written).2,
        .column body.batchVariable written⟩] .toCreate r with happly | hsame
    · rw [hr] at happly
      have hentry : found.body.entry = body.entry := by rw [hbody]
      have hrow : found.body.batchVariable = body.batchVariable := by
        rw [hbody]
      have hthere : found.body.batchCreate = some batch := by
        rw [hbody]; exact hbatch
      rw [← hentry, ← hrow] at happly ⊢
      exact .lookedUp hthere hrows hkey happly
    · rw [hsame, hr]
      exact .patterned .refl
  · intro _ w' _ _ hw'
    obtain ⟨pattern, hbuilders⟩ := hw'
    have hself := amended_self hfound fun builder =>
      { builder with body := { builder.body with pattern } }
    rw [← hbuilders] at hself
    exact ⟨_, hself, pattern, by rw [hbody]⟩

/-- Giving rows to create from sets the batch and declares its columns. -/
theorem touches_writeBatch (rows : List (List (String × Value))) :
    (touching links given).Kept (writeBatch b rows) := by
  unfold writeBatch
  split
  · exact touches_edit fun _ _ => .unbatched
  · next first rest =>
    intro w
    refine (touching_bind _).bind ?_
    intro e w₁ _ _ hbound
    obtain ⟨batch, rfl, hrows⟩ :=
      hbound.2.2 (by intro fragment hraw; cases hraw)
    refine (touching_edit fun found _ => .batched hrows).bind ?_
    intro _ w₂ _ _ hw₂
    apply at_builder_bind
    intro found hfound
    rw [hw₂] at hfound
    obtain ⟨old, -, hold⟩ := exists_of_amended_self hfound
    have hbatch : found.body.batchCreate = some batch := by rw [← hold]
    refine (at_forM_of_next (p := fun w' => ∃ other,
      w'.builders[b]? = some other ∧
      ∃ pattern, other.body = { found.body with pattern }) ?_ ?_).mono
        fun _ _ _ _ _ => trivial
    · intro entry hentry w' hthere
      have hkey : entry.1 ∈ first.map Prod.fst := List.mem_map_of_mem hentry
      refine (touching_lookUp hthere hbatch hrows hkey).bind ?_
      intro _ _ _ _ hnext
      exact at_pure fun _ => hnext
    · rw [hw₂]
      exact ⟨found, hfound, found.body.pattern, rfl⟩

end Building

open Building Guarantee Workspace in
/-- **What a change does to builders.**  It edits the builder it is made on
as listed, and for groups of filters makes new ones. -/
theorem Change.touches_perform {links : BuilderId → BuilderId → Prop}
    {given : Assignment → Prop} (hlinks : ∀ b c, b < c → links b c)
    (b : BuilderId) (change : Change) :
    (touching links given).Kept (change.perform b) := by
  have hregister : ∀ {registration : Pattern.Registration Pattern.Element},
      (∀ {G : Guarantee Pattern.Store} {fit : List Assignment → Prop},
        Pattern.Keeps G fit → (Pattern.onStore G).Kept registration) →
      (touching links given).Kept (do let _ ← register b registration) := by
    intro registration h
    exact (touches_register fun s =>
      h (Pattern.keeps_leadsTo _ s)).bind fun _ => kept_pure _
  cases change with
  | matchNode => exact hregister fun h => h.node _ _ _ h.none
  | matchRelationship =>
    exact hregister fun h => h.relationship _ _ _ _ _ _ h.none
  | matchRaw | writeRaw => exact hregister fun h => h.raw _ _
  | writeNode => exact touches_writeElement _ _ fun h =>
    h.writtenNode _ _ _ h.none
  | writeRelationship =>
    exact touches_writeElement _ _ fun h =>
      h.writtenRelationship _ _ _ _ _ _ h.none
  | write => exact touches_write _ _
  | writeBatch => exact touches_writeBatch _
  | setOnMatch values =>
    intro w
    refine (touching_assignments values).bind ?_
    intro as w' _ _ hvalues
    exact touches_edit (fun _ _ => .setOnMatch hvalues) w'
  | setOnCreate values =>
    intro w
    refine (touching_assignments values).bind ?_
    intro as w' _ _ hvalues
    exact touches_edit (fun _ _ => .setOnCreate hvalues) w'
  | set => exact touches_set _ _
  | setMany => exact kept_forM fun _ _ => touches_set _ _
  | setLabels labels =>
    intro w
    apply at_entry_bind
    intro found hfound
    exact touching_edit_of_found hfound .setLabels
  | setLabel =>
    rw [Change.perform]
    exact touches_edit fun _ _ => .setLabel
  | setRaw =>
    rw [Change.perform]
    exact touches_edit fun _ _ => .setRaw
  | remove =>
    rw [Change.perform]
    exact touches_edit fun _ _ => .remove
  | removeLabel name labels =>
    rw [Change.perform]
    split
    · exact kept_pure _
    · next hsome => exact touches_edit fun _ _ =>
        .removeLabel (by simpa using hsome)
  | delete =>
    rw [Change.perform]
    exact touches_addDeletes _
  | detachDelete names =>
    rw [Change.perform]
    exact (touches_edit fun _ _ => .detach).bind fun _ =>
      touches_addDeletes names
  | return_ projections =>
    intro w
    apply at_entry_bind
    intro found hfound
    exact touching_edit_of_found hfound .return_
  | returnAll =>
    rw [Change.perform]
    exact touches_edit fun _ _ => .returnAll
  | returnRaw =>
    rw [Change.perform]
    exact touches_edit fun _ _ => .returnRaw
  | returnVariables =>
    rw [Change.perform]
    exact touches_edit fun _ _ => .returnVariables
  | returnCall function name arguments =>
    intro w
    apply at_entry_bind
    intro found hfound
    exact touching_edit_of_found hfound .returnCall
  | distinct =>
    rw [Change.perform]
    exact touches_edit fun _ _ => .distinct
  | skip | limit =>
    rw [Change.perform]
    exact touches_edit fun _ _ => .page
  | paginate => exact touches_paginate _ _
  | orderBy => exact touches_orderBy _ _
  | compare => exact touches_whereCompare _ _ _ _
  | compareProperties => exact touches_whereProperties _ _ _ _
  | compareIn => exact touches_whereIn _ _ _
  | isNull => exact touches_whereNull _ _ _
  | rawFilter => exact touches_whereRaw _ _
  | filters => exact touches_whereFilters hlinks _ _ _
  | useConnection => exact touches_around fun _ => rfl

end GraphQuery
