import GraphQuery.Proofs.Secrecy.Building
import GraphQuery.Proofs.Secrecy.Outline

/-!
# The calls of a builder do not look at values

A call that filters or changes a query cannot be told apart from its
outline: `Change.alike_perform`.
-/

namespace GraphQuery

namespace Building

open Likeness

variable {b inner : BuilderId}

/-! ### Filters -/

/-- Filters that differ in values alone are added alike. -/
theorem alike_addFilter {filter filter' : Filter BuilderId}
    (h : filter.blank = filter'.blank) :
    likeness.Alike Eq (addFilter b filter) (addFilter b filter') := by
  apply alike_edit
  intro s t hst
  refine { hst with wheres := ?_ }
  rw [Filter.blankAll_append, Filter.blankAll_append, hst.wheres]
  simp only [Filter.blankAll, h]

/-- Filters that differ in values alone are added alike behind a chain
operator. -/
theorem alike_chain (chain : String)
    {filter filter' : Chain → Filter BuilderId}
    (h : ∀ chain, (filter chain).blank = (filter' chain).blank) :
    likeness.Alike Eq (do addFilter b (filter (← Chain.ofSpelling chain)))
      (do addFilter b (filter' (← Chain.ofSpelling chain))) := by
  refine (alike_lift_eq _).bind ?_
  rintro chain _ rfl
  exact alike_addFilter (h chain)

/-- A comparison is alike whatever value it is with. -/
theorem alike_whereCompare (property spelling chain : String)
    {value value' : Value} (h : value.blank = value'.blank) :
    likeness.Alike Eq (whereCompare b property spelling value chain)
      (whereCompare b property spelling value' chain) := by
  refine (alike_lift_eq _).bind ?_
  rintro operator _ rfl
  refine (alike_entry b).bind ?_
  rintro entry _ rfl
  refine (alike_bind h).bind fun right right' hright => ?_
  apply alike_chain
  intro chain
  rw [Filter.blank, Filter.blank, hright]

/-- A comparison with a sequence is alike whatever is in the sequence. -/
theorem alike_whereIn (property : String) (values : Value) (chain : String) :
    likeness.Alike Eq (whereIn b property values chain)
      (whereIn b property values.outlineItems chain) := by
  unfold whereIn Value.outlineItems
  cases values.items? with
  | some items => exact alike_whereCompare _ _ _ rfl
  | none => exact alike_throw rfl

/-- A comparison of two properties is alike. -/
theorem alike_whereProperties (left spelling right chain : String) :
    likeness.Alike Eq (whereProperties b left spelling right chain)
      (whereProperties b left spelling right chain) := by
  refine (alike_lift_eq _).bind ?_
  rintro operator _ rfl
  refine (alike_entry b).bind ?_
  rintro entry _ rfl
  exact alike_chain _ fun _ => rfl

/-- A null check is alike. -/
theorem alike_whereNull (property : String) (negate : Bool) (chain : String) :
    likeness.Alike Eq (whereNull b property negate chain)
    (whereNull b property negate chain) := by
  refine (alike_entry b).bind ?_
  rintro entry _ rfl
  exact alike_chain _ fun _ => rfl

/-- A fragment is alike. -/
theorem alike_whereRaw (text chain : String) :
    likeness.Alike Eq (whereRaw b text chain) (whereRaw b text chain) :=
  alike_chain _ fun _ => rfl

/-- Noting that filters are taken over shows nothing. -/
theorem alike_noteTaking (inner : BuilderId) :
    likeness.Alike Eq (noteTaking b inner) (noteTaking b inner) :=
  alike_modify fun _ _ h => { h with }

/-- A group is alike. -/
theorem alike_whereGroup (negate : Bool) (chain : String) :
    likeness.Alike Eq (whereGroup b inner negate chain)
    (whereGroup b inner negate chain) := by
  refine (alike_builder inner).bind fun x y hxy => ?_
  have hwheres := hxy.body.wheres
  have hempty : x.body.wheres.isEmpty = y.body.wheres.isEmpty := by
    rw [← Filter.isEmpty_blankAll, hwheres, Filter.isEmpty_blankAll]
  dsimp only
  rw [hempty]
  split
  · refine (alike_lift_eq _).bind_eq fun joined => ?_
    refine (alike_noteTaking inner).bind_eq fun _ => alike_addFilter ?_
    rw [Filter.blank, Filter.blank, hwheres]
  · exact alike_pure rfl

/-- A predicate is alike. -/
theorem alike_whereExists (negate : Bool) (chain : String) :
    likeness.Alike Eq (whereExists b inner negate chain)
    (whereExists b inner negate chain) :=
  alike_chain _ fun _ => rfl

/-- A count is alike whatever value it is compared with. -/
theorem alike_whereCount (operator : String) (count : Value)
    (chain : String) :
    likeness.Alike Eq (whereCount b inner operator count chain)
      (whereCount b inner operator count.blank chain) := by
  refine (alike_bind count.blank_blank.symm).bind fun value value' hvalue =>
    ?_
  apply alike_chain
  intro chain
  rw [Filter.blank, Filter.blank, hvalue]

mutual

/-- **A filter mapping cannot be told apart from its outline.** -/
theorem alike_whereFilters (b : BuilderId) (chain : String)
    (entries : List (String × Value)) :
    likeness.Alike Eq (whereFilters b chain entries)
      (whereFilters b chain (Value.outlineFilters entries)) := by
  match entries with
  | [] => exact alike_pure rfl
  | (key, value) :: rest =>
    have hrest := alike_whereFilters b "AND" rest
    have hentry : ∀ x y : Building Unit, likeness.Alike Eq x y →
        likeness.Alike Eq (x >>= fun _ => whereFilters b "AND" rest)
          (y >>= fun _ => whereFilters b "AND" (Value.outlineFilters rest)) :=
      fun x y hxy => hxy.bind fun _ _ _ => hrest
    rw [Value.outlineFilters, whereFilters, whereFilters]
    cases groupChain? key with
    | some groupChain =>
      refine (alike_newSubQuery b).bind ?_
      rintro inner _ rfl
      refine (alike_whereGroups inner key groupChain value).bind fun _ _ _ =>
        ?_
      exact hentry _ _ (alike_whereGroup _ _)
    | none =>
      simp only [Option.isSome_none, Bool.false_eq_true, if_false,
        value.isNull_outline]
      split
      · split
        · exact hentry _ _ (alike_whereCompare _ _ _ value.blank_outline.symm)
        · exact alike_throw rfl
      · split
        · exact hentry _ _ (alike_whereNull _ _ _)
        · exact hentry _ _ (alike_whereCompare _ _ _ value.blank_outline.symm)

/-- An entry of groups shows how they nest, and their keys. -/
theorem alike_whereGroups (b : BuilderId) (key groupChain : String)
    (groups : Value) :
    likeness.Alike Eq (whereGroups b key groupChain groups)
      (whereGroups b key groupChain groups.outlineGroups) := by
  match groups with
  | .list groups =>
    by_cases hmaps : groups.all Value.isMap = true
    · have houtline := Value.all_isMap_outlineEach hmaps
      rw [Value.outlineGroups, if_pos hmaps, whereGroups, whereGroups,
        if_pos hmaps, if_pos houtline]
      exact alike_whereEachGroup b groupChain groups
    · rw [Value.outlineGroups, if_neg hmaps, whereGroups, whereGroups,
        if_neg hmaps]
      exact alike_throw rfl
  | .text s =>
    by_cases hs : s = ""
    · subst hs
      exact alike_pure rfl
    · have hthrow : ∀ s, s ≠ "" → whereGroups b key groupChain (.text s) =
          throw (.malformedGroups key (.text s)) := by
        intro s hs
        rw [whereGroups]
        exact hs
      have hempty : ¬ s.isEmpty = true := by simpa using hs
      rw [Value.outlineGroups, if_neg hempty, hthrow s hs,
        hthrow " " (by decide)]
      exact alike_throw rfl
  | .null | .bool _ | .int _ | .float _ | .map _ | .raw _ =>
    exact alike_throw rfl

/-- The groups of an entry show how they nest, and their keys. -/
theorem alike_whereEachGroup (b : BuilderId) (groupChain : String)
    (groups : List Value) :
    likeness.Alike Eq (whereEachGroup b groupChain groups)
      (whereEachGroup b groupChain (Value.outlineEach groups)) := by
  match groups with
  | [] => exact alike_pure rfl
  | group :: rest =>
    rw [Value.outlineEach, whereEachGroup, whereEachGroup]
    refine (alike_newSubQuery b).bind ?_
    rintro inner _ rfl
    refine (alike_whereMapping inner group).bind fun _ _ _ => ?_
    exact (alike_whereGroup _ _).bind fun _ _ _ =>
      alike_whereEachGroup b groupChain rest

/-- One group shows how it nests, and its keys. -/
theorem alike_whereMapping (b : BuilderId) (group : Value) :
    likeness.Alike Eq (whereMapping b group)
    (whereMapping b group.outlineGroup) := by
  match group with
  | .map entries => exact alike_whereFilters b "AND" entries
  | .null | .bool _ | .int _ | .float _ | .text _ | .list _ | .raw _ =>
    exact alike_pure rfl

end

/-! ### Values given to properties -/

/-- Assignments are compared without values. -/
abbrev SameAssignments (as as' : List Assignment) : Prop :=
  as.map Assignment.blank = as'.map Assignment.blank

/-- An assignment is bound alike. -/
theorem alike_assignment (owner key : String) (value : Value) :
    likeness.Alike (fun a a' => a.blank = a'.blank)
      (do return Assignment.mk owner key (← bind b value))
      (do return Assignment.mk owner key (← bind b value.blank)) := by
  refine (alike_bind value.blank_blank.symm).bind fun e e' he => alike_pure ?_
  rw [Assignment.blank, Assignment.blank, he]

/-- Values are blanked one by one. -/
theorem map_eq_blankValues (values : List (String × Value)) :
    values.map (fun entry => (entry.1, entry.2.blank)) =
      (blankValues values).map id := by
  rw [blankValues, List.map_id]

/-- Blanking leaves no values where there were none. -/
theorem isEmpty_blankValues (values : List (String × Value)) :
    (blankValues values).isEmpty = values.isEmpty := by
  rw [blankValues, List.isEmpty_map]

/-- Values are bound alike for the elements that are named. -/
theorem alike_assignments (values : List (String × Value)) :
    likeness.Alike SameAssignments (assignments b values)
    (assignments b (blankValues values)) := by
  refine (alike_entry b).bind ?_
  rintro entry _ rfl
  refine alike_mapM (map_eq_blankValues values) ?_
  rintro ⟨written, value⟩ _ rfl
  exact alike_assignment _ _ value

/-- Values are bound alike for one element. -/
theorem alike_assignmentsOn (owner : String)
    (values : List (String × Value)) :
    likeness.Alike SameAssignments (assignmentsOn b owner values)
      (assignmentsOn b owner (blankValues values)) := by
  refine alike_mapM (map_eq_blankValues values) ?_
  rintro ⟨key, value⟩ _ rfl
  exact alike_assignment _ _ value

/-- Assignments that are set are blanked before or after. -/
theorem map_assign_blank (as : List Assignment) :
    (as.map SetItem.assign).map SetItem.blank =
      (as.map Assignment.blank).map SetItem.assign := by
  rw [List.map_map, List.map_map]
  rfl

/-! ### Changes -/

/-- An element is created or merged alike. -/
theorem alike_writeElement (writing : Pattern.Writing)
    (values : List (String × Value))
    {registration : Pattern.Registration Pattern.Element}
    (h : Pattern.Registration.likeness.Alike Pattern.Registration.SameElement
      registration
      registration) :
    likeness.Alike Eq (writeElement b writing values registration)
      (writeElement b writing (blankValues values) registration) := by
  refine (alike_register h).bind fun e e' he => ?_
  dsimp only
  rw [isEmpty_blankValues, Pattern.Element.name?_eq_of_blank_eq he]
  split
  · refine (alike_assignmentsOn _ values).bind fun as as' has => ?_
    refine (alike_register (Pattern.Registration.alike_assign _ _ has)).bind
      fun _ _ _ => ?_
    exact alike_pure rfl
  · exact alike_pure rfl

/-- Values to be written are given alike. -/
theorem alike_write (writing : Pattern.Writing)
    (values : List (String × Value)) :
    likeness.Alike Eq (write b writing values)
    (write b writing (blankValues values)) := by
  have hforM : likeness.Alike Eq
      (assignments b values >>= fun as => as.forM fun assignment => do
        let _ ← register b
          (Pattern.Registration.assign assignment.owner
            [assignment] writing.intent))
      (assignments b (blankValues values) >>= fun as =>
        as.forM fun assignment => do
        let _ ← register b
          (Pattern.Registration.assign assignment.owner
            [assignment] writing.intent)) := by
    refine (alike_assignments values).bind fun as as' has =>
      alike_forM has fun a a' ha => ?_
    have howner : a.owner = a'.owner := by
      show a.blank.owner = a'.blank.owner
      rw [ha]
    have hone : [a].map Assignment.blank = [a'].map Assignment.blank :=
      congrArg (fun a => [a]) ha
    rw [howner]
    refine (alike_register (Pattern.Registration.alike_assign _ _ hone)).bind
      fun _ _ _ => ?_
    exact alike_pure rfl
  unfold write
  split
  · refine (alike_edit fun s t hst => ?_).bind fun _ _ _ => hforM
    exact { hst with batchCreate := rfl }
  · exact hforM

/-- Of the first row only the columns are looked at. -/
theorem alike_batchColumns {first first' : List (String × Value)}
    (hkeys : first.map Prod.fst = first'.map Prod.fst) :
    let columns : List (String × Value) → Building Unit := fun row => do
      let body := (← builder b).body
      row.forM fun (written, _) => do
        let (owner, key) := propertyReference body.entry written
        let assignment : Assignment :=
          ⟨owner, key, .column body.batchVariable written⟩
        let _ ← register b
            (Pattern.Registration.assign owner [assignment] .toCreate)
    likeness.Alike Eq (columns first) (columns first') := by
  refine (alike_builder b).bind fun x y hxy => ?_
  dsimp only
  rw [hxy.body.entry, hxy.body.batchVariable]
  refine alike_forM hkeys ?_
  rintro ⟨written, _⟩ ⟨_, _⟩ rfl
  refine (alike_register (Pattern.Registration.alike_assign _ _ rfl)).bind
    fun _ _ _ => ?_
  exact alike_pure rfl

/-- Rows to create from show whether there are any, and the keys of the
first one. -/
theorem alike_writeBatch (rows : List (List (String × Value))) :
    likeness.Alike Eq (writeBatch b rows)
    (writeBatch b (outlineRows rows)) := by
  cases rows with
  | nil =>
    have hedit : likeness.Alike Eq (edit b fun body =>
        { body with batchCreate := none })
        (edit b fun body => { body with batchCreate := none }) :=
      alike_edit fun s t hst => { hst with batchCreate := rfl }
    exact hedit
  | cons first rest =>
    have hrows : outlineRows (first :: rest) = [first.map fun entry =>
        (entry.1, .null)] := by
      simp [outlineRows]
    rw [hrows]
    have hbatch : (Value.list ((first :: rest).map Value.map)).blank =
        (Value.list ([first.map fun entry => (entry.1, Value.null)].map
          Value.map)).blank := rfl
    have hkeys : first.map Prod.fst =
        (first.map fun entry => (entry.1, Value.null)).map Prod.fst := by
      rw [List.map_map]
      rfl
    refine (alike_bind hbatch).bind fun e e' he => ?_
    have hedit : ∀ batch batch' : Parameter, batch.blank = batch'.blank →
        likeness.Alike Eq
        (edit b fun body => { body with batchCreate := some batch })
        (edit b fun body => { body with batchCreate := some batch' }) := by
      intro batch batch' hparameter
      apply alike_edit
      intro s t hst
      exact { hst with batchCreate := congrArg some hparameter }
    cases e with
    | parameter batch =>
      cases e' with
      | parameter batch' =>
        have hparameter : batch.blank = batch'.blank :=
          Expression.parameter.inj he
        exact (hedit batch batch' hparameter).bind fun _ _ _ =>
          alike_batchColumns hkeys
      | _ => cases he
    | _ =>
      cases e' with
      | parameter => cases he
      | _ => exact alike_batchColumns hkeys

/-- A property is set alike. -/
theorem alike_set (property : String) {value value' : Value}
    (h : value.blank = value'.blank) :
    likeness.Alike Eq (set b property value) (set b property value') := by
  refine (alike_entry b).bind ?_
  rintro entry _ rfl
  refine (alike_bind h).bind fun e e' he => alike_edit fun s t hst =>
    { hst with sets := ?_ }
  simp only [List.map_append, hst.sets, List.map_cons, SetItem.blank,
    Assignment.blank, he]

/-- Items are set alike. -/
theorem alike_addSets (items : List SetItem) :
    likeness.Alike Eq (addSets b items) (addSets b items) := by
  apply alike_edit
  intro s t hst
  exact { hst with
    sets := by rw [List.map_append, hst.sets, List.map_append] }

/-- Projections are returned alike. -/
theorem alike_addReturns (projections : List Expression) :
    likeness.Alike Eq (addReturns b projections)
    (addReturns b projections) := by
  apply alike_edit
  intro s t hst
  exact { hst with
    returns := by rw [List.map_append, hst.returns, List.map_append] }

/-- Variables are deleted alike. -/
theorem alike_addDeletes (names : List String) :
    likeness.Alike Eq (addDeletes b names) (addDeletes b names) := by
  apply alike_edit
  intro s t hst
  exact { hst with
    deletes := by rw [List.map_append, hst.deletes, List.map_append] }

/-- A page is asked for alike. -/
theorem alike_paginate (page size : Int) :
    likeness.Alike Eq (paginate b page size) (paginate b page size) := by
  have hthrow : ∀ fault, likeness.Alike Eq (throw fault : Building Unit)
      (throw fault) :=
    fun _ => alike_throw rfl
  unfold paginate
  by_cases hpage : page < 1
  · simp only [hpage, if_true]
    exact hthrow (.pageOutOfRange page)
  · by_cases hsize : size < 1
    · simp only [hpage, hsize, if_true, if_false]
      exact hthrow (.pageSizeOutOfRange size)
    · simp only [hpage, hsize, if_false]
      exact alike_edit fun s t hst => { hst with skip := rfl, limit := rfl }

/-- A query is ordered alike. -/
theorem alike_orderBy (direction : String)
    (properties : List PropertyArgument) :
    likeness.Alike Eq (orderBy b direction properties)
    (orderBy b direction properties) := by
  refine (alike_lift_eq _).bind ?_
  rintro order _ rfl
  apply alike_edit
  intro s t hst
  refine { hst with order := rfl, orderBy := ?_ }
  rw [List.map_append, hst.orderBy, List.map_append, hst.entry]

end Building

/-! ### All changes -/

open Building Likeness in
/-- **A call that changes a query cannot be told apart from its outline.** -/
theorem Change.alike_perform (b : BuilderId) (change : Change) :
    Building.likeness.Alike Eq (change.perform b)
    (change.outline.perform b) := by
  cases change with
  | matchNode =>
    exact (alike_register (Pattern.Registration.alike_node _ _ _ rfl)).bind
      fun _ _ _ => alike_pure rfl
  | matchRelationship =>
    exact (alike_register
      (Pattern.Registration.alike_relationship _ _ _ _ _ _ rfl)).bind
      fun _ _ _ => alike_pure rfl
  | matchRaw | writeRaw =>
    exact (alike_register (Pattern.Registration.alike_raw _ _)).bind
      fun _ _ _ => alike_pure rfl
  | writeNode =>
    exact alike_writeElement _ _ (Pattern.Registration.alike_writtenNode
      _ _ _ rfl)
  | writeRelationship =>
    exact alike_writeElement
      _ _ (Pattern.Registration.alike_writtenRelationship _ _ _ _ _ _ rfl)
  | write => exact alike_write _ _
  | writeBatch => exact alike_writeBatch _
  | setOnMatch values =>
    refine (alike_assignments values).bind fun as as' has => ?_
    refine alike_edit fun s t hst => { hst with onMatch := ?_ }
    rw [List.map_append, List.map_append, hst.onMatch, map_assign_blank, has,
      map_assign_blank]
  | setOnCreate values =>
    refine (alike_assignments values).bind fun as as' has => ?_
    refine alike_edit fun s t hst => { hst with onCreate := ?_ }
    rw [List.map_append, List.map_append, hst.onCreate, map_assign_blank,
      has, map_assign_blank]
  | set property value => exact alike_set _ value.blank_blank.symm
  | setMany values =>
    refine alike_forM (map_eq_blankValues values) ?_
    rintro ⟨property, value⟩ _ rfl
    exact alike_set _ value.blank_blank.symm
  | compare property operator value chain =>
    exact alike_whereCompare _ _ _ value.blank_blank.symm
  | compareProperties => exact alike_whereProperties _ _ _ _
  | compareIn => exact alike_whereIn _ _ _
  | isNull => exact alike_whereNull _ _ _
  | rawFilter => exact alike_whereRaw _ _
  | filters entries chain => exact alike_whereFilters b chain entries
  | useConnection connection => exact alike_amend fun x y hxy =>
    { hxy with connection := rfl }
  | setLabels labels =>
    refine (alike_entry b).bind ?_
    rintro entry _ rfl
    exact alike_addSets _
  | setLabel | setRaw => exact alike_addSets _
  | remove items =>
    simp only [outline, perform]
    refine alike_edit fun s t hst => { hst with removes := ?_ }
    rw [hst.removes, hst.entry]
  | removeLabel name labels =>
    simp only [outline, perform]
    split
    · exact alike_pure rfl
    · exact alike_edit fun s t hst =>
        { hst with removes := by rw [hst.removes] }
  | delete => exact alike_addDeletes _
  | detachDelete =>
    refine (alike_edit fun s t hst => ?_).bind fun _ _ _ => alike_addDeletes _
    exact { hst with forceDelete := rfl }
  | return_ projections =>
    refine (alike_entry b).bind ?_
    rintro entry _ rfl
    exact alike_addReturns _
  | returnRaw | returnVariables => exact alike_addReturns _
  | returnCall =>
    refine (alike_entry b).bind ?_
    rintro entry _ rfl
    exact alike_addReturns _
  | returnAll =>
    simp only [outline, perform]
    exact alike_edit fun s t hst => { hst with returns := rfl }
  | distinct =>
    simp only [outline, perform]
    exact alike_edit fun s t hst => { hst with distinct := rfl }
  | skip =>
    simp only [outline, perform]
    exact alike_edit fun s t hst => { hst with skip := rfl }
  | limit =>
    simp only [outline, perform]
    exact alike_edit fun s t hst => { hst with limit := rfl }
  | paginate => exact alike_paginate _ _
  | orderBy => exact alike_orderBy _ _

end GraphQuery
