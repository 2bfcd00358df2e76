import GraphQuery.Builder.Workspace
import GraphQuery.Proofs.Patterns.Walks

/-!
# The parameters a query holds

What is written with parameters: expressions, the properties of pattern
elements, and filters.  A declaration puts nothing but the properties it
gives into a store (`Pattern.keeps_given`), so a walk leads to a pattern
with nothing but what its steps give.
-/

namespace GraphQuery

mutual

/-- The parameters an expression is written with. -/
def Expression.parameters : Expression → List Parameter
  | parameter p => [p]
  | distinct e => e.parameters
  | call _ arguments => Expression.parametersOfAll arguments
  | aliased e _ => e.parameters
  | _ => []

/-- The parameters a list of expressions is written with. -/
def Expression.parametersOfAll : List Expression → List Parameter
  | [] => []
  | e :: rest => e.parameters ++ Expression.parametersOfAll rest

end

/-- The parameters values are given by. -/
def assignedParameters (assignments : List Assignment) : List Parameter :=
  assignments.flatMap fun a => a.value.parameters

/-- The parameters an item to set is written with. -/
def SetItem.parameters : SetItem → List Parameter
  | assign a => a.value.parameters
  | _ => []

namespace Pattern

/-- The parameters in the properties of an element. -/
def Element.parameters (e : Element) : List Parameter :=
  assignedParameters e.properties

/-- The parameters in the properties of the declared elements. -/
def Store.parameters (s : Store) : List Parameter :=
  s.entries.flatMap fun entry => entry.element.parameters

end Pattern

/-- The parameters of a query that stand neither in its filters nor in
nested queries. -/
def Content.parameters (c : Content) : List Parameter :=
  c.pattern.parameters ++ Expression.parametersOfAll
    (c.returns ++ c.deletes ++ c.orderBy) ++
    (c.sets ++ c.onMatch ++ c.onCreate).flatMap SetItem.parameters ++
      c.batchCreate.toList

namespace Filter

variable {β : Type}

mutual

/-- The parameters a filter is written with; those of nested queries do not
count. -/
def parameters : Filter β → List Parameter
  | compare left _ right _ => left.parameters ++ right.parameters
  | compareProperties left _ right _ => left.parameters ++ right.parameters
  | isNull subject _ _ => subject.parameters
  | group filters _ _ => parametersOfAll filters
  | count _ _ value _ => value.parameters
  | _ => []

/-- The parameters a list of filters is written with. -/
def parametersOfAll : List (Filter β) → List Parameter
  | [] => []
  | filter :: rest => parameters filter ++ parametersOfAll rest

end

mutual

/-- The queries nested in a filter. -/
def nested : Filter β → List β
  | group filters _ _ => nestedInAll filters
  | .exists body _ _ => [body]
  | count body _ _ _ => [body]
  | _ => []

/-- The queries nested in a list of filters. -/
def nestedInAll : List (Filter β) → List β
  | [] => []
  | filter :: rest => nested filter ++ nestedInAll rest

end

/-- The parameters of two lists of filters are those of both. -/
@[simp]
theorem parametersOfAll_append (fs gs : List (Filter β)) :
    parametersOfAll (fs ++ gs) = parametersOfAll fs ++
      parametersOfAll gs := by
  induction fs with
  | nil => rfl
  | cons f rest ih => rw [List.cons_append, parametersOfAll, ih,
      parametersOfAll, List.append_assoc]

/-- What two lists of filters nest is what both of them do. -/
@[simp]
theorem nestedInAll_append (fs gs : List (Filter β)) :
    nestedInAll (fs ++ gs) = nestedInAll fs ++ nestedInAll gs := by
  induction fs with
  | nil => rfl
  | cons f rest ih => rw [List.cons_append, nestedInAll, ih, nestedInAll,
      List.append_assoc]

end Filter

/-- The parameters a query holds itself, outside of the queries nested in
it. -/
def Structure.parameters {β : Type} (s : Structure β) : List Parameter :=
  s.toContent.parameters ++ Filter.parametersOfAll s.wheres

/-- The parameters of two lists of expressions are those of both. -/
@[simp]
theorem Expression.parametersOfAll_append (xs ys : List Expression) :
    parametersOfAll (xs ++ ys) = parametersOfAll xs ++
      parametersOfAll ys := by
  induction xs with
  | nil => rfl
  | cons x rest ih => rw [List.cons_append, parametersOfAll, ih,
      parametersOfAll, List.append_assoc]

/-- A parameter of expressions is one of some of them. -/
theorem Expression.mem_parametersOfAll {xs : List Expression}
    {p : Parameter} :
    p ∈ parametersOfAll xs ↔ ∃ x ∈ xs, p ∈ x.parameters := by
  induction xs with
  | nil => simp [parametersOfAll]
  | cons x rest ih => simp [parametersOfAll, ih]

/-- Expressions without parameters have none together. -/
theorem Expression.parametersOfAll_eq_nil {xs : List Expression}
    (h : ∀ x ∈ xs, x.parameters = []) : parametersOfAll xs = [] := by
  refine List.eq_nil_iff_forall_not_mem.mpr fun p hp => ?_
  obtain ⟨x, hx, hp'⟩ := mem_parametersOfAll.mp hp
  simp [h x hx] at hp'

/-- A parameter of two lists of assignments is one of either. -/
theorem mem_assignedParameters_append {xs ys : List Assignment}
    {p : Parameter} :
    p ∈ assignedParameters (xs ++ ys) ↔ p ∈ assignedParameters xs ∨
    p ∈ assignedParameters ys := by
  rw [assignedParameters, List.flatMap_append, List.mem_append]
  rfl

/-! ### What registrations put into a store -/

namespace Pattern

variable {s s' : Store} {e : Element} {p : Parameter}

namespace Store

/-- A parameter of a pattern is one of some element. -/
theorem mem_parameters :
    p ∈ s.parameters ↔ ∃ entry ∈ s.entries, p ∈ entry.element.parameters :=
  List.mem_flatMap

end Store

namespace Declaration

variable {d : Declaration} {known entry : Entry}

/-- A new entry has the parameters of its declaration. -/
theorem mem_parameters_of_entry? (h : d.entry? = some entry)
    (hp : p ∈ entry.element.parameters) :
    p ∈ assignedParameters d.properties := by
  cases d with
  | node | relationship =>
    cases h
    exact hp
  | raw text intent =>
    cases h
    simp [Element.parameters, Element.properties, assignedParameters] at hp
  | assign => cases h

/-- An entry that is extended has no other parameters than it had and was
given: what a node or a relationship is given comes behind what it has, and
all else has no properties. -/
theorem mem_parameters_of_extend (h : d.extend known = some entry)
    (hp : p ∈ entry.element.parameters) :
    p ∈ known.element.parameters ∨ p ∈ assignedParameters d.properties := by
  rcases known with ⟨_ | _ | _ | _, _⟩ <;> cases d <;> cases h
  all_goals first
    | exact mem_assignedParameters_append.mp hp
    | exact .inl hp

end Declaration

/-- The guarantee that a store holds given parameters only. -/
def Registration.holding (given : Parameter → Prop) : Guarantee Registry :=
  onStore (Guarantee.keeping fun s => ∀ p ∈ s.parameters, given p)

/-- **A declaration puts nothing into a store but the properties it gives.** -/
theorem keeps_given (given : Parameter → Prop) :
    Keeps (Guarantee.keeping fun s => ∀ p ∈ s.parameters, given p)
      fun properties => ∀ p ∈ assignedParameters properties, given p where
  none := by simp [assignedParameters]
  declaration d s s' hgiven happly hs := by
    refine ⟨fun p hp => ?_, trivial⟩
    obtain ⟨entry, hentry, hp⟩ := Store.mem_parameters.mp hp
    rcases (Declaration.makes_of_apply happly).mem_entries hentry with
        hold | hnew | hextended
    · exact hs p (Store.mem_parameters.mpr ⟨entry, hold, hp⟩)
    · exact hgiven p (Declaration.mem_parameters_of_entry? hnew hp)
    · obtain ⟨known, hknown, hextend⟩ := hextended
      rcases Declaration.mem_parameters_of_extend hextend hp with
          hbefore | hadded
      · exact hs p (Store.mem_parameters.mpr ⟨known, hknown, hbefore⟩)
      · exact hgiven p hadded

namespace WalkStep

/-- The parameters in the properties a step gives. -/
def parameters : WalkStep Assignment → List Parameter
  | store call => assignedParameters call.properties
  | _ => []

/-- A step of a walk has the parameters of what it gives. -/
theorem assignedParameters_properties (step : WalkStep Assignment) :
    assignedParameters step.properties = step.parameters := by
  cases step <;> rfl

end WalkStep

/-- **A walk leads to a pattern with nothing but the parameters its steps
give.** -/
theorem Position.given_of_run {given : Parameter → Prop}
    {steps : List (WalkStep Assignment)}
    (h : ∀ step ∈ steps, ∀ p ∈ step.parameters, given p) :
    ∀ position ∈ (Position.run none steps).2,
      ∀ p ∈ position.walk.registry.store.parameters, given p := by
  apply (keeps_given given).walk
  · show ∀ p ∈ Store.parameters {}, given p
    simp [Store.parameters]
  · intro step hstep
    rw [step.assignedParameters_properties]
    exact h step hstep
  · exact holds_none _

end Pattern

end GraphQuery
