import GraphQuery.Proofs.Execution
import GraphQuery.Proofs.Parameters.Grounded

/-!
# What the calls of a builder bind

Every call that changes a builder, and every step it is made of, keeps
parameters bound where they were made; `Change.kept_perform` is the
statement for the calls.
-/

namespace GraphQuery

/-- The parameters of a query are those of its pattern, of what it returns,
deletes, orders by and sets, and of its batch. -/
theorem Content.mem_parameters {c : Content} {p : Parameter} :
    p ∈ c.parameters ↔ p ∈ c.pattern.parameters ∨
      p ∈ Expression.parametersOfAll c.returns ∨
      p ∈ Expression.parametersOfAll c.deletes ∨
      p ∈ Expression.parametersOfAll c.orderBy ∨
      p ∈ c.sets.flatMap SetItem.parameters ∨
      p ∈ c.onMatch.flatMap SetItem.parameters ∨
      p ∈ c.onCreate.flatMap SetItem.parameters ∨
      p ∈ c.batchCreate.toList := by
  simp only [Content.parameters, Expression.parametersOfAll_append,
    List.flatMap_append,
    List.mem_append, or_assoc]

namespace Building

open Guarantee Workspace

variable {given : Parameter → Prop} {w : Workspace} {b : BuilderId}

/-- A step that leaves builders, stacks and takings as they are. -/
theorem at_modifyGet_of_eq {α : Type} {f : Workspace → α × Workspace}
    {p : α → Workspace → Prop}
    (hbuilders : (f w).2.builders = w.builders)
    (hstacks : (f w).2.parameterStacks = w.parameterStacks)
    (htakings : (f w).2.takings = w.takings) (hfits : p (f w).1 (f w).2) :
    (grounding given).At w (modifyGet f) p := by
  refine at_modifyGet fun hw => ?_
  have hsubset : w.takings ⊆ (f w).2.takings := htakings ▸ List.Subset.refl _
  obtain ⟨hgrounded, hgrows⟩ := Grounded.of_eq hw hbuilders hstacks hsubset
  exact ⟨hgrounded, hgrows, hfits⟩

/-- Logging binds nothing. -/
theorem kept_log (event : LogEvent) : (grounding given).Kept (log event) :=
  fun _ => at_modifyGet_of_eq rfl rfl rfl trivial

/-- A builder from which filters are to be taken is noted, and is as it was. -/
theorem at_noteTaking (inner : BuilderId) :
    (grounding given).At w (noteTaking b inner) fun _ w' =>
      w'.TakesFrom b inner ∧ w'.body inner = w.body inner := by
  refine at_modify fun hw => ?_
  have hnoted : Grounded given (w.taken b inner) ∧
      Grows w (w.taken b inner) :=
    Grounded.of_eq hw rfl rfl (List.subset_append_left _ _)
  obtain ⟨hgrounded, hgrows⟩ := hnoted
  exact ⟨hgrounded, hgrows, List.mem_append_right _ List.mem_cons_self, rfl⟩

/-- The expression that refers to a value is written with what the builder
binds. -/
theorem at_bind (value : Value) :
    (grounding given).At w (bind b value) fun e w' =>
    ∀ p ∈ e.parameters, (w'.stackOf b).Binds p := by
  refine at_builder_bind fun found hfound =>
    at_get_bind (at_of_holds fun hw => ?_)
  obtain ⟨hgrounded, hgrows, hbinds⟩ := Grounded.withStack_add hw hfound value
  rcases hadd : (w.stack found.stack).add value with ⟨e, stack⟩
  rw [hadd] at hgrounded hgrows hbinds
  refine (at_set (p := fun _ w' => w.withStack found.stack stack = w')
    fun _ => ⟨hgrounded, hgrows, rfl⟩).bind ?_
  rintro _ _ - - rfl
  exact at_pure fun _ => hbinds

/-- A change of one builder that is allowed keeps all bindings. -/
theorem at_amend {change : Builder → Builder}
    (h : ∀ old, w.builders[b]? = some old →
      Allowed given w b old (change old)) :
    (grounding given).At w (amend b change) fun _ _ => True :=
  at_modify fun hw => ⟨hw.amended h, Allowed.grows h, trivial⟩

/-- A change of the content: what it adds is given, or bound by the builder. -/
theorem at_edit {change : Structure BuilderId → Structure BuilderId}
    (hwheres : ∀ s, (change s).wheres = s.wheres)
    (hcontent : ∀ s, ∀ p ∈ (change s).toContent.parameters,
      p ∈ s.toContent.parameters ∨ given p ∨ (w.stackOf b).Binds p) :
    (grounding given).At w (edit b change) fun _ _ => True :=
  at_amend fun old _ => ⟨.inl rfl, hcontent old.body, .inl (hwheres old.body)⟩

/-- A change that adds no parameters. -/
theorem kept_edit {change : Structure BuilderId → Structure BuilderId}
    (hwheres : ∀ s, (change s).wheres = s.wheres)
    (hcontent : ∀ s, ∀ p ∈ (change s).toContent.parameters,
      p ∈ s.toContent.parameters) :
    (grounding given).Kept (edit b change) :=
  fun _ => at_edit hwheres fun s p hp => .inl (hcontent s p hp)

/-- Appending a filter: one that is written with what the builder binds, or
the filters of a builder it takes them from as a group. -/
theorem at_addFilter {filter : Filter BuilderId}
    (h : (∀ p ∈ filter.parameters, (w.stackOf b).Binds p) ∨ ∃ c negate chain,
      w.TakesFrom b c ∧ filter = .group (w.body c).wheres negate chain) :
    (grounding given).At w (addFilter b filter) fun _ _ => True :=
  at_amend fun _ _ => ⟨.inl rfl, fun _ hp => .inl hp, .inr ⟨filter, rfl, h⟩⟩

/-- A filter without parameters. -/
theorem kept_addFilter {filter : Filter BuilderId}
    (h : filter.parameters = []) :
    (grounding given).Kept (addFilter b filter) :=
  fun _ => at_addFilter (.inl (by simp [h]))

/-! ### Patterns -/

/-- A registration puts into a store what it is given. -/
theorem at_registerIn {α : Type} {held : Parameter → Prop}
    {store : Pattern.Store} {sequence : Nat}
    {registration : Pattern.Registration α}
    (hkept : (Pattern.Registration.holding held).Kept registration)
    (hstore : ∀ p ∈ store.parameters, held p) :
    (grounding given).At w (registerIn store sequence registration)
      fun out w' =>
      w.builders = w'.builders ∧ w.parameterStacks = w'.parameterStacks ∧
        ∀ p ∈ out.2.parameters, held p := by
  refine at_modifyGet_of_eq rfl rfl rfl ⟨rfl, rfl, ?_⟩
  exact (hkept ⟨store, w.sequences[sequence]?.getD {}, w.log⟩ hstore).1

/-- A registration whose properties are written with what the builder binds. -/
theorem at_register {α : Type} {registration : Pattern.Registration α}
    (h : ∀ held : Parameter → Prop, (∀ p, (w.stackOf b).Binds p → held p) →
      (Pattern.Registration.holding held).Kept registration) :
    (grounding given).At w (register b registration) fun _ _ => True := by
  refine at_builder_bind fun found hfound => ?_
  let held : Parameter → Prop := fun p =>
    p ∈ found.body.pattern.parameters ∨ (w.stackOf b).Binds p
  have hkept : (Pattern.Registration.holding held).Kept registration :=
    h held fun p hp => .inr hp
  refine (at_registerIn hkept fun p hp => .inl hp).bind ?_
  rintro ⟨outcome, pattern⟩ w' - - ⟨hbuilders, hstacks, hheld⟩
  have hstackOf : w'.stackOf b = w.stackOf b := by
    simp only [stackOf, stack, hbuilders, hstacks]
  have hedit : (grounding given).At w' (edit b fun body =>
      { body with pattern }) fun _ _ => True := by
    refine at_amend fun old hold => ⟨.inl rfl, fun p hp => ?_, .inl rfl⟩
    obtain rfl : found = old :=
      Option.some.inj (hfound.symm.trans (hbuilders ▸ hold))
    rw [Content.mem_parameters] at hp
    rw [Content.mem_parameters, hstackOf]
    rcases hp with hp | hrest
    · rcases hheld p hp with hold | hbound
      · exact .inl (.inl hold)
      · exact .inr (.inr hbound)
    · exact .inl (.inr hrest)
  exact hedit.bind fun _ _ _ _ _ => kept_lift _ _

/-! ### New builders -/

/-- A new stack is there. -/
theorem at_newStack : (grounding given).At w newStack fun n w' =>
    n < w'.parameterStacks.size := by
  refine at_modifyGet fun hw => ?_
  obtain ⟨hgrounded, hgrows⟩ := hw.push_stack (.empty w.settings)
  exact ⟨hgrounded, hgrows, by simp⟩

/-- A new sequence of names changes no stack. -/
theorem at_newSequence {names : Pattern.NameSequence} {n : Nat}
    (hn : n < w.parameterStacks.size) :
    (grounding given).At w (newSequence names) fun _ w' =>
      n < w'.parameterStacks.size :=
  at_modifyGet_of_eq rfl rfl rfl hn

/-- A builder with a stack, without filters and with given parameters only,
can be added. -/
theorem at_add {builder : Builder}
    (hstack : builder.stack < w.parameterStacks.size)
    (hcontent : ∀ p ∈ builder.body.toContent.parameters, given p)
    (hwheres : builder.body.wheres = []) :
    (grounding given).At w (add builder) fun _ _ => True := by
  refine at_modifyGet fun hw => ?_
  obtain ⟨hgrounded, hgrows⟩ := hw.extended hstack hcontent hwheres
  exact ⟨hgrounded, hgrows, trivial⟩

/-- A new query on a stack that is there can be added. -/
theorem at_newQuery {stack sequence : Nat} {pattern : Pattern.Store}
    {entry : String} (hstack : stack < w.parameterStacks.size)
    (hpattern : ∀ p ∈ pattern.parameters, given p) :
    (grounding given).At w (newQuery stack sequence pattern entry) fun _ _ =>
      True := by
  refine at_get_bind (at_add hstack (fun p hp => ?_) rfl)
  rw [Content.mem_parameters] at hp
  exact hpattern p (by simpa [Expression.parametersOfAll] using hp)

/-- A sub-query is on the stack of its builder and holds nothing. -/
theorem kept_newSubQuery : (grounding given).Kept (newSubQuery b) := by
  refine fun w => at_of_holds fun hw => at_builder_bind fun found hfound =>
    at_get_bind ?_
  refine at_add (hw.stack_lt b found hfound) (fun p hp => ?_) rfl
  rw [Content.mem_parameters] at hp
  simp [Expression.parametersOfAll, Pattern.Store.parameters] at hp

/-- The element a query starts from holds no parameters. -/
theorem kept_start_registration {held : Parameter → Prop} (how : QueryStart) :
    (Pattern.Registration.holding held).Kept how.registration := by
  cases how with
  | any labels name optional =>
    rw [QueryStart.registration]
    split
    · exact (Pattern.keeps_given _).relationship
        _ _ _ _ _ _ (by simp [assignedParameters])
    · exact (Pattern.keeps_given _).node _ _ _ (by simp [assignedParameters])
  | node =>
    exact (Pattern.keeps_given _).node _ _ _ (by simp [assignedParameters])
  | relationship =>
    exact (Pattern.keeps_given _).relationship
      _ _ _ _ _ _ (by simp [assignedParameters])

/-- A query can be started on a stack that is there. -/
theorem at_startWith {stack sequence : Nat} {how : QueryStart}
    (hstack : stack < w.parameterStacks.size) :
    (grounding given).At w (startWith stack sequence how) fun _ _ =>
      True := by
  have hnone : ∀ p ∈ Pattern.Store.parameters {}, False := by
    simp [Pattern.Store.parameters]
  refine (at_registerIn (kept_start_registration how) hnone).bind ?_
  rintro ⟨outcome, pattern⟩ w' - - ⟨-, hstacks, hpattern⟩
  refine at_lift_bind fun element _ =>
    at_newQuery (hstacks ▸ hstack) fun p hp => ?_
  exact (hpattern p hp).elim

/-- A query can be started on a stack of its own. -/
theorem kept_start (how : QueryStart) :
    (grounding given).Kept (start how) := by
  intro w
  refine at_newStack.bind fun stack _ _ _ hstack => ?_
  exact (at_newSequence hstack).bind fun _ _ _ _ hstack' =>
    at_startWith hstack'

/-- A query started from a walk holds what the walk was given. -/
theorem kept_startFromWalk {steps : List (Pattern.WalkStep Assignment)}
    (h : ∀ step ∈ steps, ∀ p ∈ step.parameters, given p) :
    (grounding given).Kept (startFromWalk steps) := by
  have hwalk := Pattern.Position.given_of_run h
  unfold startFromWalk
  rcases hrun : Pattern.Position.run none steps with ⟨outcome, there⟩
  rw [hrun] at hwalk
  refine Kept.bind (fun w => at_modifyGet_of_eq rfl rfl rfl trivial) fun _ =>
    ?_
  refine (kept_lift outcome).bind fun _ => ?_
  cases there with
  | none => exact kept_throw _
  | some position =>
    dsimp only [Option.map_some]
    split
    · intro w
      refine at_newStack.bind fun stack _ _ _ hstack => ?_
      refine (at_newSequence hstack).bind fun _ _ _ _ hstack' => ?_
      exact at_newQuery hstack' (hwalk position rfl)
    · exact kept_throw _

/-- Compiling only logs. -/
theorem kept_compile (kind : QueryKind) (change : Content → Content) :
    (grounding given).Kept (compile b kind change) := by
  refine kept_get_bind fun w => ?_
  split
  · exact (kept_log _).bind (fun _ => kept_pure _) w
  · exact (kept_log _).bind (fun _ => kept_throw _) w

end Building

end GraphQuery
