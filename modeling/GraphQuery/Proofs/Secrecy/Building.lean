import GraphQuery.Proofs.Compiling.Copies
import GraphQuery.Proofs.Execution
import GraphQuery.Proofs.Secrecy.Compiling
import GraphQuery.Proofs.Secrecy.Registering

/-!
# Building does not look at values

Two workspaces are alike if their builders hold the same but for the values
of parameters, their stacks bind the same names, and in the second one
everything can be copied.  The steps builders are made of keep them alike:
binding a value (`Building.alike_bind`), registering
(`Building.alike_register`), editing a query (`Building.alike_edit`) and
starting one (`Building.alike_start`).  Compiling answers with the same
clauses and logs the same events (`Building.alike_compile`), unless a
builder of the first workspace cannot be copied: copying alone looks at
values.
-/

namespace GraphQuery

namespace ParameterStack

/-- A stack without its values. -/
def blank (s : ParameterStack) : ParameterStack :=
  { s with parameters := s.parameters.map Parameter.blank }

/-- Blanking leaves the names that are bound. -/
theorem names_blank (s : ParameterStack) : s.blank.names = s.names := by
  simp only [names, blank, List.map_map]
  rfl

/-- It leaves their number. -/
theorem size_blank (s : ParameterStack) : s.blank.size = s.size := by
  simp [size, blank]

/-- Blanking leaves the next name. -/
theorem freshName_blank (s : ParameterStack) :
    s.blank.freshName = s.freshName := by
  have hnumbered : s.blank.numbered = s.numbered := rfl
  have hcontains : s.blank.contains = s.contains := by
    funext name
    rw [contains, names_blank, contains]
  rw [freshName, freshName, freshNumber, freshNumber, hnumbered, hcontains,
    names_blank, size_blank]

/-- A parameter is bound before or after blanking. -/
theorem bind_blank (p : Parameter) (parameters : List Parameter) :
    bind p.blank (parameters.map Parameter.blank) =
      (bind p parameters).map Parameter.blank := by
  induction parameters with
  | nil => rfl
  | cons q rest ih =>
    by_cases hname : q.name = p.name
    · have hblank : q.blank.name = p.blank.name := hname
      rw [List.map_cons, bind, bind, if_pos hname, if_pos hblank,
        List.map_cons]
    · have hblank : q.blank.name ≠ p.blank.name := hname
      rw [List.map_cons, bind, bind, if_neg hname, if_neg hblank,
        List.map_cons, ih]

/-- **Binding a value does not look at it**, unless it is a fragment of
query text. -/
theorem add_blank (s : ParameterStack) (value : Value) :
    s.blank.add value.blank =
      ((s.add value).1.blank, (s.add value).2.blank) := by
  have hbound : ∀ value : Value,
      s.blank.add .null = (.parameter ⟨s.freshName, .null⟩,
        { s with parameters := (bind ⟨s.freshName,
          value⟩ s.parameters).map Parameter.blank }) := by
    intro value
    rw [← bind_blank, ← freshName_blank]
    rfl
  cases value with
  | raw fragment => rfl
  | _ => exact hbound _

end ParameterStack

/-- Two builders are the same but for the values of parameters. -/
structure Builder.Like (x y : Builder) : Prop where
  whole : x.whole = y.whole
  stack : x.stack = y.stack
  sequence : x.sequence = y.sequence
  body : x.body.Like y.body
  runner : x.runner = y.runner
  connection : x.connection = y.connection

/-- A builder is like itself. -/
theorem Builder.Like.refl (x : Builder) :
    x.Like x := ⟨rfl, rfl, rfl, .refl _, rfl, rfl⟩

/-- Two workspaces are the same but for the values of parameters and for
what can be copied, which is everything in the second one. -/
structure Workspace.Like (w w' : Workspace) : Prop where
  settings : w.settings = w'.settings
  parameterStacks : w.parameterStacks.map ParameterStack.blank =
    w'.parameterStacks.map ParameterStack.blank
  sequences : w.sequences = w'.sequences
  size : w.builders.size = w'.builders.size
  builders : ∀ b : BuilderId,
    Option.Rel Builder.Like w.builders[b]? w'.builders[b]?
  log : w.log = w'.log
  copies : w'.limits.Unlimited

namespace Workspace

variable {w w' : Workspace}

/-- A workspace in which everything can be copied. -/
def unlimited (w : Workspace) : Workspace :=
  { w with limits := { depth := none } }

/-- A workspace is like itself if everything could be copied. -/
theorem Like.of_unlimited (w : Workspace) : w.Like w.unlimited := by
  refine ⟨rfl, rfl, rfl, rfl, fun b => ?_, rfl, rfl, fun _ => rfl⟩
  show Option.Rel Builder.Like w.builders[b]? w.builders[b]?
  cases w.builders[b]? with
  | none => exact .none
  | some x => exact .some (Builder.Like.refl x)

/-- Stacks of like workspaces differ in values alone. -/
theorem Like.stack (h : w.Like w') (n : Nat) :
    (w.stack n).blank = (w'.stack n).blank := by
  have hmap : w.parameterStacks[n]?.map ParameterStack.blank =
      w'.parameterStacks[n]?.map ParameterStack.blank := by
    rw [← Array.getElem?_map, h.parameterStacks, Array.getElem?_map]
  rw [Workspace.stack, Workspace.stack]
  cases hn : w.parameterStacks[n]? with
  | none =>
    rw [hn] at hmap
    rw [Option.map_eq_none_iff.mp hmap.symm]
  | some s =>
    rw [hn] at hmap
    obtain ⟨s', hs', hblank⟩ := Option.map_eq_some_iff.mp hmap.symm
    rw [hs']
    exact hblank.symm

/-- Stacks of like builders differ in values alone. -/
theorem Like.stackOf (h : w.Like w') (b : BuilderId) :
    (w.stackOf b).blank = (w'.stackOf b).blank := by
  have hb := h.builders b
  rw [Workspace.stackOf, Workspace.stackOf]
  cases hx : w.builders[b]? with
  | none =>
    rw [hx] at hb
    generalize w'.builders[b]? = y at hb ⊢
    cases hb
    rfl
  | some x =>
    rw [hx] at hb
    generalize w'.builders[b]? = y at hb ⊢
    cases hb with
    | some hxy =>
      dsimp only
      rw [hxy.stack]
      exact h.stack _

/-- Stacks that are alike bind the same names in the same order. -/
theorem Like.names (h : w.Like w') (b : BuilderId) :
    (w.stackOf b).names = (w'.stackOf b).names := by
  rw [← ParameterStack.names_blank, h.stackOf, ParameterStack.names_blank]

/-- Their builders are alike. -/
theorem Like.body (h : w.Like w') (b : BuilderId) :
    (w.body b).Like (w'.body b) := by
  have hb := h.builders b
  rw [Workspace.body, Workspace.body]
  generalize w.builders[b]? = x at hb ⊢
  generalize w'.builders[b]? = y at hb ⊢
  cases hb with
  | none => exact .refl _
  | some hxy => exact hxy.body

/-- What is nested in them is given alike. -/
theorem Like.nested (h : w.Like w') (depth : Nat)
    (outer : List (BuilderId × Composition)) :
    w.nested depth outer = w'.nested depth outer := by
  induction depth generalizing outer with
  | zero => rfl
  | succ depth ih =>
    funext b composition
    have hclauses : composition.clauses
        ((w.body b).map (w.nested depth ((b, composition) :: outer))) =
        composition.clauses ((w'.body b).map
          (w'.nested depth ((b, composition) :: outer))) := by
      rw [ih]
      exact composition.clauses_eq_of_like ((h.body b).map _)
    rw [Workspace.nested, Workspace.nested, hclauses]

/-- **Builders of workspaces that are alike are composed of the same
clauses.** -/
theorem Like.composed (h : w.Like w') (b : BuilderId) (kind : QueryKind) :
    w.composed b kind = w'.composed b kind := by
  rw [Workspace.composed, Workspace.composed, opened, opened,
    h.nested, h.size]
  exact kind.composition.clauses_eq_of_like ((h.body b).map _)

/-- A builder that can be copied compiles to the clauses its like compiles
to. -/
theorem Like.clauses (h : w.Like w') {b : BuilderId} (kind : QueryKind)
    (hcopying : w.copying b = .ok ()) :
    w.clauses b kind = w'.clauses b kind := by
  rw [clauses_of_copying hcopying,
    clauses_of_copying (copying_of_unlimited h.copies b), h.composed]

/-- Builders changed in ways that cannot be told apart. -/
theorem Like.amend (h : w.Like w') (b : BuilderId)
    {change change' : Builder → Builder}
    (hchange : ∀ x y, x.Like y → (change x).Like (change' y)) :
    Like { w with builders := w.builders.modify b change }
      { w' with builders := w'.builders.modify b change' } := by
  refine ⟨h.settings, h.parameterStacks, h.sequences, ?_, fun c => ?_, h.log,
    h.copies⟩
  · rw [Array.size_modify, Array.size_modify, h.size]
  · have hc := h.builders c
    rw [Array.getElem?_modify, Array.getElem?_modify]
    by_cases hbc : b = c
    · rw [if_pos hbc, if_pos hbc]
      generalize w.builders[c]? = x at hc ⊢
      generalize w'.builders[c]? = y at hc ⊢
      cases hc with
      | none => exact .none
      | some hxy => exact .some (hchange _ _ hxy)
    · rw [if_neg hbc, if_neg hbc]
      exact hc

/-- Like builders can be added. -/
theorem Like.push (h : w.Like w') {x y : Builder} (hxy : x.Like y) :
    Like { w with builders := w.builders.push x }
    { w' with builders := w'.builders.push y } := by
  refine ⟨h.settings, h.parameterStacks, h.sequences, ?_, fun c => ?_, h.log,
    h.copies⟩
  · rw [Array.size_push, Array.size_push, h.size]
  · have hc := h.builders c
    rw [Array.getElem?_push, Array.getElem?_push, h.size]
    split
    · exact .some hxy
    · exact hc

/-- Builders can be changed alike. -/
theorem Like.changed (h : w.Like w') (b : BuilderId)
    {change change' : Content → Content}
    (hchange : ∀ c d, c.Like d → (change c).Like (change' d)) :
    (w.changed b change).Like (w'.changed b change') := by
  refine h.amend b fun x y hxy => { hxy with body := ?_ }
  exact { hxy.body with toLike := hchange _ _ hxy.body.toLike }

end Workspace

namespace Building

open Likeness

/-- Workspaces are compared without values, and so are faults.  A fault of
copying is an excuse. -/
def likeness : Likeness Workspace where
  states := Workspace.Like
  faults fault fault' := fault.blank = fault'.blank
  excused fault := fault.isOfCopying = true

/-- Expressions are compared without values. -/
abbrev SameExpression (e e' : Expression) : Prop := e.blank = e'.blank

variable {b : BuilderId}

/-- An outcome that is there already is alike. -/
theorem alike_lift_eq {α : Type} (r : Except Fault α) :
    likeness.Alike Eq (liftM r : Building α) (liftM r) :=
  alike_lift (Outcomes.of_eq fun _ => rfl)

/-- A builder is looked up alike. -/
theorem alike_builder (b : BuilderId) :
    likeness.Alike Builder.Like (builder b) (builder b) := by
  apply alike_get_bind
  intro w w' h
  have hb := h.builders b
  generalize w.builders[b]? = x at hb ⊢
  generalize w'.builders[b]? = y at hb ⊢
  cases hb with
  | none => exact alike_throw rfl
  | some hxy => exact alike_pure hxy

/-- The entry of a builder is looked up alike. -/
theorem alike_entry (b : BuilderId) : likeness.Alike Eq (entry b) (entry b) :=
  (alike_builder b).bind fun _ _ hxy => alike_pure hxy.body.entry

/-- A builder is changed alike by like changes. -/
theorem alike_amend {change change' : Builder → Builder}
    (h : ∀ x y, x.Like y → (change x).Like (change' y)) :
    likeness.Alike Eq (amend b change) (amend b change') :=
  alike_modify fun _ _ hw => hw.amend b h

/-- The query of a builder is changed alike by like changes. -/
theorem alike_edit
    {change change' : Structure BuilderId → Structure BuilderId}
    (h : ∀ s t, s.Like t → (change s).Like (change' t)) :
    likeness.Alike Eq (edit b change) (edit b change') :=
  alike_amend fun _ _ hxy => { hxy with body := h _ _ hxy.body }

/-- An event is logged alike. -/
theorem alike_log (event : LogEvent) :
    likeness.Alike Eq (log event) (log event) := by
  apply alike_modify
  intro w w' h
  rw [h.log]
  exact { h with log := rfl }

/-- **Copying a builder shows nothing** unless it fails. -/
theorem alike_copy (b : BuilderId) : likeness.Alike Eq (copy b) (copy b) := by
  apply alike_get_bind
  intro w w' hw
  rw [Workspace.copying_of_unlimited hw.copies]
  cases hcopying : w.copying b with
  | ok _ => exact alike_lift_eq _
  | error fault =>
    have hfault := (Workspace.uncopied_of_copying hcopying).isOfCopying
    exact alike_excused hfault _

/-- **Binding a value does not look at it**, unless it is a fragment of
query text. -/
theorem alike_bind {value value' : Value} (h : value.blank = value'.blank) :
    likeness.Alike SameExpression (bind b value) (bind b value') := by
  refine (alike_builder b).bind fun x y hxy => ?_
  apply alike_get_bind
  intro w w' hw
  have hadd : ∀ n,
      ((w.stack n).add value).1.blank = ((w'.stack n).add value').1.blank ∧
      ((w.stack n).add value).2.blank =
        ((w'.stack n).add value').2.blank := by
    intro n
    have hleft := ParameterStack.add_blank (w.stack n) value
    have hright := ParameterStack.add_blank (w'.stack n) value'
    rw [hw.stack n, h] at hleft
    exact Prod.mk.injEq .. ▸ hleft.symm.trans hright
  dsimp only
  rw [hxy.stack]
  obtain ⟨hexpression, hstack⟩ := hadd y.stack
  refine (alike_set ?_).bind fun _ _ _ => alike_pure hexpression
  refine { hw with parameterStacks := ?_ }
  rw [Array.map_setIfInBounds, Array.map_setIfInBounds, hw.parameterStacks,
    hstack]

/-- A store is filled by a registration that does not look at values. -/
theorem alike_registerIn {α β : Type} {R : α → β → Prop}
    {registration : Pattern.Registration α}
    {registration' : Pattern.Registration β} {store store' : Pattern.Store}
    (hstore : store.blank = store'.blank) (sequence : Nat)
    (h : Pattern.Registration.likeness.Alike R registration registration') :
    likeness.Alike (fun x y => likeness.Outcomes R x.1 y.1 ∧
      x.2.blank = y.2.blank)
      (registerIn store sequence registration)
      (registerIn store' sequence registration') := by
  apply alike_modifyGet
  intro w w' hw
  have hnames : w.sequences[sequence]?.getD {} = w'.sequences[sequence]?.getD
      {} := by
    rw [hw.sequences]
  obtain ⟨hregistry, hout⟩ := h.sure Pattern.Registration.strict
    (s := ⟨store, w.sequences[sequence]?.getD {}, w.log⟩)
    (t := ⟨store', w'.sequences[sequence]?.getD {}, w'.log⟩)
    ⟨hstore, hnames, hw.log⟩
  refine ⟨{ hw with sequences := ?_, log := hregistry.log },
    hout.of_faults fun _ _ => id, hregistry.store⟩
  exact (congrArg (Array.setIfInBounds w.sequences sequence)
    hregistry.names).trans
    (congrArg (fun sequences => Array.setIfInBounds sequences sequence _)
      hw.sequences)

/-- **Registering in the pattern of a builder does not look at values** if
the registration does not. -/
theorem alike_register {α β : Type} {R : α → β → Prop}
    {registration : Pattern.Registration α}
    {registration' : Pattern.Registration β}
    (h : Pattern.Registration.likeness.Alike R registration registration') :
    likeness.Alike R (register b registration)
    (register b registration') := by
  refine (alike_builder b).bind fun x y hxy => ?_
  rw [hxy.sequence]
  refine (alike_registerIn hxy.body.pattern _ h).bind ?_
  rintro ⟨outcome, pattern⟩ ⟨outcome', pattern'⟩ ⟨hout, hpattern⟩
  have hedit : ∀ s t : Structure BuilderId, s.Like t →
      Structure.Like { s with pattern } { t with pattern := pattern' } :=
    fun s t hst => { hst with pattern := hpattern }
  exact (alike_edit hedit).bind fun _ _ _ => alike_lift hout

/-- Like builders are added alike. -/
theorem alike_add {x y : Builder} (h : x.Like y) :
    likeness.Alike Eq (add x) (add y) :=
  alike_modifyGet fun _ _ hw => ⟨hw.push h, hw.size⟩

/-- A new stack is made alike. -/
theorem alike_newStack : likeness.Alike Eq newStack newStack := by
  apply alike_modifyGet
  intro w w' h
  have hsize : w.parameterStacks.size = w'.parameterStacks.size := by
    rw [← Array.size_map (f := ParameterStack.blank), h.parameterStacks,
      Array.size_map]
  refine ⟨{ h with parameterStacks := ?_ }, hsize⟩
  rw [Array.map_push, Array.map_push, h.parameterStacks, h.settings]

/-- A new sequence of names is made alike. -/
theorem alike_newSequence (names : Pattern.NameSequence) :
    likeness.Alike Eq (newSequence names) (newSequence names) := by
  apply alike_modifyGet
  intro w w' h
  rw [h.sequences]
  exact ⟨{ h with sequences := rfl }, rfl⟩

/-- A new query is made alike, whatever values its pattern holds. -/
theorem alike_newQuery (stack sequence : Nat)
    {pattern pattern' : Pattern.Store} (h : pattern.blank = pattern'.blank)
    (entry : String) :
    likeness.Alike Eq (newQuery stack sequence pattern entry)
      (newQuery stack sequence pattern' entry) := by
  apply alike_get_bind
  intro w w' hw
  rw [hw.settings]
  apply alike_add
  exact ⟨rfl, rfl, rfl, { Structure.Like.refl _ with pattern := h }, rfl, rfl⟩

/-- A new sub-query is made alike. -/
theorem alike_newSubQuery (b : BuilderId) :
    likeness.Alike Eq (newSubQuery b) (newSubQuery b) := by
  refine (alike_builder b).bind fun x y hxy => ?_
  apply alike_get_bind
  intro w w' hw
  rw [hw.settings, hxy.stack, hxy.sequence, hxy.body.entry]
  exact alike_add (Builder.Like.refl _)

/-- A builder that can be copied is compiled as its like is, to the same
clauses and with the same events. -/
theorem compile_of_copying (kind : QueryKind)
    {change change' : Content → Content}
    (h : ∀ c d, c.Like d → (change c).Like (change' d)) {w w' : Workspace}
    (hw : w.Like w') (hcopying : (w.changed b change).copying b = .ok ()) :
    (Computation.exec (compile b kind change) w).2.Like
        (Computation.exec (compile b kind change') w').2 ∧
      (Computation.exec (compile b kind change) w).1 =
        (Computation.exec (compile b kind change') w').1 := by
  have hnames : (w.stackOf b).sortedNames = (w'.stackOf b).sortedNames := by
    rw [ParameterStack.sortedNames, hw.names, ParameterStack.sortedNames]
  have hlogged : ∀ events,
      Workspace.Like { w with log := w.log ++ events }
        { w' with log := w'.log ++ events } := by
    intro events
    rw [hw.log]
    exact { hw with log := rfl }
  rw [compile, compile, Computation.exec_bind, Computation.exec_bind,
    Computation.exec_get, Computation.exec_get]
  dsimp only
  rw [(hw.changed b h).clauses kind hcopying, hnames]
  cases (w'.changed b change').clauses b kind with
  | ok clauses => exact ⟨hlogged _, rfl⟩
  | error fault => exact ⟨hlogged _, rfl⟩

/-- **Compiling does not look at values** unless it fails to copy them: not
for its clauses and not for what it logs. -/
theorem alike_compile (kind : QueryKind) {change change' : Content → Content}
    (h : ∀ c d, c.Like d → (change c).Like (change' d)) :
    likeness.Alike Eq (compile b kind change) (compile b kind change') := by
  intro w w' hw
  cases hcopying : (w.changed b change).copying b with
  | error fault =>
    obtain ⟨events, hexec⟩ := exec_compile b kind change w
    have hfault := (Workspace.uncopied_of_copying hcopying).isOfCopying
    refine .inl ⟨fault, ?_, hfault⟩
    rw [hexec, Workspace.clauses_of_copying_error hcopying]
  | ok _ =>
    obtain ⟨hstates, houtcome⟩ := compile_of_copying kind h hw hcopying
    refine .inr ⟨hstates, ?_⟩
    rw [houtcome]
    exact Outcomes.of_eq fun _ => rfl

/-- A builder is compiled alike as it is. -/
theorem alike_compile_unchanged (b : BuilderId) (kind : QueryKind) :
    likeness.Alike Eq (compile b kind) (compile b kind) :=
  alike_compile kind fun _ _ h => h

/-- The element a query starts from is registered alike. -/
theorem alike_registration (how : QueryStart) :
    Pattern.Registration.likeness.Alike Pattern.Registration.SameElement
      how.registration
      how.registration := by
  cases how with
  | any given name optional =>
    rw [QueryStart.registration]
    split
    · exact Pattern.Registration.alike_relationship _ _ _ _ _ _ rfl
    · exact Pattern.Registration.alike_node _ _ _ rfl
  | node => exact Pattern.Registration.alike_node _ _ _ rfl
  | relationship =>
    exact Pattern.Registration.alike_relationship _ _ _ _ _ _ rfl

/-- A query is started alike on a stack that is there. -/
theorem alike_startWith (stack sequence : Nat) (how : QueryStart) :
    likeness.Alike Eq (startWith stack sequence how)
    (startWith stack sequence how) := by
  refine (alike_registerIn rfl sequence (alike_registration how)).bind ?_
  rintro ⟨outcome, pattern⟩ ⟨outcome', pattern'⟩ ⟨hout, hpattern⟩
  refine (alike_lift hout).bind fun e e' he => ?_
  rw [Pattern.Element.name?_eq_of_blank_eq he]
  exact alike_newQuery _ _ hpattern _

/-- A query is started alike on a stack of its own. -/
theorem alike_start (how : QueryStart) :
    likeness.Alike Eq (start how) (start how) := by
  refine alike_newStack.bind ?_
  rintro stack _ rfl
  refine (alike_newSequence _).bind ?_
  rintro sequence _ rfl
  exact alike_startWith _ _ _

/-- Starting a query from a walk does not look at the values the walk gives. -/
theorem alike_startFromWalk (steps : List (Pattern.WalkStep Assignment)) :
    likeness.Alike Eq (startFromWalk steps)
      (startFromWalk (steps.map Pattern.WalkStep.blank)) := by
  obtain ⟨hout, hthere⟩ := Pattern.Position.run_alike .nowhere steps
  unfold startFromWalk
  rcases hx : Pattern.Position.run none steps with ⟨outcome, there⟩
  rcases hy : Pattern.Position.run none
      (steps.map Pattern.WalkStep.blank) with ⟨outcome', there'⟩
  rw [hx, hy] at hout hthere
  have houtcome : likeness.Alike Eq (liftM outcome : Building Unit)
      (liftM outcome') :=
    alike_lift (hout.of_faults fun _ _ => id)
  have hlog : ∀ events, likeness.Alike Eq
      (modify fun w : Workspace => { w with log := w.log ++ events } :
        Building PUnit)
      (modify fun w : Workspace => { w with log := w.log ++ events }) := by
    intro events
    apply alike_modify
    intro w w' h
    rw [h.log]
    exact { h with log := rfl }
  cases hthere with
  | nowhere => exact (hlog _).bind fun _ _ _ => houtcome.bind fun _ _ _ =>
    alike_throw rfl
  | @here w w' h c =>
    dsimp only [Option.map_some]
    rw [h.registry.log]
    refine (hlog _).bind fun _ _ _ => houtcome.bind fun _ _ _ => ?_
    have hentry : (w.registry.store.chunk .matched).findSome?
        Pattern.Element.name? =
        (w'.registry.store.chunk .matched).findSome?
          Pattern.Element.name? := by
      have hmap := Pattern.Store.map_blank_chunk h.registry.store .matched
      have hname : Pattern.Element.name? ∘ Pattern.Element.blank =
          Pattern.Element.name? := by
        funext e
        exact e.name?_blank
      rw [← hname, ← List.findSome?_map, hmap, List.findSome?_map]
    rw [hentry, h.registry.names]
    split
    · refine alike_newStack.bind ?_
      rintro stack _ rfl
      refine (alike_newSequence _).bind ?_
      rintro sequence _ rfl
      exact alike_newQuery _ _ h.registry.store _
    · exact alike_throw rfl

end Building

end GraphQuery
