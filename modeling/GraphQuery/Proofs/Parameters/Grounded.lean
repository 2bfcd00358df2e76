import GraphQuery.Builder.Change
import GraphQuery.Proofs.Parameters.Fresh
import GraphQuery.Proofs.Parameters.Held
import GraphQuery.Proofs.Workspaces
import Mathlib.Logic.Relation

/-!
# Every parameter is bound where it was made

A builder binds values in its stack, and what it binds is kept: `Grows`.  A
parameter a builder holds is bound in its own stack, or in that of a builder
whose filters it took over as a group: `Grounded`.  Every step in a
workspace keeps both.
-/

namespace GraphQuery

namespace Workspace

/-- A builder took the filters of another one over as a group; the other one
may have gone on. -/
def TakesFrom (w : Workspace) (b c : BuilderId) : Prop := (b, c) ∈ w.takings

/-- What a step does not undo: what is bound in the stack of a builder,
filters, and from which builders they were taken. -/
structure Grows (w w' : Workspace) : Prop where
  binds : ∀ b p, (w.stackOf b).Binds p → (w'.stackOf b).Binds p
  wheres : ∀ b, (w.body b).wheres <+: (w'.body b).wheres
  takings : w.takings ⊆ w'.takings

/-- A step that does nothing undoes nothing. -/
theorem Grows.refl (w : Workspace) : Grows w w where
  binds _ _ h := h
  wheres _ := List.prefix_rfl
  takings := List.Subset.refl _

/-- Two steps of which neither undoes anything. -/
theorem Grows.trans {w₁ w₂ w₃ : Workspace} (h : Grows w₁ w₂)
    (h' : Grows w₂ w₃) : Grows w₁ w₃ where
  binds b p hp := h'.binds b p (h.binds b p hp)
  wheres b := (h.wheres b).trans (h'.wheres b)
  takings := List.Subset.trans h.takings h'.takings

/-- A builder has taken from the builders it took from before. -/
theorem Grows.takesFrom {w w' : Workspace} (h : Grows w w') {b c : BuilderId}
    (htakes : w.TakesFrom b c) : w'.TakesFrom b c := h.takings htakes

/-- The parameters in a list of filters. -/
def filterParameters (w : Workspace) (b : BuilderId) : List Parameter :=
  Filter.parametersOfAll (w.body b).wheres

/-- What a builder filters by, it filters by when the workspace has grown. -/
theorem Grows.mem_filterParameters {w w' : Workspace} (h : Grows w w')
    {b : BuilderId} {p : Parameter} (hp : p ∈ w.filterParameters b) :
    p ∈ w'.filterParameters b := by
  obtain ⟨more, hmore⟩ := h.wheres b
  rw [filterParameters, ← hmore, Filter.parametersOfAll_append]
  exact List.mem_append_left _ hp

/-- A parameter in the filters of a builder is bound in the stack of a
builder these filters were made by: the builder itself, or one it took
filters from. -/
def Sourced (w : Workspace) (b : BuilderId) (p : Parameter) : Prop :=
  ∃ c, Relation.ReflTransGen w.TakesFrom b c ∧ p ∈ w.filterParameters c ∧
  (w.stackOf c).Binds p

/-- A parameter with a source keeps it. -/
theorem Grows.sourced {w w' : Workspace} (h : Grows w w') {b : BuilderId}
    {p : Parameter} (hp : w.Sourced b p) : w'.Sourced b p := by
  obtain ⟨c, hpath, hmem, hbinds⟩ := hp
  have hpath' := Relation.ReflTransGen.mono (fun _ _ => h.takesFrom) _ _ hpath
  exact ⟨c, hpath', h.mem_filterParameters hmem, h.binds c p hbinds⟩

/-- **Every parameter is bound where it was made**, but for those that were
`given` from outside. -/
structure Grounded (given : Parameter → Prop) (w : Workspace) : Prop where
  stack_lt : ∀ (b : BuilderId) (builder : Builder),
    w.builders[b]? = some builder → builder.stack < w.parameterStacks.size
  content : ∀ b, ∀ p ∈ (w.body b).toContent.parameters, given p ∨
  (w.stackOf b).Binds p
  filters : ∀ b, ∀ p ∈ w.filterParameters b, w.Sourced b p

/-- A step grounds what it adds: to the content only what is given or bound
by the builder, to the filters only what the builder binds or took over. -/
theorem Grounded.of_grows {given : Parameter → Prop} {w w' : Workspace}
    (hw : Grounded given w) (hgrows : Grows w w')
    (hstack : ∀ (b : BuilderId) (builder : Builder),
      w'.builders[b]? = some builder →
      builder.stack < w'.parameterStacks.size)
    (hcontent : ∀ b, ∀ p ∈ (w'.body b).toContent.parameters,
      p ∈ (w.body b).toContent.parameters ∨ given p ∨ (w'.stackOf b).Binds p)
    (hfilters : ∀ b, ∀ p ∈ w'.filterParameters b, p ∈ w.filterParameters b ∨
      (w'.stackOf b).Binds p ∨ ∃ c, w'.TakesFrom b c ∧
      p ∈ w.filterParameters c) :
    Grounded given w' where
  stack_lt := hstack
  content b p hp := by
    rcases hcontent b p hp with hold | hnew
    · exact (hw.content b p hold).imp_right (hgrows.binds b p)
    · exact hnew
  filters b p hp := by
    rcases hfilters b p hp with hold | hbinds | ⟨c, htakes, hmem⟩
    · exact hgrows.sourced (hw.filters b p hold)
    · exact ⟨b, .refl, hp, hbinds⟩
    · obtain ⟨d, hpath, hmem', hbinds⟩ := hgrows.sourced (hw.filters c p hmem)
      exact ⟨d, .head htakes hpath, hmem', hbinds⟩

/-- A workspace that differs in neither builders nor stacks. -/
theorem Grounded.of_eq {given : Parameter → Prop} {w w' : Workspace}
    (hw : Grounded given w) (hbuilders : w'.builders = w.builders)
    (hstacks : w'.parameterStacks = w.parameterStacks)
    (htakings : w.takings ⊆ w'.takings) :
    Grounded given w' ∧ Grows w w' := by
  have hbody : w'.body = w.body := by
    funext b
    rw [body, body, hbuilders]
  have hstackOf : w'.stackOf = w.stackOf := by
    funext b
    simp only [stackOf, stack, hbuilders, hstacks]
  have hgrows : Grows w w' :=
    ⟨fun b p h => by rwa [hstackOf], fun b => hbody ▸ List.prefix_rfl,
      htakings⟩
  refine ⟨hw.of_grows hgrows ?_ ?_ ?_, hgrows⟩
  · rw [hbuilders, hstacks]
    exact hw.stack_lt
  · intro b p hp
    rw [hbody] at hp
    exact .inl hp
  · intro b p hp
    rw [filterParameters, hbody] at hp
    exact .inl hp

/-- The guarantee of every step in a workspace. -/
def grounding (given : Parameter → Prop) : Guarantee Workspace where
  holds := Grounded given
  leads := Grows
  refl := Grows.refl
  trans := Grows.trans

/-! ### Changes of a workspace -/

/-- What is bound in a builder's stack is bound in the stack of a builder
that is there. -/
theorem exists_of_binds {w : Workspace} {b : BuilderId} {p : Parameter}
    (h : (w.stackOf b).Binds p) :
    ∃ builder, w.builders[b]? = some builder := by
  cases hb : w.builders[b]? with
  | some builder => exact ⟨builder, rfl⟩
  | none =>
    rw [stackOf_of_none hb] at h
    exact absurd h (ParameterStack.not_binds_of_size_eq_zero rfl p)

/-- Binding a value grounds the expression that refers to it.  The value is
bound under a free name, so no binding is lost. -/
theorem Grounded.withStack_add {given : Parameter → Prop} {w : Workspace}
    (hw : Grounded given w) {b : BuilderId} {builder : Builder}
    (hb : w.builders[b]? = some builder) (value : Value) :
    let w' := w.withStack builder.stack ((w.stack builder.stack).add value).2
    Grounded given w' ∧ Grows w w' ∧
      ∀ p ∈ ((w.stack builder.stack).add value).1.parameters,
      (w'.stackOf b).Binds p := by
  intro w'
  have hlt : builder.stack < w.parameterStacks.size :=
    hw.stack_lt b builder hb
  have hstack : ∀ m, w'.stack m =
      if m = builder.stack then ((w.stack builder.stack).add value).2
      else w.stack m := stack_withStack w hlt _
  have hgrows : Grows w w' := by
    refine ⟨fun c p hp => ?_, fun c => List.prefix_rfl, List.Subset.refl _⟩
    obtain ⟨other, hother⟩ := exists_of_binds hp
    have hother' : w'.builders[c]? = some other := hother
    rw [stackOf_eq hother] at hp
    rw [stackOf_eq hother', hstack]
    by_cases hsame : other.stack = builder.stack
    · rw [if_pos hsame]
      exact (hsame ▸ hp).add value
    · rwa [if_neg hsame]
  refine ⟨hw.of_grows hgrows ?_ (fun c p hp => .inl hp) (fun c p hp =>
    .inl hp), hgrows, ?_⟩
  · intro c other hother
    simpa [w', withStack] using hw.stack_lt c other hother
  · intro p hp
    have hb' : w'.builders[b]? = some builder := hb
    rw [stackOf_eq hb', hstack, if_pos rfl]
    rcases (w.stack builder.stack).add_cases value with ⟨fragment, -, hadd⟩ |
        ⟨-, hadd⟩
    · simp [hadd, Expression.parameters] at hp
    · rw [hadd] at hp ⊢
      rw [List.mem_singleton.mp hp]
      exact ParameterStack.binds_append_self
        (ParameterStack.freshName_notMem _)

/-- What a builder may be changed to: it stays on its stack, unless nothing
is bound there, its content takes nothing but what is given or bound in its
stack, and filters are only appended, with what is bound in its stack or as
a group of the filters of a builder it takes them from. -/
structure Allowed (given : Parameter → Prop) (w : Workspace) (b : BuilderId)
    (old new : Builder) :
    Prop where
  stack : new.stack = old.stack ∨
    (w.stack old.stack).size = 0 ∧ new.stack < w.parameterStacks.size
  content : ∀ p ∈ new.body.toContent.parameters,
    p ∈ old.body.toContent.parameters ∨ given p ∨ (w.stackOf b).Binds p
  wheres : new.body.wheres = old.body.wheres ∨ ∃ filter,
    new.body.wheres = old.body.wheres ++ [filter] ∧
    ((∀ p ∈ filter.parameters, (w.stackOf b).Binds p) ∨
      ∃ c negate chain, w.TakesFrom b c ∧
      filter = .group (w.body c).wheres negate chain)

/-- An allowed change only adds filters. -/
theorem Allowed.wheres_extended {given : Parameter → Prop} {w : Workspace}
    {b : BuilderId} {old new : Builder} (h : Allowed given w b old new) :
    old.body.wheres <+: new.body.wheres := by
  rcases h.wheres with heq | ⟨filter, heq, -⟩
  · exact heq ▸ List.prefix_rfl
  · exact heq ▸ List.prefix_append _ _

/-- The workspace only grows by an allowed change. -/
theorem Allowed.grows {given : Parameter → Prop} {w : Workspace}
    {b : BuilderId} {change : Builder → Builder}
    (h : ∀ old, w.builders[b]? = some old →
      Allowed given w b old (change old)) :
    Grows w (w.amended b change) := by
  refine ⟨fun c p hp => ?_, fun c => ?_, List.Subset.refl _⟩
  · rcases w.amended_cases b change c with ⟨rfl, old, hold, hnew⟩ | hsame
    · rw [stackOf_eq hold] at hp
      rw [stackOf_eq hnew]
      rcases (h old hold).stack with hsame | ⟨hempty, -⟩
      · rwa [hsame]
      · exact absurd hp (ParameterStack.not_binds_of_size_eq_zero hempty p)
    · obtain ⟨old, hold⟩ := exists_of_binds hp
      rw [stackOf_eq hold] at hp
      rw [stackOf_eq (hsame.trans hold)]
      exact hp
  · rcases w.amended_cases b change c with ⟨rfl, old, hold, hnew⟩ | hsame
    · rw [body_eq hold, body_eq hnew]
      exact (h old hold).wheres_extended
    · simp [body_congr hsame]

/-- **An allowed change of a builder keeps every parameter bound where it
was made.**  The stack of the builder, what it takes and what it filters by
are each as before, or allowed. -/
theorem Grounded.amended {given : Parameter → Prop} {w : Workspace}
    (hw : Grounded given w) {b : BuilderId} {change : Builder → Builder}
    (h : ∀ old, w.builders[b]? = some old →
      Allowed given w b old (change old)) :
    Grounded given (w.amended b change) := by
  have hgrows := Allowed.grows h
  refine hw.of_grows hgrows (fun c builder hc => ?_) (fun c p hp =>
    ?_) (fun c p hp => ?_)
  · rcases w.amended_cases b change c with ⟨rfl, old, hold, hnew⟩ | hsame
    · obtain rfl : change old = builder :=
        Option.some.inj (hnew.symm.trans hc)
      rcases (h old hold).stack with hsame | ⟨-, hlt⟩
      · rw [hsame]
        exact hw.stack_lt b old hold
      · exact hlt
    · exact hw.stack_lt c builder (hsame.symm.trans hc)
  · rcases w.amended_cases b change c with ⟨rfl, old, hold, hnew⟩ | hsame
    · rw [body_eq hnew] at hp
      rw [body_eq hold]
      exact ((h old hold).content p hp).imp_right fun hp' =>
        hp'.imp_right (hgrows.binds b p)
    · rw [body, hsame] at hp
      exact .inl hp
  · rcases w.amended_cases b change c with ⟨rfl, old, hold, hnew⟩ | hsame
    · rw [filterParameters, body_eq hnew] at hp
      rw [filterParameters, body_eq hold]
      rcases (h old hold).wheres with heq | ⟨filter, heq, hfilter⟩
      · rw [heq] at hp
        exact .inl hp
      · rw [heq, Filter.parametersOfAll_append, List.mem_append] at hp
        rcases hp with hp | hp
        · exact .inl hp
        · rcases hfilter with hbound | ⟨d, negate, chain, htakes, rfl⟩
          · refine .inr (.inl (hgrows.binds b p (hbound p ?_)))
            simpa [Filter.parametersOfAll] using hp
          · refine .inr (.inr ⟨d, hgrows.takesFrom htakes, ?_⟩)
            simpa [filterParameters, Filter.parametersOfAll,
              Filter.parameters] using hp
    · rw [filterParameters, body, hsame] at hp
      exact .inl hp

/-- A new builder that holds no parameters but given ones. -/
theorem Grounded.extended {given : Parameter → Prop} {w : Workspace}
    (hw : Grounded given w) {builder : Builder}
    (hstack : builder.stack < w.parameterStacks.size)
    (hcontent : ∀ p ∈ builder.body.toContent.parameters, given p)
    (hwheres : builder.body.wheres = []) :
    Grounded given (w.extended builder) ∧ Grows w (w.extended builder) := by
  have hgrows : Grows w (w.extended builder) := by
    refine ⟨fun c p hp => ?_, fun c => ?_, List.Subset.refl _⟩
    · obtain ⟨old, hold⟩ := exists_of_binds hp
      rcases w.extended_cases builder c with ⟨hnone, -⟩ | hsame
      · rw [hnone] at hold
        cases hold
      · rw [stackOf_eq hold] at hp
        rw [stackOf_eq (hsame.trans hold)]
        exact hp
    · rcases w.extended_cases builder c with ⟨hnone, -⟩ | hsame
      · rw [body, hnone]
        exact List.nil_prefix
      · simp [body_congr hsame]
  refine ⟨hw.of_grows hgrows (fun c other hc => ?_) (fun c p hp =>
    ?_) (fun c p hp => ?_), hgrows⟩
  all_goals rcases w.extended_cases builder c with ⟨hnone, hnew⟩ | hsame
  · obtain rfl : builder = other := Option.some.inj (hnew.symm.trans hc)
    exact hstack
  · exact hw.stack_lt c other (hsame.symm.trans hc)
  · rw [body_eq hnew] at hp
    exact .inr (.inl (hcontent p hp))
  · rw [body, hsame] at hp
    exact .inl hp
  · rw [filterParameters, body_eq hnew, hwheres] at hp
    cases hp
  · rw [filterParameters, body, hsame] at hp
    exact .inl hp

/-- A workspace with one more stack. -/
theorem Grounded.push_stack {given : Parameter → Prop} {w : Workspace}
    (hw : Grounded given w) (stack : ParameterStack) :
    let w' := { w with parameterStacks := w.parameterStacks.push stack }
    Grounded given w' ∧ Grows w w' := by
  intro w'
  have hstack : ∀ n, n < w.parameterStacks.size → w'.stack n = w.stack n := by
    intro n hn
    simp [w', Workspace.stack, Array.getElem?_push, Nat.ne_of_lt hn]
  have hgrows : Grows w w' := by
    refine ⟨fun c p hp => ?_, fun c => List.prefix_rfl, List.Subset.refl _⟩
    obtain ⟨old, hold⟩ := exists_of_binds hp
    have hold' : w'.builders[c]? = some old := hold
    rw [stackOf_eq hold] at hp
    rwa [stackOf_eq hold', hstack _ (hw.stack_lt c old hold)]
  refine ⟨hw.of_grows hgrows (fun c other hc => ?_) (fun c p hp => .inl hp)
    (fun c p hp => .inl hp),
    hgrows⟩
  have hlt := hw.stack_lt c other hc
  simp only [w', Array.size_push]
  omega

end Workspace

end GraphQuery
