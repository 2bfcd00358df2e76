import GraphQuery.Builder.Workspace

/-!
# Changes of a workspace

A step in a workspace replaces a stack, changes a builder or adds one.  Each
of these leaves all other stacks and builders as they are.
-/

namespace GraphQuery.Workspace

/-- A workspace with another stack in the place of one. -/
def withStack (w : Workspace) (n : Nat) (stack : ParameterStack) :
    Workspace :=
  { w with parameterStacks := w.parameterStacks.setIfInBounds n stack }

/-- A stack that is put in place is there, and the others are as they were. -/
theorem stack_withStack (w : Workspace) {n : Nat}
    (hn : n < w.parameterStacks.size) (stack : ParameterStack) (m : Nat) :
    (w.withStack n stack).stack m = if m = n then stack else w.stack m := by
  by_cases h : m = n
  · subst h
    simp [withStack, Workspace.stack, hn]
  · simp [withStack, Workspace.stack, h, Ne.symm h]

/-- A workspace in which a builder is changed. -/
def amended (w : Workspace) (b : BuilderId) (change : Builder → Builder) :
    Workspace :=
  { w with builders := w.builders.modify b change }

/-- A change of one builder leaves the others as they are. -/
theorem getElem?_amended (w : Workspace) (b : BuilderId) (change : Builder →
    Builder) (c : BuilderId) : (w.amended b change).builders[c]? =
      if b = c then w.builders[c]?.map change else w.builders[c]? :=
  Array.getElem?_modify

/-- The builder itself is changed. -/
theorem amended_self {w : Workspace} {b : BuilderId} {old : Builder}
    (h : w.builders[b]? = some old) (change : Builder → Builder) :
    (w.amended b change).builders[b]? = some (change old) := by
  rw [getElem?_amended, if_pos rfl, h, Option.map_some]

/-- A builder that was changed comes from one that was there. -/
theorem exists_of_amended_self {w : Workspace} {b : BuilderId}
    {change : Builder → Builder} {found : Builder}
    (h : (w.amended b change).builders[b]? = some found) :
    ∃ old, w.builders[b]? = some old ∧ change old = found := by
  rw [getElem?_amended, if_pos rfl] at h
  exact Option.map_eq_some_iff.mp h

/-- After a change a builder is the changed one, or as it was. -/
theorem amended_cases (w : Workspace) (b : BuilderId)
    (change : Builder → Builder) (c : BuilderId) :
    (b = c ∧ ∃ old, w.builders[c]? = some old ∧
      (w.amended b change).builders[c]? = some (change old)) ∨
    (w.amended b change).builders[c]? = w.builders[c]? := by
  have hnew := getElem?_amended w b change c
  by_cases hbc : b = c
  · rw [if_pos hbc] at hnew
    cases hold : w.builders[c]? with
    | none => exact .inr (by rw [hnew, hold, Option.map_none])
    | some old =>
      exact .inl ⟨hbc, old, rfl, by rw [hnew, hold, Option.map_some]⟩
  · exact .inr (by rw [hnew, if_neg hbc])

/-- Workspaces that differ in their builders at most are the same if their
builders are. -/
theorem eq_of_builders {w w' : Workspace}
    (hrest : w' = { w with builders := w'.builders })
    (h : ∀ c : Nat, w'.builders[c]? = w.builders[c]?) : w' = w := by
  rw [hrest, Array.ext_getElem? h]

/-- A change counts for what it makes of the builder there is. -/
theorem amended_congr {w : Workspace} {b : BuilderId}
    {change change' : Builder → Builder}
    (h : ∀ found, w.builders[b]? = some found →
      change found = change' found) :
    w.amended b change = w.amended b change' := by
  apply eq_of_builders rfl
  intro c
  rw [getElem?_amended, getElem?_amended]
  by_cases hbc : b = c
  · subst hbc
    rw [if_pos rfl, if_pos rfl]
    exact Option.map_congr h
  · rw [if_neg hbc, if_neg hbc]

/-- A change that changes nothing. -/
theorem amended_of_same {w : Workspace} {b : BuilderId}
    {change : Builder → Builder}
    (h : ∀ found, w.builders[b]? = some found → change found = found) :
    w.amended b change = w := by
  have hid : w.amended b change = w.amended b id := amended_congr h
  rw [hid]
  apply eq_of_builders rfl
  intro c
  rw [getElem?_amended, Option.map_id_apply, ite_self]

/-- A builder can be changed in two goes. -/
theorem amended_amended (w : Workspace) (b : BuilderId)
    (first second : Builder → Builder) :
    (w.amended b first).amended b second = w.amended b fun builder =>
      second (first builder) := by
  apply eq_of_builders rfl
  intro c
  rw [getElem?_amended, getElem?_amended, getElem?_amended]
  by_cases hbc : b = c
  · rw [if_pos hbc, if_pos hbc, if_pos hbc, Option.map_map]
    rfl
  · rw [if_neg hbc, if_neg hbc, if_neg hbc]

/-- The stack of a builder is the one with its number. -/
theorem stackOf_eq {w : Workspace} {b : BuilderId} {builder : Builder}
    (h : w.builders[b]? = some builder) :
    w.stackOf b = w.stack builder.stack := by
  rw [stackOf, h]

/-- The query of a builder is the one it builds. -/
theorem body_eq {w : Workspace} {b : BuilderId} {builder : Builder}
    (h : w.builders[b]? = some builder) : w.body b = builder.body := by
  rw [body, h]
  rfl

/-- Builders that are the same build the same query. -/
theorem body_congr {w w' : Workspace} {b : BuilderId}
    (h : w'.builders[b]? = w.builders[b]?) :
    w'.body b = w.body b := by
  rw [body, body, h]

/-- A builder that is not there has an empty stack. -/
theorem stackOf_of_none {w : Workspace} {b : BuilderId}
    (h : w.builders[b]? = none) :
    w.stackOf b = { stem := "" } := by
  rw [stackOf, h]

/-- A change that keeps the content changes nothing. -/
theorem changed_id (w : Workspace) (b : BuilderId) : w.changed b id = w := by
  have hbuilders : w.builders.modify b (fun builder => builder) =
      w.builders := by
    apply Array.ext_getElem?
    intro i
    rw [Array.getElem?_modify]
    split <;> simp
  exact congrArg (fun builders => { w with builders }) hbuilders

/-- A workspace with one more builder. -/
def extended (w : Workspace) (builder : Builder) : Workspace :=
  { w with builders := w.builders.push builder }

/-- A new builder is the last one, and the others are as they were. -/
theorem extended_cases (w : Workspace) (builder : Builder) (c : BuilderId) :
    (w.builders[c]? = none ∧ (w.extended builder).builders[c]? =
      some builder) ∨
      (w.extended builder).builders[c]? = w.builders[c]? := by
  have hnew : (w.extended builder).builders[c]? =
      if c = w.builders.size then some builder else w.builders[c]? :=
        Array.getElem?_push
  by_cases hc : c = w.builders.size
  · exact .inl ⟨by simp [hc], by rw [hnew, if_pos hc]⟩
  · exact .inr (by rw [hnew, if_neg hc])

/-- A workspace in which a builder has taken filters over from another one. -/
def taken (w : Workspace) (b c : BuilderId) : Workspace :=
  { w with takings := w.takings ++ [(b, c)] }

end GraphQuery.Workspace
