import GraphQuery.Proofs.Condition.Calls
import GraphQuery.Proofs.Patterns.Rejections
import GraphQuery.Proofs.Scripts.Building

/-!
# Rejected calls of a builder

A call of a builder that is rejected takes nothing back.
`Change.rejected_stops` says for the calls that filter and for those that
give values to be written where they stop and what they leave; that this may
be a changed builder is shown by `Change.filters_remain_of_rejected`.

Filtering changes nothing but filters and bound values
(`Building.onlyFiltering`), and a group that is rejected is one of a
sub-query, whose filters the builder does not get.  Giving values to
properties goes through the pattern of the builder, where `Pattern.StopsIn`
says how a list of declarations is rejected.
-/

namespace GraphQuery

open GraphQuery.Computation

namespace Workspace

variable {w w' : Workspace} {b : BuilderId} {found : Builder}

/-- A workspace in which a builder has another pattern. -/
def patterned (w : Workspace) (b : BuilderId) (pattern : Pattern.Store) :
    Workspace :=
  w.amended b fun builder =>
    { builder with body := { builder.body with pattern } }

/-- A workspace in which a builder has another batch, or none. -/
def batched (w : Workspace) (b : BuilderId) (batch : Option Parameter) :
    Workspace :=
  w.amended b fun builder =>
    { builder with body := { builder.body with batchCreate := batch } }

/-- A workspace in which values are bound in a stack, one after the other. -/
def boundAll (w : Workspace) (n : Nat) (values : List Value) : Workspace :=
  values.foldl (fun w value => w.bound n value) w

/-- A builder that keeps its pattern is as it was. -/
theorem patterned_self (hb : w.builders[b]? = some found) :
    w.patterned b found.body.pattern = w := by
  apply amended_of_same
  intro other hother
  obtain rfl : found = other := Option.some.inj (hb.symm.trans hother)
  rfl

/-- The last pattern counts. -/
theorem patterned_patterned (w : Workspace) (b : BuilderId)
    (first second : Pattern.Store) :
    (w.patterned b first).patterned b second = w.patterned b second :=
  amended_amended w b _ _

/-- Binding values touches no builder. -/
theorem builders_boundAll (w : Workspace) (n : Nat) (values : List Value) :
    (w.boundAll n values).builders = w.builders := by
  induction values generalizing w with
  | nil => rfl
  | cons value rest ih => exact ih (w.bound n value)

/-- What is bound stays bound, in its place. -/
theorem parameters_stack_bound (w : Workspace) (m : Nat) (value : Value)
    (n : Nat) :
    (w.stack n).parameters <+: ((w.bound m value).stack n).parameters := by
  have hkeeps : ∀ stack, stack = w.stack n →
      (w.stack n).parameters <+: stack.parameters := by
    intro stack hstack
    exact hstack ▸ List.prefix_rfl
  by_cases hm : m < w.parameterStacks.size
  · have hnew := stack_withStack w hm ((w.stack m).add value).2 n
    by_cases hn : n = m
    · subst hn
      rw [if_pos rfl] at hnew
      rw [bound, hnew]
      rcases (w.stack n).add_cases value with ⟨fragment, -, hadd⟩ | ⟨-, hadd⟩
      · exact hkeeps _ (congrArg Prod.snd hadd)
      · rw [hadd]
        exact List.prefix_append _ _
    · rw [if_neg hn] at hnew
      exact hkeeps _ hnew
  · apply hkeeps
    rw [bound, withStack,
      Array.setIfInBounds_eq_of_size_le (Nat.le_of_not_lt hm)]

end Workspace

/-- What a written property is given by a batch: its column in the row at
hand. -/
def Builder.lookUp (found : Builder) (written : String) : Assignment :=
  ⟨(propertyReference found.body.entry written).1,
    (propertyReference found.body.entry written).2,
    .column found.body.batchVariable written⟩

namespace Building

open Guarantee Workspace

variable {w w' : Workspace} {b inner : BuilderId} {found : Builder}
    {fault : Fault}

/-- An array in which an item is put where it is. -/
theorem setIfInBounds_getD {α : Type} (items : Array α) (i : Nat)
    (default : α) :
    items.setIfInBounds i (items[i]?.getD default) = items := by
  apply Array.ext_getElem?
  intro j
  rw [Array.getElem?_setIfInBounds]
  by_cases hij : i = j
  · subst hij
    by_cases hi : i < items.size
    · rw [if_pos rfl, if_pos hi, Array.getElem?_eq_getElem hi,
        Option.getD_some]
    · rw [if_pos rfl, if_neg hi, Array.getElem?_eq_none (Nat.le_of_not_lt hi)]
  · rw [if_neg hij]

/-- Giving properties to an element changes the pattern of the builder, and
nothing where it fails. -/
theorem exec_register_assign (hb : w.builders[b]? = some found)
    (name : String) (properties : List Assignment) (intent : Pattern.Intent) :
    exec (register b (Pattern.Registration.assign name properties intent)) w =
      match found.body.pattern.assign name properties intent with
      | .ok (e, pattern) => (.ok e, w.patterned b pattern)
      | .error fault => (.error fault, w) := by
  have hsequences := setIfInBounds_getD w.sequences found.sequence {}
  let registry : Pattern.Registry :=
    { store := found.body.pattern,
      names := w.sequences[found.sequence]?.getD {}, log := w.log }
  have hregisterIn : exec (registerIn found.body.pattern found.sequence
      (Pattern.Registration.assign name properties intent)) w =
      (.ok ((exec (Pattern.Registration.assign name properties intent)
        registry).1,
          (exec (Pattern.Registration.assign name properties intent)
            registry).2.store),
        { w with
          sequences := w.sequences.setIfInBounds found.sequence
            (exec (Pattern.Registration.assign name properties intent)
              registry).2.names
          log :=
            (exec (Pattern.Registration.assign name properties intent)
              registry).2.log }) := rfl
  rw [register, exec_builder_bind hb, exec_bind, hregisterIn,
    Pattern.Registration.exec_assign]
  cases found.body.pattern.assign name properties intent with
  | error fault =>
    show (Except.error fault,
        { w with sequences := _ }.patterned b found.body.pattern) = _
    rw [hsequences]
    exact congrArg (Prod.mk _) (patterned_self hb)
  | ok answer =>
    show (Except.ok answer.1,
        { w with sequences := _ }.patterned b answer.2) = _
    rw [hsequences]

/-- Giving values to properties one by one: where it fails, the properties
before have their values.  The first assignment fails, or the workspace it
leaves differs in one pattern only. -/
theorem rejected_forM {α : Type} (given : α → Assignment)
    {intent : Pattern.Intent} {f : α → Building Unit} {l : List α}
    (hf : ∀ a, f a = (register b
        (Pattern.Registration.assign (given a).owner [given a] intent) >>=
      fun _ => pure ()))
    (hb : w.builders[b]? = some found)
    (h : exec (l.forM f) w = (.error fault, w')) :
    ∃ pattern, w' = w.patterned b pattern ∧
      Pattern.StopsIn (l.map fun a =>
        .assign (given a).owner [given a] intent) found.body.pattern
        pattern fault := by
  induction l generalizing w found with
  | nil => cases h
  | cons a rest ih =>
    have hstep := exec_register_assign hb (given a).owner [given a] intent
    have hcons : (a :: rest).forM f = (f a >>= fun _ => rest.forM f) := rfl
    rw [hcons, hf, bind_assoc, exec_bind, hstep] at h
    cases hassign : found.body.pattern.assign (given a).owner [given a]
        intent with
    | error fault' =>
      rw [hassign] at h
      obtain ⟨hfault, hw'⟩ := Prod.mk.inj h
      refine ⟨found.body.pattern, ?_, [], _, _, rfl, rfl, ?_⟩
      · rw [← hw', patterned_self hb]
      · rw [Pattern.Declaration.apply, hassign]
        exact congrArg Except.error (Except.error.inj hfault)
    | ok answer =>
      rw [hassign] at h
      obtain ⟨pattern, hw', hstops⟩ := ih (amended_self hb _) h
      refine ⟨pattern, hw'.trans (patterned_patterned w b answer.2 pattern),
        ?_⟩
      have hmade : found.body.pattern.applyAll
          [.assign (given a).owner [given a] intent] =
          .ok answer.2 := by
        rw [Pattern.Store.applyAll_singleton, Pattern.Declaration.apply,
          hassign]
        rfl
      exact Pattern.StopsIn.after hmade hstops

/-- All values are bound before the first of them is given to a property.
Binding leaves the builder as it is, so every property is looked up at the
same entry. -/
theorem exec_assignments (hb : w.builders[b]? = some found)
    (values : List (String × Value)) :
    ∃ as, exec (assignments b values) w =
      (.ok as, w.boundAll found.stack (values.map Prod.snd)) ∧
      as.map (fun a => (a.owner, a.key)) =
        values.map fun entry =>
          propertyReference found.body.entry entry.1 := by
  rw [assignments, exec_entry_bind hb]
  induction values generalizing w with
  | nil => exact ⟨[], rfl, rfl⟩
  | cons entry rest ih =>
    obtain ⟨written, value⟩ := entry
    have hb' : (w.bound found.stack value).builders[b]? = some found := hb
    obtain ⟨as, hexec, hreferences⟩ := ih hb'
    refine ⟨⟨(propertyReference found.body.entry written).1,
      (propertyReference found.body.entry written).2,
      w.reference found.stack value⟩ :: as, ?_, ?_⟩
    · rw [List.mapM_cons, exec_bind]
      dsimp only
      rw [exec_bind, exec_bind_value hb]
      dsimp only
      rw [exec_pure]
      dsimp only
      rw [exec_bind, hexec]
      rfl
    · rw [List.map_cons, List.map_cons, hreferences]

/-- **Giving values to be written fails at a name nobody declared**, when
all values are bound, a batch to create from is discarded, and the
properties before have their values and their elements are written. -/
theorem rejected_write (hb : w.builders[b]? = some found)
    {writing : Pattern.Writing} {values : List (String × Value)}
    (h : exec (write b writing values) w = (.error fault, w')) :
    let w₀ := if writing = .creating then w.batched b none else w
    let w₁ := w₀.boundAll found.stack (values.map Prod.snd)
    ∃ as pattern, exec (assignments b values) w₀ = (.ok as, w₁) ∧
      as.map (fun a => (a.owner, a.key)) =
        values.map (fun entry => propertyReference found.body.entry entry.1) ∧
      w' = w₁.patterned b pattern ∧
      Pattern.StopsIn (as.map fun a => .assign a.owner [a] writing.intent)
        found.body.pattern pattern fault := by
  intro w₀ w₁
  have hwrite : exec (write b writing values) w = exec (do
      (← assignments b values).forM fun assignment => do
        let _ ← register b
          (Pattern.Registration.assign assignment.owner
            [assignment] writing.intent)) w₀ := by
    rw [write]
    by_cases hcreating : writing = .creating
    · simp only [w₀, if_pos hcreating]
      rfl
    · simp only [w₀, if_neg hcreating]
  have hb₀ : ∃ found₀, w₀.builders[b]? = some found₀ ∧
      found₀.stack = found.stack ∧
      found₀.body.entry = found.body.entry ∧
      found₀.body.pattern = found.body.pattern := by
    by_cases hcreating : writing = .creating
    · simp only [w₀, if_pos hcreating]
      exact ⟨_, amended_self hb _, rfl, rfl, rfl⟩
    · simp only [w₀, if_neg hcreating]
      exact ⟨found, hb, rfl, rfl, rfl⟩
  obtain ⟨found₀, hb₀, hstack, hentry, hpattern⟩ := hb₀
  obtain ⟨as, has, hreferences⟩ := exec_assignments hb₀ values
  rw [hstack] at has
  rw [hentry] at hreferences
  rw [hwrite, exec_bind, has] at h
  have hbuilders : w₁.builders[b]? = some found₀ := by
    rw [builders_boundAll]
    exact hb₀
  obtain ⟨pattern, hw', hstops⟩ := rejected_forM id (fun _ => rfl) hbuilders h
  exact ⟨as, pattern, has, hreferences, hw', hpattern ▸ hstops⟩

/-- **Giving rows to create from fails at a name nobody declared**, when the
rows are bound as the batch, and the properties before read their values
from the row at hand. -/
theorem rejected_writeBatch (hb : w.builders[b]? = some found)
    {rows : List (List (String × Value))}
    (h : exec (writeBatch b rows) w = (.error fault, w')) :
    let batch : Parameter :=
      ⟨(w.stack found.stack).freshName, .list (rows.map Value.map)⟩
    let w₁ := (w.bound found.stack batch.value).batched b (some batch)
    ∃ first rest pattern, rows = first :: rest ∧ w' = w₁.patterned b pattern ∧
      Pattern.StopsIn (first.map fun entry =>
          .assign (found.lookUp entry.1).owner [found.lookUp entry.1]
            .toCreate)
        found.body.pattern pattern fault := by
  intro batch w₁
  cases rows with
  | nil => cases h
  | cons first rest =>
    let found₁ : Builder :=
      { found with body := { found.body with batchCreate := some batch } }
    have hb₁ : w₁.builders[b]? = some found₁ := amended_self hb _
    let given : String × Value → Assignment := fun entry =>
      found.lookUp entry.1
    let assign : String × Value → Building Unit := fun entry => register b
      (Pattern.Registration.assign (given entry).owner
        [given entry] .toCreate) >>= fun _ => pure ()
    have hwrite : exec (writeBatch b (first :: rest)) w =
        exec (first.forM assign) w₁ := by
      rw [writeBatch, exec_bind, exec_bind_value hb]
      exact exec_builder_bind hb₁ _
    rw [hwrite] at h
    obtain ⟨pattern, hw', hstops⟩ :=
      rejected_forM given (f := assign) (fun _ => rfl) hb₁ h
    exact ⟨first, rest, pattern, rfl, hw', hstops⟩

/-! ### Filters -/

/-- Every builder keeps what it holds and gets filters at most, one that is
spared not even these.  What is bound stays bound, in its place. -/
def onlyFiltering (spared : BuilderId → Prop) : Guarantee Workspace where
  holds w := ∀ c, spared c → c < w.builders.size
  leads w w' := (∀ c found, w.builders[c]? = some found → ∃ filters,
      w'.builders[c]? = some (found.filtered filters) ∧
      (spared c → filters = [])) ∧
    ∀ n, (w.stack n).parameters <+: (w'.stack n).parameters
  refl w :=
    ⟨fun c found hc => ⟨[], by rw [hc, Builder.filtered_nil], fun _ => rfl⟩,
    fun _ => List.prefix_rfl⟩
  trans := by
    rintro w w' w'' ⟨hfilters, hbound⟩ ⟨hfilters', hbound'⟩
    refine ⟨fun c found hc => ?_, fun n => (hbound n).trans (hbound' n)⟩
    obtain ⟨filters, hc', hspared⟩ := hfilters c found hc
    obtain ⟨more, hc'', hspared'⟩ := hfilters' c _ hc'
    refine ⟨filters ++ more, by rw [hc'', Builder.filtered_filtered],
      fun hc => ?_⟩
    rw [hspared hc, hspared' hc, List.append_nil]

variable {spared : BuilderId → Prop}

/-- Builders that are as they were have got no filters. -/
theorem onlyFiltering_of_builders (hbuilders : w'.builders = w.builders)
    (hbound : ∀ n, (w.stack n).parameters <+: (w'.stack n).parameters) :
    (onlyFiltering spared).leads w w' := by
  refine ⟨fun c other hc => ⟨[], ?_, fun _ => rfl⟩, hbound⟩
  rw [Builder.filtered_nil, hbuilders]
  exact hc

/-- Binding a value adds no filter. -/
theorem onlyFiltering_bound (w : Workspace) (n : Nat) (value : Value) :
    (onlyFiltering spared).leads w (w.bound n value) :=
  onlyFiltering_of_builders rfl (parameters_stack_bound w n value)

/-- Binding a value to refer to it adds no filter. -/
theorem onlyFilters_bind (value : Value) :
    (onlyFiltering spared).Kept (bind b value) := by
  intro w
  refine at_builder_bind fun found _ => at_get_bind ?_
  have hleads : (onlyFiltering spared).leads w (w.bound found.stack value) :=
    onlyFiltering_bound w found.stack value
  rcases hadd : (w.stack found.stack).add value with ⟨e, stack⟩
  rw [bound, hadd] at hleads
  refine At.bind (p := fun _ _ => True) (at_set fun hw =>
    ⟨hw, hleads, trivial⟩) ?_
  exact fun _ _ _ _ _ => at_pure fun _ => trivial

/-- A filter is added to a builder that is not spared. -/
theorem onlyFilters_addFilter (hb : ¬ spared b) (filter : Filter BuilderId) :
    (onlyFiltering spared).Kept (addFilter b filter) := by
  intro w
  refine at_modify fun hw => ⟨fun c hc => ?_,
    ⟨fun c found hc => ?_, fun _ => List.prefix_rfl⟩, trivial⟩
  · exact (Array.size_modify ..).symm ▸ hw c hc
  · rcases amended_cases w b (fun builder => builder.filtered [filter]) c with
      ⟨rfl, old, hold, hnew⟩ | hsame
    · obtain rfl : found = old := Option.some.inj (hc.symm.trans hold)
      exact ⟨[filter], hnew, fun hspared => absurd hspared hb⟩
    · exact ⟨[], by rw [Builder.filtered_nil]; exact hsame.trans hc,
        fun _ => rfl⟩

/-- A new sub-query is none of those spared. -/
theorem onlyFilters_newSubQuery (spared : BuilderId → Prop) (b : BuilderId)
    (w : Workspace) :
    (onlyFiltering spared).At w (newSubQuery b) fun inner _ =>
      ¬ spared inner := by
  refine at_builder_bind fun found _ =>
    at_get_bind (at_modifyGet fun hw => ?_)
  refine ⟨fun c hc => ?_, ⟨fun c other hc => ⟨[], ?_, fun _ => rfl⟩, fun _ =>
    List.prefix_rfl⟩, ?_⟩
  · rw [Array.size_push]
    exact Nat.lt_succ_of_lt (hw c hc)
  · rw [Builder.filtered_nil]
    rcases extended_cases w (subQueryOf found w.settings.batchVariable)
        c with ⟨hnone, -⟩ | hsame
    · exact nomatch hc.symm.trans hnone
    · exact hsame.trans hc
  · exact fun hspared => Nat.lt_irrefl _ (hw _ hspared)

/-- A comparison adds a filter at most. -/
theorem onlyFilters_whereCompare (hb : ¬ spared b)
    (property spelling : String) (value : Value) (chain : String) :
    (onlyFiltering spared).Kept
      (whereCompare b property spelling value chain) := by
  refine (kept_lift _).bind fun operator => kept_entry.bind fun entry => ?_
  refine (onlyFilters_bind value).bind fun right =>
    (kept_lift _).bind fun chain => ?_
  exact onlyFilters_addFilter hb _

/-- A null check adds a filter at most. -/
theorem onlyFilters_whereNull (hb : ¬ spared b) (property : String)
    (negate : Bool) (chain : String) :
    (onlyFiltering spared).Kept (whereNull b property negate chain) :=
  kept_entry.bind fun _ => (kept_lift _).bind fun _ =>
    onlyFilters_addFilter hb _

/-- Noting that filters are taken over adds none. -/
theorem onlyFilters_noteTaking (b inner : BuilderId) :
    (onlyFiltering spared).Kept (noteTaking b inner) := by
  intro w
  have hnoted : (onlyFiltering spared).leads w (w.taken b inner) :=
    onlyFiltering_of_builders rfl fun _ => List.prefix_rfl
  exact at_modify fun hw => ⟨hw, hnoted, trivial⟩

/-- A group adds a filter at most. -/
theorem onlyFilters_whereGroup (hb : ¬ spared b) (negate : Bool)
    (chain : String) :
    (onlyFiltering spared).Kept (whereGroup b inner negate chain) := by
  intro w
  refine at_builder_bind fun found _ => ?_
  dsimp only
  split
  · refine ((kept_lift _).bind fun chain => ?_) w
    exact (onlyFilters_noteTaking b inner).bind fun _ =>
      onlyFilters_addFilter hb _
  · exact kept_pure _ w

/-- The steps of a mapping add nothing but filters. -/
theorem onlyFilters_mappingSteps (spared : BuilderId → Prop) :
    MappingSteps (onlyFiltering spared) (fun b => ¬ spared b)
    (fun _ _ => True) where
  newSubQuery _ w := (onlyFilters_newSubQuery spared _ w).mono
    fun _ _ _ _ hinner => ⟨hinner, trivial⟩
  whereCompare := onlyFilters_whereCompare
  whereNull := onlyFilters_whereNull
  whereGroup hb _ := onlyFilters_whereGroup hb

/-! ### Rejected filters -/

/-- A comparison is rejected for its operator before anything changes, or
for its chain operator when its value is bound. -/
theorem rejected_whereCompare (hb : w.builders[b]? = some found)
    {property spelling : String} {value : Value} {chain : String}
    (h : exec (whereCompare b property spelling value chain) w =
      (.error fault, w')) :
    (comparison? spelling = none → w' = w) ∧
    (comparison? spelling ≠ none →
      Chain.ofSpelling chain = .error fault ∧
      w' = w.bound found.stack value) := by
  cases hoperator : comparison? spelling with
  | none =>
    have hcomparison : comparison "where" spelling =
        .error (.unknownComparison spelling "where"
          (comparisonSpellings.map Prod.fst)) := by
      rw [comparison, hoperator]
    rw [whereCompare, hcomparison] at h
    exact ⟨fun _ => (congrArg Prod.snd h).symm, fun hknown =>
      absurd rfl hknown⟩
  | some operator =>
    have hcomparison : comparison "where" spelling = .ok operator := by
      rw [comparison, hoperator]
    rw [exec_whereCompare_eq hb hcomparison] at h
    exact ⟨fun hnone => absurd hnone (Option.some_ne_none operator),
      fun _ => of_chained_error h⟩

/-- Either way a comparison leaves what it finds, or binds its value and is
rejected for its chain operator. -/
theorem cases_of_rejected_whereCompare (hb : w.builders[b]? = some found)
    {property spelling : String} {value : Value} {chain : String}
    (h : exec (whereCompare b property spelling value chain) w =
      (.error fault, w')) :
    w' = w ∨ Chain.ofSpelling chain = .error fault ∧
    w' = w.bound found.stack value := by
  obtain ⟨hunknown, hknown⟩ := rejected_whereCompare hb h
  by_cases hoperator : comparison? spelling = none
  · exact .inl (hunknown hoperator)
  · exact .inr (hknown hoperator)

/-- A comparison with a sequence is rejected for what is no sequence before
anything changes, or for its chain operator when the items are bound. -/
theorem rejected_whereIn (hb : w.builders[b]? = some found)
    {property : String} {values : Value} {chain : String}
    (h : exec (whereIn b property values chain) w = (.error fault, w')) :
    (values.items? = none → w' = w) ∧
    ∀ items, values.items? = some items →
      Chain.ofSpelling chain = .error fault ∧
      w' = w.bound found.stack (.list items) := by
  rw [whereIn] at h
  cases hitems : values.items? with
  | none =>
    rw [hitems] at h
    exact ⟨fun _ => (congrArg Prod.snd h).symm, fun items hitems' =>
      absurd hitems'.symm (Option.some_ne_none items)⟩
  | some items =>
    rw [hitems] at h
    refine ⟨fun hnone => absurd hnone (Option.some_ne_none items),
      fun items' hitems' => ?_⟩
    obtain rfl : items = items' := Option.some.inj hitems'
    exact (rejected_whereCompare hb h).2 (by decide)

/-- A comparison of two properties is rejected before anything changes. -/
theorem rejected_whereProperties (hb : w.builders[b]? = some found)
    {left spelling right chain : String}
    (h : exec (whereProperties b left spelling right chain) w =
      (.error fault, w')) : w' = w := by
  cases hoperator : comparison "where_properties" spelling with
  | error fault' =>
    rw [whereProperties, hoperator] at h
    exact (congrArg Prod.snd h).symm
  | ok operator =>
    rw [exec_whereProperties hb hoperator] at h
    exact (of_chained_error h).2

/-- A null check is rejected before anything changes. -/
theorem rejected_whereNull (hb : w.builders[b]? = some found)
    {property : String} {negate : Bool} {chain : String}
    (h : exec (whereNull b property negate chain) w = (.error fault, w')) :
    w' = w := by
  rw [exec_whereNull hb] at h
  exact (of_chained_error h).2

/-- A fragment is rejected before anything changes. -/
theorem rejected_whereRaw {text chain : String}
    (h : exec (whereRaw b text chain) w = (.error fault, w')) : w' = w := by
  rw [exec_whereRaw] at h
  exact (of_chained_error h).2

/-- A group that has been filled is rejected before anything else changes. -/
theorem rejected_whereGroup {negate : Bool} {chain : String}
    (h : exec (whereGroup b inner negate chain) w = (.error fault, w')) :
    w' = w := by
  cases hinner : w.builders[inner]? with
  | none =>
    rw [whereGroup, exec_bind, exec_builder, hinner] at h
    exact (congrArg Prod.snd h).symm
  | some other =>
    rw [exec_whereGroup hinner] at h
    split at h
    · cases h
    · exact (of_chained_error h).2

/-- An entry that is rejected adds no filter to any builder there is.  An
entry that is no group is rejected before anything changes, or for the chain
operator when its value is bound. -/
theorem rejected_whereEntry (hb : w.builders[b]? = some found)
    {chain key : String} {value : Value}
    (h : exec (whereEntry b chain key value) w = (.error fault, w')) :
    (onlyFiltering (· < w.builders.size)).leads w w' ∧
    (groupChain? key = none →
      w' = w ∨ Chain.ofSpelling chain = .error fault ∧
      w' = w.bound found.stack value) := by
  have hsame : (onlyFiltering (· < w.builders.size)).leads w w :=
    (onlyFiltering _).refl w
  have hcompare : ∀ property spelling,
      exec (whereCompare b property spelling value chain) w =
      (.error fault, w') → (onlyFiltering (· < w.builders.size)).leads w w' ∧
        (groupChain? key = none →
          w' = w ∨ Chain.ofSpelling chain = .error fault ∧
          w' = w.bound found.stack value) := by
    intro property spelling hrejected
    have hcases := cases_of_rejected_whereCompare hb hrejected
    refine ⟨?_, fun _ => hcases⟩
    rcases hcases with rfl | ⟨-, rfl⟩
    · exact hsame
    · exact onlyFiltering_bound w found.stack value
  rw [whereEntry] at h
  split at h
  · next groupChain hgroupChain =>
    have hgroup : groupChain? key ≠ none := by
      rw [hgroupChain]
      exact Option.some_ne_none groupChain
    refine ⟨?_, fun hnone => absurd hnone hgroup⟩
    have hnew :=
      onlyFilters_newSubQuery (· < w.builders.size) b w fun _ hc => hc
    rw [exec_newSubQuery hb] at hnew
    rw [exec_bind, exec_newSubQuery hb] at h
    obtain ⟨hholds', hleads, hinner⟩ := hnew
    have hgroups :=
      (onlyFilters_mappingSteps (· < w.builders.size)).whereGroups
        (hinner _ rfl) key
      groupChain value _ hholds'
    rcases exec_bind_eq_error.mp h with hrejected | ⟨_, w₂, hgroup, hlast⟩
    · rw [hrejected] at hgroups
      exact (onlyFiltering _).trans hleads hgroups.2.1
    · rw [hgroup] at hgroups
      rw [rejected_whereGroup hlast]
      exact (onlyFiltering _).trans hleads hgroups.2.1
  · split at h
    · split at h
      · exact hcompare _ _ h
      · obtain rfl : w = w' := congrArg Prod.snd h
        exact ⟨hsame, fun _ => .inl rfl⟩
    · split at h
      · rw [rejected_whereNull hb h]
        exact ⟨hsame, fun _ => .inl rfl⟩
      · exact hcompare _ _ h

/-- **A mapping is rejected at one entry**, when the entries before it have
been accepted. -/
theorem rejected_whereFilters (hb : w.builders[b]? = some found)
    {chain : String} {entries : List (String × Value)}
    (h : exec (whereFilters b chain entries) w = (.error fault, w')) :
    ∃ done rejected later w₁ filters, entries = done ++ rejected :: later ∧
      exec (whereFilters b chain done) w = (.ok (), w₁) ∧
      w₁.builders[b]? = some (found.filtered filters) ∧
      (∀ (c : BuilderId) other, w₁.builders[c]? = some other →
        w'.builders[c]? = some other) ∧
      (groupChain? rejected.1 = none → w' = w₁ ∨
        done = [] ∧ Chain.ofSpelling chain = .error fault ∧
          w' = w₁.bound found.stack rejected.2) ∧
      ∀ n, (w.stack n).parameters <+: (w₁.stack n).parameters ∧
        (w₁.stack n).parameters <+: (w'.stack n).parameters := by
  induction entries generalizing chain w found with
  | nil =>
    rw [whereFilters] at h
    cases h
  | cons entry rest ih =>
    obtain ⟨key, value⟩ := entry
    rw [whereFilters_cons, exec_bind_eq_error] at h
    rcases h with hrejected | ⟨_, w₁, hentry, hrest⟩
    · obtain ⟨⟨hfilters, hbound⟩, hsingle⟩ := rejected_whereEntry hb hrejected
      refine ⟨[], (key, value), rest, w, [], rfl, ?_, ?_,
        fun c other hc => ?_,
        fun hnone => (hsingle hnone).imp_right fun hchain => ⟨rfl, hchain⟩,
        fun n => ⟨List.prefix_rfl, hbound n⟩⟩
      · rw [whereFilters]
        rfl
      · rw [hb, Builder.filtered_nil]
      · obtain ⟨filters, hc', hspared⟩ := hfilters c other hc
        rw [hc', hspared (Array.getElem?_eq_some_iff.mp hc).1,
          Builder.filtered_nil]
    · have hholds : (onlyFiltering fun _ => False).holds w :=
        fun _ hc => hc.elim
      have hsteps := onlyFilters_mappingSteps fun _ => False
      have hstep :=
        hsteps.keeps_whereEntry (b := b) not_false chain key value w hholds
      rw [hentry] at hstep
      obtain ⟨-, ⟨hfilters, hbound⟩, -⟩ := hstep
      obtain ⟨filters, hb₁, -⟩ := hfilters b found hb
      obtain ⟨done, rejected, later, w₂, more, rfl, hdone, hb₂, hsame,
          hsingle, hbounds⟩ :=
        ih hb₁ hrest
      have hjoined : Chain.ofSpelling "AND" ≠ .error fault := nofun
      refine ⟨(key, value) :: done, rejected, later, w₂, filters ++ more,
        rfl, ?_, ?_, hsame,
        fun hnone => .inl ((hsingle hnone).resolve_right fun hchain =>
          hjoined hchain.2.1),
        fun n => ⟨(hbound n).trans (hbounds n).1, (hbounds n).2⟩⟩
      · rw [whereFilters_cons, exec_bind, hentry]
        exact hdone
      · rw [hb₂, Builder.filtered_filtered]

end Building

namespace Change

open Building Workspace

variable {w w' : Workspace} {b : BuilderId} {found : Builder} {fault : Fault}

/-- **A rejected call stops where it is rejected**, and nothing is taken
back.

A comparison of two properties, a null check and a fragment are checked
before anything changes.  So is the operator of a comparison with a value,
and whether there is a sequence to compare with; the chain operator of
either is looked at when the value is bound, and nothing else has changed
then.  A mapping is rejected at one entry: the entries before it are
accepted as if they were given alone, and no builder there is changes at it.
Unless it is a group, it is rejected before anything changes, or for the
chain operator as a comparison is.  Values to be written are bound first,
and then given to properties one by one, until one of them names nothing
declared; rows to create from are bound as the batch, and then read
likewise. -/
theorem rejected_stops (hb : w.builders[b]? = some found) :
    (∀ left spelling right chain,
      exec ((compareProperties left spelling right chain).perform b) w =
        (.error fault, w') → w' = w) ∧
    (∀ property negate chain,
      exec ((isNull property negate chain).perform b) w =
        (.error fault, w') → w' = w) ∧
    (∀ text chain, exec ((rawFilter text chain).perform b) w =
      (.error fault, w') → w' = w) ∧
    (∀ property spelling value chain,
      exec ((compare property spelling value chain).perform b) w =
        (.error fault, w') →
        (comparison? spelling = none → w' = w) ∧
        (comparison? spelling ≠ none →
          Chain.ofSpelling chain = .error fault ∧
          w' = w.bound found.stack value)) ∧
    (∀ property values chain,
      exec ((compareIn property values chain).perform b) w =
        (.error fault, w') →
        (values.items? = none → w' = w) ∧
        ∀ items, values.items? = some items →
          Chain.ofSpelling chain = .error fault ∧
          w' = w.bound found.stack (.list items)) ∧
    (∀ entries chain,
      exec ((filters entries chain).perform b) w = (.error fault, w') →
      ∃ done rejected later w₁ accepted, entries = done ++ rejected :: later ∧
        exec ((filters done chain).perform b) w = (.ok (), w₁) ∧
        w₁.builders[b]? = some (found.filtered accepted) ∧
        (∀ (c : BuilderId) other, w₁.builders[c]? = some other →
          w'.builders[c]? = some other) ∧
        (groupChain? rejected.1 = none → w' = w₁ ∨
          done = [] ∧ Chain.ofSpelling chain = .error fault ∧
            w' = w₁.bound found.stack rejected.2) ∧
        ∀ n, (w.stack n).parameters <+: (w₁.stack n).parameters ∧
          (w₁.stack n).parameters <+: (w'.stack n).parameters) ∧
    (∀ writing values,
      exec ((write writing values).perform b) w = (.error fault, w') →
      let w₀ := if writing = .creating then w.batched b none else w
      let w₁ := w₀.boundAll found.stack (values.map Prod.snd)
      ∃ as pattern, exec (assignments b values) w₀ = (.ok as, w₁) ∧
        as.map (fun a => (a.owner, a.key)) =
          values.map (fun entry =>
            propertyReference found.body.entry entry.1) ∧
        w' = w₁.patterned b pattern ∧
        Pattern.StopsIn (as.map fun a => .assign a.owner [a] writing.intent)
          found.body.pattern pattern
          fault) ∧
    ∀ rows, exec ((writeBatch rows).perform b) w = (.error fault, w') →
      let batch : Parameter :=
        ⟨(w.stack found.stack).freshName, .list (rows.map Value.map)⟩
      let w₁ := (w.bound found.stack batch.value).batched b (some batch)
      ∃ first rest pattern, rows = first :: rest ∧
      w' = w₁.patterned b pattern ∧
        Pattern.StopsIn (first.map fun entry =>
            .assign (found.lookUp entry.1).owner [found.lookUp entry.1]
              .toCreate)
          found.body.pattern pattern fault := by
  exact ⟨fun _ _ _ _ => rejected_whereProperties hb, fun _ _ _ =>
    rejected_whereNull hb,
    fun _ _ => rejected_whereRaw, fun _ _ _ _ => rejected_whereCompare hb,
    fun _ _ _ => rejected_whereIn hb, fun _ _ => rejected_whereFilters hb,
    fun _ _ => rejected_write hb, fun _ => rejected_writeBatch hb⟩

/-- Whether an outcome is a configuration error. -/
def isConfigurationError {α : Type} : Except Fault α → Bool
  | .error fault => fault.report.kind.isConfiguration
  | .ok _ => false

/-- A configuration error is how a run ends. -/
theorem exec_of_isConfigurationError {σ α : Type} {x : Computation σ α}
    {s : σ} (h : isConfigurationError (exec x s).1 = true) :
    ∃ fault, exec x s = (.error fault, (exec x s).2) ∧
    fault.report.kind.isConfiguration = true := by
  rcases hexec : exec x s with ⟨fault | a, t⟩
  · rw [hexec] at h
    exact ⟨fault, rfl, h⟩
  · rw [hexec] at h
    cases h

/-- The node has become one to create when the second value is found to be
for nothing declared. -/
theorem rejected_stops_of_undeclared :
    ∃ found fault w' pattern, ofNode.builders[0]? = some found ∧
      exec ((write .creating [("a", .int 1), ("x.b", .int 2)]).perform 0)
        ofNode =
        (.error fault, w') ∧
      w' = ((ofNode.batched 0 none).boundAll found.stack [.int 1,
        .int 2]).patterned 0 pattern ∧
      (ofNode.body 0).pattern.entries.map (fun e => e.intent) = [.toMatch] ∧
      (w'.body 0).pattern.entries.map (fun e => e.intent) = [.toCreate] := by
  obtain ⟨found, hb⟩ : ∃ found, ofNode.builders[0]? = some found := ⟨_, rfl⟩
  have hrejected : isConfigurationError
      (exec ((write .creating [("a", .int 1), ("x.b", .int 2)]).perform 0)
        ofNode).1 = true := by
    decide +kernel
  obtain ⟨fault, hexec, -⟩ := exec_of_isConfigurationError hrejected
  obtain ⟨-, -, -, -, -, -, hwrite, -⟩ := rejected_stops hb
  obtain ⟨-, pattern, -, -, hw', -⟩ := hwrite _ _ hexec
  exact ⟨found, fault, _, pattern, hb, hexec, hw', by decide +kernel⟩

/-- **A rejected call may leave its builder changed**: the first entry has
become a filter, and its value is bound, when the operator of the second one
is found to be unknown. -/
theorem filters_remain_of_rejected :
    ∃ fault w',
    exec ((filters [("a", .int 1), ("b__nope", .int 2)] "AND").perform 0)
      ofNode =
        (.error fault, w') ∧
      fault.report.kind.isConfiguration = true ∧
      (ofNode.body 0).wheres.length = 0 ∧ (w'.body 0).wheres.length = 1 ∧
      (ofNode.stackOf 0).size = 0 ∧ (w'.stackOf 0).size = 1 := by
  have hrejected : isConfigurationError
      (exec ((filters [("a", .int 1), ("b__nope", .int 2)] "AND").perform 0)
        ofNode).1 = true := by
    decide +kernel
  obtain ⟨fault, hexec, hkind⟩ := exec_of_isConfigurationError hrejected
  exact ⟨fault, _, hexec, hkind, by decide +kernel⟩

end Change

end GraphQuery
