import GraphQuery.Builder.Change
import GraphQuery.Proofs.Execution
import GraphQuery.Proofs.Parameters.Fresh
import GraphQuery.Proofs.Workspaces

/-!
# What the calls that filter do

A call that filters binds one value at most, which it does first, and then
appends one filter, unless its chain operator is unknown.  Each lemma here
says for one call what it answers with and which workspace it leaves, also
where it fails.
-/

namespace GraphQuery

open GraphQuery.Computation

/-- A builder with more filters. -/
def Builder.filtered (found : Builder) (filters : List (Filter BuilderId)) :
    Builder :=
  { found with body := { found.body with wheres := found.body.wheres ++
    filters } }

/-- No filters leave a builder as it is. -/
theorem Builder.filtered_nil (found : Builder) :
    found.filtered [] = found := by
  rw [filtered, List.append_nil]

/-- Filters can be added in two goes. -/
theorem Builder.filtered_filtered (found : Builder)
    (filters more : List (Filter BuilderId)) :
    (found.filtered filters).filtered more =
      found.filtered (filters ++ more) := by
  rw [filtered, filtered, filtered, List.append_assoc]

namespace Workspace

/-- A workspace in which a builder has one filter more. -/
def filtered (w : Workspace) (b : BuilderId) (filter : Filter BuilderId) :
    Workspace :=
  w.amended b fun builder => builder.filtered [filter]

/-- A workspace in which one more value is bound in a stack. -/
def bound (w : Workspace) (n : Nat) (value : Value) : Workspace :=
  w.withStack n ((w.stack n).add value).2

/-- The expression that refers to the next value bound in a stack. -/
def reference (w : Workspace) (n : Nat) (value : Value) : Expression :=
  ((w.stack n).add value).1

end Workspace

namespace Building

variable {w : Workspace} {b inner : BuilderId} {found other : Builder}

/-- A step that looks a builder up goes on with it. -/
theorem exec_builder_bind {α : Type} (hb : w.builders[b]? = some found)
    (f : Builder → Building α) :
    exec (builder b >>= f) w = exec (f found) w := by
  rw [exec_bind, exec_builder, hb]

/-- The entry of a builder is looked up. -/
theorem exec_entry_bind {α : Type} (hb : w.builders[b]? = some found)
    (f : String → Building α) :
    exec (entry b >>= f) w = exec (f found.body.entry) w := by
  rw [entry, bind_assoc]
  exact exec_builder_bind hb _

/-- Binding a value answers with the reference to it. -/
theorem exec_bind_value (hb : w.builders[b]? = some found) (value : Value) :
    exec (bind b value) w = (.ok (w.reference found.stack value),
      w.bound found.stack value) := by
  rw [bind, exec_builder_bind hb]
  rfl

/-- The outcome of a call with a chain operator, and the workspace it
leaves: that before the filter is appended if the operator is unknown. -/
def chained (chain : String) (before : Workspace)
    (after : Chain → Workspace) :
    Except Fault Unit × Workspace :=
  match Chain.ofSpelling chain with
  | .ok joined => (.ok (), after joined)
  | .error fault => (.error fault, before)

/-- Where such a call succeeds there is the chain operator. -/
theorem exists_of_chained_ok {chain : String} {before w' : Workspace}
    {after : Chain → Workspace}
    (h : chained chain before after = (.ok (), w')) :
    ∃ joined, Chain.ofSpelling chain = .ok joined ∧ after joined = w' := by
  rw [chained] at h
  cases hchain : Chain.ofSpelling chain with
  | error fault =>
    rw [hchain] at h
    cases h
  | ok joined =>
    rw [hchain] at h
    exact ⟨joined, rfl, congrArg Prod.snd h⟩

/-- Such a call fails for its chain operator only, before its filter is
added. -/
theorem of_chained_error {chain : String} {before w' : Workspace}
    {after : Chain → Workspace} {fault : Fault}
    (h : chained chain before after = (.error fault, w')) :
    Chain.ofSpelling chain = .error fault ∧ w' = before := by
  rw [chained] at h
  cases hchain : Chain.ofSpelling chain with
  | error fault' =>
    rw [hchain] at h
    obtain ⟨hfault, hbefore⟩ := Prod.mk.inj h
    exact ⟨congrArg Except.error (Except.error.inj hfault), hbefore.symm⟩
  | ok joined =>
    rw [hchain] at h
    cases h

/-- The last steps of a call with a chain operator. -/
theorem exec_chain_bind (chain : String) (filter : Chain → Filter BuilderId)
    (w : Workspace) :
    exec (do addFilter b (filter (← Chain.ofSpelling chain))) w =
      chained chain w fun joined => w.filtered b (filter joined) := by
  rw [exec_bind, exec_lift, chained]
  cases Chain.ofSpelling chain <;> rfl

/-- Comparing with a value binds the value, whether or not the chain
operator is known. -/
theorem exec_whereCompare_eq (hb : w.builders[b]? = some found)
    {spelling operator : String}
    (hoperator : comparison "where" spelling = .ok operator)
    (property : String) (value : Value) (chain : String) :
    exec (whereCompare b property spelling value chain) w =
      chained chain (w.bound found.stack value) fun joined =>
        (w.bound found.stack value).filtered b
        (.compare (writtenProperty found.body.entry property) operator
          (w.reference found.stack value)
          joined) := by
  rw [whereCompare, hoperator, exec_bind, exec_lift]
  dsimp only
  rw [exec_entry_bind hb, exec_bind, exec_bind_value hb]
  exact exec_chain_bind chain _ _

/-- A comparison of two properties adds its filter. -/
theorem exec_whereProperties (hb : w.builders[b]? = some found)
    {spelling operator : String}
    (hoperator : comparison "where_properties" spelling = .ok operator)
    (left right chain : String) :
    exec (whereProperties b left spelling right chain) w =
      chained chain w fun joined => w.filtered b (.compareProperties
        (writtenProperty found.body.entry left) operator
          (writtenProperty found.body.entry right)
        joined) := by
  rw [whereProperties, hoperator, exec_bind, exec_lift]
  dsimp only
  rw [exec_entry_bind hb]
  exact exec_chain_bind chain _ _

/-- A null check adds its filter. -/
theorem exec_whereNull (hb : w.builders[b]? = some found) (property : String)
    (negate : Bool) (chain : String) :
    exec (whereNull b property negate chain) w =
      chained chain w fun joined =>
        w.filtered b (.isNull (writtenProperty found.body.entry property)
          negate joined) := by
  rw [whereNull, exec_entry_bind hb]
  exact exec_chain_bind chain _ _

/-- A fragment adds its filter. -/
theorem exec_whereRaw (text chain : String) (w : Workspace) :
    exec (whereRaw b text chain) w =
      chained chain w fun joined => w.filtered b (.raw text joined) :=
  exec_chain_bind chain _ w

/-- A group without filters is left out, whatever the chain operator. -/
theorem exec_whereGroup (hinner : w.builders[inner]? = some other)
    (negate : Bool) (chain : String) :
    exec (whereGroup b inner negate chain) w =
      if other.body.wheres.isEmpty then (.ok (), w)
      else chained chain w fun joined =>
        (w.taken b inner).filtered b
          (.group other.body.wheres negate joined) := by
  rw [whereGroup, exec_builder_bind hinner]
  dsimp only
  by_cases hempty : other.body.wheres.isEmpty = true
  · rw [hempty]
    rfl
  · rw [if_neg hempty, if_pos (by simpa using hempty), exec_bind, exec_lift,
      chained]
    cases Chain.ofSpelling chain <;> rfl

/-- A new sub-query shares the stack and the entry of the builder it is made
from, and holds nothing. -/
def subQueryOf (found : Builder) (batchVariable : String) : Builder :=
  { whole := false, stack := found.stack, sequence := found.sequence
    body := { entry := found.body.entry, batchVariable } }

/-- A new sub-query is the last of all builders. -/
theorem exec_newSubQuery (hb : w.builders[b]? = some found) :
    exec (newSubQuery b) w =
      (.ok w.builders.size,
        w.extended (subQueryOf found w.settings.batchVariable)) := by
  rw [newSubQuery, exec_builder_bind hb]
  rfl

/-! ### Mappings, entry by entry -/

/-- Append the filter an entry of a mapping describes. -/
def whereEntry (b : BuilderId) (chain key : String) (value : Value) :
    Building Unit :=
  match groupChain? key with
  | some groupChain => do
    let inner ← newSubQuery b
    whereGroups inner key groupChain value
    whereGroup b inner false chain
  | none =>
    match keySuffix? key with
    | some (property, suffix) =>
      match filterSuffixes.lookup suffix with
      | some operator => whereCompare b property operator value chain
      | none => throw (.unknownFilterSuffix suffix key value
          (filterSuffixes.map Prod.fst))
    | none =>
      if value.isNull then whereNull b key false chain else whereCompare b
          key "=" value chain

/-- The entries of a mapping are taken one by one, the later ones behind
AND. -/
theorem whereFilters_cons (b : BuilderId) (chain key : String) (value : Value)
    (rest : List (String × Value)) :
    whereFilters b chain ((key, value) :: rest) =
      (whereEntry b chain key value >>= fun _ =>
        whereFilters b "AND" rest) := by
  rw [whereFilters, whereEntry]
  cases groupChain? key with
  | some groupChain => simp only [bind_assoc]
  | none =>
    cases keySuffix? key with
    | some cut =>
      obtain ⟨property, suffix⟩ := cut
      dsimp only
      cases filterSuffixes.lookup suffix <;> rfl
    | none =>
      dsimp only
      cases value.isNull <;> rfl

/-- The groups of an entry are taken one by one, each filled in a sub-query. -/
theorem whereEachGroup_cons (b : BuilderId) (groupChain : String)
    (group : Value) (rest : List Value) :
    whereEachGroup b groupChain (group :: rest) =
      ((newSubQuery b >>= fun inner => whereMapping inner group >>= fun _ =>
        whereGroup b inner false groupChain) >>= fun _ =>
          whereEachGroup b groupChain rest) := by
  simp only [whereEachGroup, bind_assoc]

/-- The steps that filtering by a mapping is made of keep a guarantee, on
builders that are fit for it.  The filters of a group are those of a
sub-query linked to the builder. -/
structure MappingSteps (G : Guarantee Workspace) (fits : BuilderId → Prop)
    (links : BuilderId → BuilderId → Prop) : Prop where
  newSubQuery : ∀ {b}, fits b → ∀ w, G.At w (newSubQuery b) fun inner _ =>
    fits inner ∧ links b inner
  whereCompare : ∀ {b}, fits b → ∀ property spelling value chain,
    G.Kept (whereCompare b property spelling value chain)
  whereNull : ∀ {b}, fits b →
  ∀ property negate chain, G.Kept (whereNull b property negate chain)
  whereGroup : ∀ {b inner}, fits b → links b inner → ∀ negate chain,
    G.Kept (whereGroup b inner negate chain)

namespace MappingSteps

open Guarantee

variable {G : Guarantee Workspace} {fits : BuilderId → Prop}
    {links : BuilderId → BuilderId → Prop}

/-- A group is made in a sub-query and then appended. -/
theorem group (h : MappingSteps G fits links) {b : BuilderId} (hb : fits b)
    (chain : String) {fill : BuilderId → Building Unit}
    (hfill : ∀ inner, fits inner → G.Kept (fill inner)) :
    G.Kept (Building.newSubQuery b >>= fun inner => fill inner >>= fun _ =>
      Building.whereGroup b inner false chain) := by
  intro w
  refine (h.newSubQuery hb w).bind fun inner w' _ _ hinner => ?_
  exact (hfill inner hinner.1).bind (fun _ =>
    h.whereGroup hb hinner.2 false chain) w'

/-- An entry keeps a guarantee if the groups in it do. -/
theorem whereEntry_of_groups (h : MappingSteps G fits links) {b : BuilderId}
    (hb : fits b) (chain : String) {key : String} {value : Value}
    (hgroups : ∀ inner groupChain, fits inner →
      G.Kept (Building.whereGroups inner key groupChain value)) :
    G.Kept (whereEntry b chain key value) := by
  rw [whereEntry]
  split
  · next groupChain _ =>
    exact h.group hb chain fun inner hinner =>
      hgroups inner groupChain hinner
  · split
    · split
      · exact h.whereCompare hb _ _ _ _
      · exact kept_throw _
    · split
      · exact h.whereNull hb _ _ _
      · exact h.whereCompare hb _ _ _ _

mutual

/-- **A mapping keeps a guarantee** that single filters, new sub-queries and
groups keep. -/
theorem whereFilters (h : MappingSteps G fits links) {b : BuilderId}
    (hb : fits b) (chain : String) (entries : List (String × Value)) :
    G.Kept (Building.whereFilters b chain entries) := by
  match entries with
  | [] => exact kept_pure _
  | (key, value) :: rest =>
    rw [whereFilters_cons]
    have hentry :=
      h.whereEntry_of_groups hb chain fun inner groupChain hinner =>
      h.whereGroups hinner key groupChain value
    exact hentry.bind fun _ => h.whereFilters hb "AND" rest

/-- An entry of groups keeps a guarantee that its steps keep. -/
theorem whereGroups (h : MappingSteps G fits links) {b : BuilderId}
    (hb : fits b) (key groupChain : String) (groups : Value) :
    G.Kept (Building.whereGroups b key groupChain groups) := by
  match groups with
  | .list groups =>
    rw [Building.whereGroups]
    split
    · exact h.whereEachGroup hb groupChain groups
    · exact kept_throw _
  | .text s =>
    by_cases hs : s = ""
    · subst hs
      exact kept_pure _
    · rw [Building.whereGroups]
      · exact kept_throw _
      · exact hs
  | .null | .bool _ | .int _ | .float _ | .map _ | .raw _ =>
    exact kept_throw _

/-- The groups of an entry keep a guarantee that its steps keep. -/
theorem whereEachGroup (h : MappingSteps G fits links) {b : BuilderId}
    (hb : fits b) (groupChain : String) (groups : List Value) :
    G.Kept (Building.whereEachGroup b groupChain groups) := by
  match groups with
  | [] => exact kept_pure _
  | group :: rest =>
    have hgroup := h.group hb groupChain fun inner hinner =>
      h.whereMapping hinner group
    rw [whereEachGroup_cons]
    exact hgroup.bind fun _ => h.whereEachGroup hb groupChain rest

/-- One group keeps a guarantee that its steps keep. -/
theorem whereMapping (h : MappingSteps G fits links) {b : BuilderId}
    (hb : fits b) (group : Value) :
    G.Kept (Building.whereMapping b group) := by
  match group with
  | .map entries => exact h.whereFilters hb "AND" entries
  | .null | .bool _ | .int _ | .float _ | .text _ | .list _ | .raw _ =>
    exact kept_pure _

end

/-- An entry of a mapping keeps a guarantee that its steps keep. -/
theorem keeps_whereEntry (h : MappingSteps G fits links) {b : BuilderId}
    (hb : fits b) (chain key : String) (value : Value) :
    G.Kept (whereEntry b chain key value) :=
  h.whereEntry_of_groups hb chain fun _ groupChain hinner =>
    h.whereGroups hinner key groupChain value

end MappingSteps

end Building

/-- A workspace with one query, which matches a node. -/
def Workspace.ofNode : Workspace :=
  (exec (Building.start (.any (.one "n:N") none false)) {}).2

end GraphQuery
