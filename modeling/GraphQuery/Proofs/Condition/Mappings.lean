import GraphQuery.Proofs.Compiling.Erasure
import GraphQuery.Proofs.Condition.Calls
import GraphQuery.Proofs.Condition.Meaning

/-!
# The meaning of a mapping of filters

The entries of a mapping are conditions, and groups of further mappings.
What it says is that all its entries hold, where a group is a disjunction or
a conjunction of mappings and nothing is said by a group without conditions:
`Mapping.value`.  The main statement, `Building.whereFilters_means`, is that
the filters a query gets from a mapping have this value, that their text is
read to have it, and that its placeholders are those of the parameters bound
for the mapping, in their order.

* `Mapping.Writes`: what is written for a condition, with its text and the
  parameter it binds;
* `Mapping.Says`: filters with the conditions as their leaves and with their
  value;
* `Building.Appends`: what a step does to the workspace;
* `Building.adds_whereFilters`: an accepted mapping does both, by induction
  on the mapping.  A group is filled in a sub-query of its own, so the
  induction is over all builders of the stack.
-/

namespace GraphQuery

namespace Mapping

/-- The operator a key joins groups by. -/
def groupOperator? : String → Option Chain
  | "$or" => some .or
  | "$and" => some .and
  | _ => none

/-- The chain operator of a group is spelled by the keyword of its operator. -/
theorem groupChain?_eq_map (key : String) :
    groupChain? key = (groupOperator? key).map Chain.keyword := by
  unfold groupChain?
  split
  · rfl
  · rfl
  · simp [groupOperator?]

/-- A chain operator is read from its keyword. -/
theorem ofSpelling_keyword (c : Chain) :
    Chain.ofSpelling c.keyword = .ok c := by
  cases c <;> rfl

mutual

/-- The conditions of a mapping, from left to right and with those of its
groups: the entries that are no groups. -/
def conditions : List (String × Value) → List (String × Value)
  | [] => []
  | (key, value) :: rest =>
    match groupOperator? key with
    | some _ => conditionsOfGroups value ++ conditions rest
    | none => (key, value) :: conditions rest

/-- The conditions of some groups. -/
def conditionsOfGroups : Value → List (String × Value)
  | .list groups => conditionsOfEach groups
  | _ => []

/-- The conditions of each group of a list. -/
def conditionsOfEach : List Value → List (String × Value)
  | [] => []
  | group :: rest => conditionsOfGroup group ++ conditionsOfEach rest

/-- The conditions of one group. -/
def conditionsOfGroup : Value → List (String × Value)
  | .map entries => conditions entries
  | _ => []

end

mutual

/-- **What a mapping says** once its conditions, numbered from `n` on, have
values: that all its entries hold.  A group that says nothing is left out,
and a mapping of nothing else says nothing. -/
def value (truth : Nat → Bool) : Nat → List (String × Value) → Option Bool
  | _, [] => none
  | n, (key, groups) :: rest =>
    match groupOperator? key with
    | some operator => (valueOfGroups truth operator n groups).merge (· && ·)
        (value truth (n + (conditionsOfGroups groups).length) rest)
    | none => (some (truth n)).merge (· && ·) (value truth (n + 1) rest)

/-- What some groups say that are joined by an operator. -/
def valueOfGroups (truth : Nat → Bool) (operator : Chain) : Nat → Value →
    Option Bool
  | n, .list groups => valueOfEach truth operator n groups
  | _, _ => none

/-- What the groups of a list say. -/
def valueOfEach (truth : Nat → Bool) (operator : Chain) : Nat → List Value →
    Option Bool
  | _, [] => none
  | n, group :: rest => (valueOfGroup truth n group).merge operator.apply
      (valueOfEach truth operator (n + (conditionsOfGroup group).length) rest)

/-- What one group says. -/
def valueOfGroup (truth : Nat → Bool) : Nat → Value → Option Bool
  | n, .map entries => value truth n entries
  | _, _ => none

end

/-- Whether a condition is a null check. -/
def isNullCheck (condition : String × Value) : Bool :=
  (keySuffix? condition.1).isNone && condition.2.isNull

/-- The value a condition binds, if it compares with one. -/
def boundValue? (condition : String × Value) : Option Value :=
  if isNullCheck condition then none
  else match condition.2 with
    | .raw _ => none
    | value => some value

/-- The property a condition compares, and the operator. -/
def compared? (condition : String × Value) : Option (String × String) :=
  match keySuffix? condition.1 with
  | some (property, suffix) =>
    (filterSuffixes.lookup suffix).map fun operator => (property, operator)
  | none => some (condition.1, "=")

/-- What is written for a condition: a filter, the text of that, and the
parameters it binds. -/
structure Written where
  filter : Filter BuilderId
  text : String
  bound : List Parameter

/-- The text of a written property of a query with an entry. -/
def writtenText (entry property : String) : String :=
  propertyText (propertyReference entry property).1
    (propertyReference entry property).2

/-- How a condition is written in a query with an entry: as a null check, as
a comparison with the placeholder of a parameter, or as one with a fragment
of query text. -/
inductive Writes (entry : String) : String × Value → Written → Prop
  | isNull {key : String} {value : Value} (chain : Chain)
      (h : isNullCheck (key, value) = true) :
      Writes entry (key, value)
        ⟨.isNull (writtenProperty entry key) false chain,
          writtenText entry key ++ " IS NULL", []⟩
  | bound {key property operator : String} {p : Parameter} (chain : Chain)
      (hcheck : isNullCheck (key, p.value) = false)
      (hvalue : ∀ fragment, p.value ≠ .raw fragment)
      (hoperator : compared? (key, p.value) = some (property, operator)) :
      Writes entry (key, p.value)
        ⟨.compare (writtenProperty entry property) operator
          (.parameter p) chain,
          writtenText entry property ++ " " ++ operator ++ " " ++
            ("$" ++ p.name), [p]⟩
  | fragment {key property operator fragment : String} (chain : Chain)
      (hoperator : compared? (key, .raw fragment) =
        some (property, operator)) :
      Writes entry (key, .raw fragment)
        ⟨.compare (writtenProperty entry property) operator
          (.raw fragment) chain,
          writtenText entry property ++ " " ++ operator ++ " " ++ fragment,
          []⟩

/-- The operator a condition compares by is accepted. -/
theorem comparison_of_compared? {condition : String × Value}
    {property operator : String}
    (h : compared? condition = some (property, operator)) :
    comparison "where" operator = .ok operator := by
  have hsuffixes : ∀ entry ∈ filterSuffixes,
      comparison? entry.2 = some entry.2 := by decide
  have hknown : comparison? operator = some operator := by
    rw [compared?] at h
    split at h
    · next suffix _ =>
      obtain ⟨operator, hlookup, hpair⟩ := Option.map_eq_some_iff.mp h
      cases hpair
      obtain ⟨before, after, hsplit, -⟩ := List.lookup_eq_some_iff.mp hlookup
      exact hsuffixes (suffix, operator) (by simp [hsplit])
    · cases h
      decide
  rw [comparison, hknown]

/-- What is written for a condition has its text by itself. -/
theorem Writes.text_eq {entry : String} {condition : String × Value}
    {written : Written} (h : Writes entry condition written)
    (nestedText : BuilderId → Except Fault String) :
    Filter.text nestedText written.filter = .ok written.text := by
  cases h with
  | isNull chain hcheck => rfl
  | bound chain hcheck hvalue hoperator =>
    rw [Filter.text, comparison_of_compared? hoperator]
    rfl
  | fragment chain hoperator =>
    rw [Filter.text, comparison_of_compared? hoperator]
    rfl

/-- What is written for a condition binds the value the condition is to
bind, if there is one. -/
theorem Writes.map_value {entry : String} {condition : String × Value}
    {written : Written} (h : Writes entry condition written) :
    written.bound.map Parameter.value = (boundValue? condition).toList := by
  cases h with
  | isNull chain hcheck => rw [boundValue?, if_pos hcheck]; rfl
  | @bound key property operator p chain hcheck hvalue hoperator =>
    have hbound : boundValue? (key, p.value) = some p.value := by
      rw [boundValue?, hcheck]
      cases hp : p.value with
      | raw fragment => exact absurd hp (hvalue fragment)
      | _ => rfl
    rw [hbound]
    rfl
  | fragment chain hoperator =>
    rw [boundValue?]
    split <;> rfl

/-- The leaves of filters that say conditions have their texts. -/
theorem leafTexts_of_writes {entry : String}
    {conditions : List (String × Value)} {written : List Written}
    (h : List.Forall₂ (Writes entry) conditions written)
    (nestedText : BuilderId → Except Fault String) :
    Filter.LeafTexts nestedText (written.map Written.filter)
    (written.map Written.text) := by
  induction h with
  | nil => exact .nil
  | cons hhead _ ih => exact .cons (hhead.text_eq nestedText) ih

/-- What is bound for conditions are the values they compare with. -/
theorem map_value_of_writes {entry : String}
    {conditions : List (String × Value)} {written : List Written}
    (h : List.Forall₂ (Writes entry) conditions written) :
    (written.flatMap Written.bound).map Parameter.value =
      conditions.filterMap boundValue? := by
  induction h with
  | nil => rfl
  | @cons condition row rest rows hhead _ ih =>
    rw [List.flatMap_cons, List.map_append, hhead.map_value, ih,
      List.filterMap_cons]
    cases boundValue? condition <;> rfl

/-- What is written for a condition is one leaf. -/
theorem Writes.leaves_eq {entry : String} {condition : String × Value}
    {written : Written} (h : Writes entry condition written) :
    Filter.leaves written.filter = [written.filter] := by
  cases h <;> rfl

/-- Filters that say what conditions say together: what is written for the
conditions, in their order, is the leaves of the filters, and the operands
the operator joins have the value the conditions are to have, from whichever
number on these are numbered. -/
structure Says (entry : String) (c : Chain)
    (conditions : List (String × Value))
    (value : (Nat → Bool) → Nat → Option Bool)
    (filters : List (Filter BuilderId)) (written : List Written) : Prop where
  writes : List.Forall₂ (Writes entry) conditions written
  leaves : Filter.leavesOfAll filters = written.map Written.filter
  filled : Filter.AllFilled filters
  value : ∀ truth n,
  c.joined ((Filter.operands truth n filters).map Prod.snd) = value truth n

namespace Says

variable {entry : String} {c : Chain}
    {conditions others : List (String × Value)}
  {value value' : (Nat → Bool) → Nat → Option Bool}
  {filters more : List (Filter BuilderId)}
  {written written' : List Written}

/-- No conditions are said by no filters. -/
theorem nil (entry : String) (c : Chain) : Says entry c [] (fun _ _ => none)
    [] [] where
  writes := .nil
  leaves := rfl
  filled := trivial
  value _ _ := rfl

/-- A condition is said by the filter for it. -/
theorem single {condition : String × Value} {row : Written}
    (h : Writes entry condition row) (c : Chain) : Says entry c [condition]
    (fun truth n => some (truth n)) [row.filter] [row] where
  writes := .cons h .nil
  leaves := by
    rw [Filter.leavesOfAll, h.leaves_eq]
    rfl
  filled := by cases h <;> exact ⟨trivial, trivial⟩
  value truth n := by
    rw [Filter.operands, Filter.operands, List.map_singleton,
      Chain.joined_singleton]
    cases h <;> rfl

/-- There are as many leaves as conditions. -/
theorem length_leaves (h : Says entry c conditions value filters written) :
    (Filter.leavesOfAll filters).length = conditions.length := by
  rw [h.leaves, List.length_map, h.writes.length_eq]

/-- Conditions are said by the filters for both rows of them. -/
theorem append (h : Says entry c conditions value filters written)
    (h' : Says entry c others value' more written') :
    Says entry c (conditions ++ others)
      (fun truth n =>
        (value truth n).merge c.apply (value' truth (n + conditions.length)))
      (filters ++ more) (written ++ written') where
  writes := List.rel_append h.writes h'.writes
  leaves := by
    rw [Filter.leavesOfAll_append, h.leaves, h'.leaves, List.map_append]
  filled := Filter.allFilled_append h.filled h'.filled
  value truth n := by
    rw [Filter.operands_append, List.map_append, Chain.joined_append,
      h.value, h'.value,
      h.length_leaves]

/-- What filters say whose operator joins them all is the value they have. -/
theorem value_eq (h : Says entry c conditions value filters written)
    (hne : filters ≠ []) (hjoined : ∀ filter ∈ filters.tail, filter.chain = c)
    (truth : Nat → Bool) (n : Nat) :
    value truth n =
      some (Condition.combined (Filter.operands truth n filters)) := by
  rw [← h.value]
  cases filters with
  | nil => exact absurd rfl hne
  | cons filter rest =>
    rw [Filter.operands, Condition.combined_of_tail_eq, Chain.joined]
    · rfl
    · intro operand hoperand
      have hmem := List.mem_map_of_mem (f := Prod.fst) hoperand
      rw [Filter.map_fst_operands] at hmem
      obtain ⟨other, hother, hchain⟩ := List.mem_map.mp hmem
      rw [← hchain]
      exact hjoined other hother

/-- A group says by itself what its filters say. -/
theorem group (h : Says entry c conditions value filters written)
    (hne : filters ≠ []) (hjoined : ∀ filter ∈ filters.tail, filter.chain = c)
    (c' joined : Chain) :
    Says entry c' conditions value [.group filters false joined] written where
  writes := h.writes
  leaves := by
    rw [Filter.leavesOfAll, Filter.leavesOfAll, List.append_nil,
      Filter.leaves, h.leaves]
  filled := ⟨⟨hne, h.filled⟩, trivial⟩
  value truth n := by
    rw [h.value_eq hne hjoined, Filter.operands, Filter.operands,
      List.map_singleton,
      Chain.joined_singleton, Filter.value, Bool.false_xor]

/-- Filters that are none say nothing. -/
theorem of_nil (h : Says entry c conditions value [] written) (c' : Chain) :
    Says entry c' conditions value [] written where
  writes := h.writes
  leaves := h.leaves
  filled := trivial
  value := h.value

end Says

end Mapping

/-! ### Appending filters -/

namespace Building

open GraphQuery.Computation Workspace

/-- A builder of a workspace has a stack of the given number and an entry. -/
def Placed (w : Workspace) (b : BuilderId) (n : Nat) (entry : String) :
    Prop :=
  n < w.parameterStacks.size ∧
    ∃ found, w.builders[b]? = some found ∧ found.stack = n ∧
    found.body.entry = entry

/-- A step appends filters to a builder and binds parameters in a stack.
The other builders stay as they are. -/
structure Appends (w : Workspace) (b : BuilderId) (n : Nat)
    (filters : List (Filter BuilderId)) (bound : List Parameter)
    (w' : Workspace) : Prop where
  builder : ∀ found, w.builders[b]? = some found →
    w'.builders[b]? = some (found.filtered filters)
  others : ∀ c found, c ≠ b → w.builders[c]? = some found →
  w'.builders[c]? = some found
  stack : w'.stack n =
    { w.stack n with parameters := (w.stack n).parameters ++ bound }
  size : w'.parameterStacks.size = w.parameterStacks.size

variable {w w₁ w' : Workspace} {b : BuilderId} {n : Nat} {entry : String}
  {filters more : List (Filter BuilderId)} {bound others : List Parameter}

namespace Appends

/-- No filters are appended by doing nothing. -/
theorem refl (w : Workspace) (b : BuilderId) (n : Nat) : Appends w b n []
    [] w where
  builder found hb := by rw [hb, Builder.filtered_nil]
  others _ _ _ hc := hc
  stack := by rw [List.append_nil]
  size := rfl

/-- Filters are appended in two goes. -/
theorem trans (h : Appends w b n filters bound w₁)
    (h' : Appends w₁ b n more others w') :
    Appends w b n (filters ++ more) (bound ++ others) w' where
  builder found hb := by
    rw [h'.builder _ (h.builder found hb), Builder.filtered_filtered]
  others c found hne hc := h'.others c found hne (h.others c found hne hc)
  stack := by rw [h'.stack, h.stack, List.append_assoc]
  size := h'.size.trans h.size

/-- A builder stays at its place and on its stack when filters are appended. -/
theorem placed {b' : BuilderId} (h : Appends w b n filters bound w')
    (hb : Placed w b' n entry) :
    Placed w' b' n entry := by
  obtain ⟨hn, found, hfound, hstack, hentry⟩ := hb
  refine ⟨h.size ▸ hn, ?_⟩
  by_cases hbb : b' = b
  · subst hbb
    exact ⟨_, h.builder found hfound, hstack, hentry⟩
  · exact ⟨found, h.others b' found hbb hfound, hstack, hentry⟩

/-- A filter that binds nothing is appended. -/
theorem filtered (w : Workspace) (b : BuilderId) (n : Nat)
    (filter : Filter BuilderId) :
    Appends w b n [filter] [] (w.filtered b filter) where
  builder found hb := amended_self hb _
  others c found hne hc := by
    rcases amended_cases w b (fun builder => builder.filtered [filter])
        c with ⟨hbc, -⟩ | hsame
    · exact absurd hbc.symm hne
    · exact hsame.trans hc
  stack := by rw [List.append_nil]; rfl
  size := rfl

/-- Binding a value binds one parameter, or none if it is a fragment of
query text. -/
theorem of_bound (hn : n < w.parameterStacks.size) (b : BuilderId)
    (value : Value) :
    (∃ fragment, value = .raw fragment ∧ w.reference n value = .raw fragment ∧
      Appends w b n [] [] (w.bound n value)) ∨
    ∃ p : Parameter, p.value = value ∧ (∀ fragment, value ≠ .raw fragment) ∧
      w.reference n value = .parameter p ∧ Appends w b n [] [p]
      (w.bound n value) := by
  have hstack := stack_withStack w hn ((w.stack n).add value).2 n
  rw [if_pos rfl] at hstack
  have hsize : (w.bound n value).parameterStacks.size =
      w.parameterStacks.size :=
    Array.size_setIfInBounds ..
  have hbuilder : ∀ found, w.builders[b]? = some found →
      (w.bound n value).builders[b]? = some (found.filtered []) := by
    intro found hb
    rw [Builder.filtered_nil]
    exact hb
  rcases (w.stack n).add_cases value with ⟨fragment, hraw, hadd⟩ |
      ⟨hraw, hadd⟩
  · refine .inl ⟨fragment, hraw, by rw [reference, hadd], hbuilder,
      fun _ _ _ hc => hc, ?_, hsize⟩
    rw [Workspace.bound, hstack, hadd, List.append_nil]
  · refine .inr ⟨_, rfl, hraw, by rw [reference, hadd], hbuilder,
      fun _ _ _ hc => hc, ?_, hsize⟩
    rw [Workspace.bound, hstack, hadd]

/-- A new sub-query is filled and then taken as a group.  The sub-query is
new, so filling it leaves all builders there were as they are. -/
theorem group {chain : String} {found : Builder} {batchVariable : String}
    (hb : w.builders[b]? = some found)
    (hfill : Appends (w.extended (subQueryOf found batchVariable))
      w.builders.size n filters bound w₁)
    (h : exec (whereGroup b w.builders.size false chain) w₁ = (.ok (), w')) :
    ∃ groups, Appends w b n groups bound w' ∧
      ((filters = [] ∧ groups = []) ∨
        (filters ≠ [] ∧ ∃ joined, Chain.ofSpelling chain = .ok joined ∧
        groups = [.group filters false joined])) := by
  have hlt : b < w.builders.size := (Array.getElem?_eq_some_iff.mp hb).1
  have hkeeps : ∀ (c : BuilderId) (other : Builder),
      w.builders[c]? = some other →
      w₁.builders[c]? = some other := by
    intro c other hc
    have hc' : c < w.builders.size := (Array.getElem?_eq_some_iff.mp hc).1
    refine hfill.others c other (Nat.ne_of_lt hc') ?_
    rcases extended_cases w (subQueryOf found batchVariable) c with
        ⟨hnone, -⟩ | hsame
    · exact nomatch hc.symm.trans hnone
    · exact hsame.trans hc
  have hbase : Appends w b n [] bound w₁ := by
    refine ⟨fun other hother => ?_, fun c other _ hc => hkeeps c other hc,
      hfill.stack, hfill.size⟩
    rw [Builder.filtered_nil]
    exact hkeeps b other hother
  have hinner :=
    hfill.builder (subQueryOf found batchVariable) Array.getElem?_push_size
  rw [exec_whereGroup hinner] at h
  have hwheres : ((subQueryOf found batchVariable).filtered
      filters).body.wheres = filters := rfl
  rw [hwheres] at h
  cases filters with
  | nil =>
    obtain rfl : w₁ = w' := congrArg Prod.snd h
    exact ⟨[], hbase, .inl ⟨rfl, rfl⟩⟩
  | cons filter rest =>
    rw [List.isEmpty_cons, if_neg Bool.false_ne_true] at h
    obtain ⟨joined, hchain, rfl⟩ := exists_of_chained_ok h
    have hlast := filtered (w₁.taken b w.builders.size) b n
      (.group (filter :: rest) false joined)
    have hboth := hbase.trans ⟨hlast.builder, hlast.others, hlast.stack,
      hlast.size⟩
    rw [List.nil_append, List.append_nil] at hboth
    exact ⟨_, hboth, .inr ⟨List.cons_ne_nil filter rest, joined, hchain, rfl⟩⟩

end Appends

/-! ### What filtering by a mapping adds -/

/-- A step adds filters to a builder that say what conditions say, with the
parameters written for these.  The filters are joined as they should be. -/
def Adds (w : Workspace) (b : BuilderId) (n : Nat) (entry : String)
    (c : Chain) (conditions : List (String × Value))
    (value : (Nat → Bool) → Nat → Option Bool)
    (fits : List (Filter BuilderId) → Prop) (w' : Workspace) : Prop :=
  ∃ filters written, Appends w b n filters
    (written.flatMap Mapping.Written.bound) w' ∧
    Mapping.Says entry c conditions value filters written ∧ fits filters

/-- One filter at most, behind the chain operator of a spelling. -/
def OneBehind (chain : String) (filters : List (Filter BuilderId)) : Prop :=
  filters.length ≤ 1 ∧ ∀ filter ∈ filters,
    Chain.ofSpelling chain = .ok filter.chain

/-- Filters behind one operator, but for the first one, which stands behind
that of a spelling. -/
def AllBehind (c : Chain) (chain : String)
    (filters : List (Filter BuilderId)) : Prop :=
  (∀ filter ∈ filters.tail, filter.chain = c) ∧
    ∀ filter ∈ filters, filter.chain = c ∨
    Chain.ofSpelling chain = .ok filter.chain

/-- No filters are behind every operator. -/
theorem AllBehind.nil (c : Chain) (chain : String) :
    AllBehind c chain [] := by
  simp [AllBehind]

/-- If the spelling is of the operator, that is behind every filter. -/
theorem AllBehind.chain_eq {c : Chain} {spelling : String}
    (hspelling : Chain.ofSpelling spelling = .ok c)
    (h : AllBehind c spelling filters) :
    ∀ filter ∈ filters, filter.chain = c := by
  intro filter hfilter
  rcases h.2 filter hfilter with hc | hc
  · exact hc
  · exact Except.ok.inj (hc.symm.trans hspelling)

/-- Filters stand behind an operator if the first one does, and the others
behind the same one. -/
theorem AllBehind.of_one {c : Chain} {chain spelling : String}
    (hspelling : Chain.ofSpelling spelling = .ok c)
    (hfilters : OneBehind chain filters) (hmore : AllBehind c spelling more) :
    AllBehind c chain (filters ++ more) := by
  have hall := hmore.chain_eq hspelling
  refine ⟨fun filter hfilter => hall filter ?_, fun filter hfilter => ?_⟩
  · match filters, hfilters.1 with
    | [], _ => exact List.mem_of_mem_tail hfilter
    | [_], _ => exact hfilter
  · rcases List.mem_append.mp hfilter with hleft | hright
    · exact .inr (hfilters.2 filter hleft)
    · exact .inl (hall filter hright)

namespace Adds

open Mapping

variable {c : Chain} {conditions others : List (String × Value)}
  {value value' : (Nat → Bool) → Nat → Option Bool}
  {fits fits' : List (Filter BuilderId) → Prop}

/-- No conditions are added by doing nothing. -/
theorem nothing (w : Workspace) (b : BuilderId) (n : Nat) (entry : String)
    (c : Chain) (hfits : fits []) :
    Adds w b n entry c [] (fun _ _ => none) fits w :=
  ⟨[], [], .refl w b n, .nil entry c, hfits⟩

/-- A builder stays at its place and on its stack when conditions are added. -/
theorem placed {b' : BuilderId} {entry' : String}
    (h : Adds w b n entry c conditions value fits w')
    (hb : Placed w b' n entry') : Placed w' b' n entry' := by
  obtain ⟨filters, written, happends, -⟩ := h
  exact happends.placed hb

/-- Conditions are added in two goes. -/
theorem append {joined : List (Filter BuilderId) → Prop}
    (h : Adds w b n entry c conditions value fits w₁)
    (h' : Adds w₁ b n entry c others value' fits' w')
    (hfits : ∀ {filters more}, fits filters → fits' more →
      joined (filters ++ more)) :
    Adds w b n entry c (conditions ++ others)
      (fun truth k => (value truth k).merge c.apply
        (value' truth (k + conditions.length))) joined
      w' := by
  obtain ⟨filters, written, happends, hmeaning, hfilters⟩ := h
  obtain ⟨more, written', happends', hmeaning', hmore⟩ := h'
  refine ⟨filters ++ more, written ++ written', ?_,
    hmeaning.append hmeaning', hfits hfilters hmore⟩
  rw [List.flatMap_append]
  exact happends.trans happends'

/-- A group that is filled in a sub-query adds what its filters say, as one
filter. -/
theorem group {chain spelling : String} {fill : BuilderId → Building Unit}
    (hb : Placed w b n entry)
    (hfill : ∀ {w w' : Workspace} {b : BuilderId}, Placed w b n entry →
      exec (fill b) w = (.ok (), w') →
      Adds w b n entry c conditions value (AllBehind c spelling) w')
    (h : exec (newSubQuery b >>= fun inner => fill inner >>= fun _ =>
      whereGroup b inner false chain) w = (.ok (), w')) (c' : Chain) :
    Adds w b n entry c' conditions value (OneBehind chain) w' := by
  obtain ⟨hn, found, hfound, hstack, hentry⟩ := hb
  rw [exec_bind, exec_newSubQuery hfound] at h
  obtain ⟨_, w₁, hrun, hgroup⟩ := exec_bind_eq_ok.mp h
  have hinner :
      Placed (w.extended (subQueryOf found w.settings.batchVariable))
        w.builders.size n
      entry :=
    ⟨hn, _, Array.getElem?_push_size, hstack, hentry⟩
  obtain ⟨filters, written, happends, hmeaning, hjoined⟩ := hfill hinner hrun
  obtain ⟨groups, hgroups, hcases⟩ := Appends.group hfound happends hgroup
  refine ⟨groups, written, hgroups, ?_⟩
  rcases hcases with ⟨rfl, rfl⟩ | ⟨hne, joined, hchain, rfl⟩
  · exact ⟨hmeaning.of_nil c', Nat.zero_le 1, fun _ hmem => nomatch hmem⟩
  · refine ⟨hmeaning.group hne hjoined.1 c' joined, Nat.le_refl 1,
      fun filter hfilter => ?_⟩
    rw [List.mem_singleton.mp hfilter]
    exact hchain

/-- A comparison with a value adds what the condition is written as. -/
theorem compare {key property operator chain : String} {value : Value}
    (hb : Placed w b n entry) (hcheck : isNullCheck (key, value) = false)
    (hcompared : compared? (key, value) = some (property, operator))
    (h : exec (whereCompare b property operator value chain) w =
      (.ok (), w')) (c : Chain) :
    Adds w b n entry c [(key, value)] (fun truth k => some (truth k))
    (OneBehind chain) w' := by
  obtain ⟨hn, found, hfound, rfl, rfl⟩ := hb
  rw [exec_whereCompare_eq hfound (comparison_of_compared? hcompared)] at h
  obtain ⟨joined, hchain, rfl⟩ := exists_of_chained_ok h
  have hone : ∀ filter : Filter BuilderId, filter.chain = joined →
      OneBehind chain [filter] := by
    intro filter hfilter
    refine ⟨Nat.le_refl 1, fun other hother => ?_⟩
    rw [List.mem_singleton.mp hother, hfilter, hchain]
  rcases Appends.of_bound hn b value with
    ⟨fragment, rfl, hreference, happends⟩ | ⟨p, rfl, hraw, hreference,
      happends⟩
  · rw [hreference]
    have hboth := happends.trans (.filtered _ b _ (.compare
      (writtenProperty found.body.entry property) operator
        (.raw fragment) joined))
    exact ⟨_, _, hboth, .single (.fragment joined hcompared) c, hone _ rfl⟩
  · rw [hreference]
    have hboth := happends.trans (.filtered _ b _ (.compare
      (writtenProperty found.body.entry property) operator
        (.parameter p) joined))
    exact ⟨_, _, hboth, .single (.bound joined hcheck hraw hcompared) c,
      hone _ rfl⟩

/-- A null check adds what the condition is written as. -/
theorem isNull {key chain : String} {value : Value} (hb : Placed w b n entry)
    (hcheck : isNullCheck (key, value) = true)
    (h : exec (whereNull b key false chain) w = (.ok (), w')) (c : Chain) :
    Adds w b n entry c [(key, value)] (fun truth k => some (truth k))
    (OneBehind chain) w' := by
  obtain ⟨hn, found, hfound, rfl, rfl⟩ := hb
  rw [exec_whereNull hfound] at h
  obtain ⟨joined, hchain, rfl⟩ := exists_of_chained_ok h
  refine ⟨_, _, .filtered w b
    _ (.isNull (writtenProperty found.body.entry key) false joined),
    .single (.isNull joined hcheck) c, Nat.le_refl 1, fun other hother => ?_⟩
  rw [List.mem_singleton.mp hother, hchain]
  rfl

end Adds

open Mapping

/-- An entry that is no group adds its condition. -/
theorem adds_condition {key chain : String} {value : Value}
    (hb : Placed w b n entry) (hkey : groupChain? key = none)
    (h : exec (whereEntry b chain key value) w = (.ok (), w')) (c : Chain) :
    Adds w b n entry c [(key, value)] (fun truth k => some (truth k))
    (OneBehind chain) w' := by
  rw [whereEntry, hkey] at h
  dsimp only at h
  split at h
  · next property suffix hsuffix =>
    have hcheck : isNullCheck (key, value) = false := by
      rw [isNullCheck, hsuffix]; rfl
    split at h
    · next operator hoperator =>
      refine Adds.compare hb hcheck ?_ h c
      simp [compared?, hsuffix, hoperator]
    · cases h
  · next hsuffix =>
    cases hnull : value.isNull with
    | true =>
      rw [hnull] at h
      exact Adds.isNull hb (by rw [isNullCheck, hsuffix, hnull]; rfl) h c
    | false =>
      rw [hnull] at h
      refine Adds.compare hb (by rw [isNullCheck, hsuffix, hnull]; rfl) ?_ h c
      rw [compared?, hsuffix]

mutual

/-- **Filtering by a mapping adds what the mapping says.** -/
theorem adds_whereFilters {chain : String} (entries : List (String × Value))
    {w w' : Workspace} {b : BuilderId} (hb : Placed w b n entry)
    (h : exec (whereFilters b chain entries) w = (.ok (), w')) :
    Adds w b n entry .and (conditions entries)
    (fun truth k => value truth k entries)
      (AllBehind .and chain) w' := by
  match entries with
  | [] =>
    rw [whereFilters] at h
    obtain rfl : w = w' := congrArg Prod.snd h
    exact Adds.nothing w b n entry .and (AllBehind.nil _ _)
  | (key, value) :: rest =>
    rw [whereFilters_cons] at h
    obtain ⟨_, w₁, hentry, hrest⟩ := exec_bind_eq_ok.mp h
    have hand : Chain.ofSpelling "AND" = .ok .and := ofSpelling_keyword .and
    cases hoperator : groupOperator? key with
    | none =>
      have hkey : groupChain? key = none := by
        rw [groupChain?_eq_map, hoperator]; rfl
      have hfirst := adds_condition hb hkey hentry .and
      have hboth :=
        hfirst.append (adds_whereFilters rest (hfirst.placed hb) hrest)
        (AllBehind.of_one hand)
      simp only [conditions, Mapping.value, hoperator]
      exact hboth
    | some operator =>
      have hkey : groupChain? key = some operator.keyword := by
        rw [groupChain?_eq_map, hoperator]
        rfl
      rw [whereEntry, hkey] at hentry
      have hfirst :=
        Adds.group hb (fun hinner hrun => adds_whereGroups value hinner
        (ofSpelling_keyword operator) hrun) hentry .and
      have hboth :=
        hfirst.append (adds_whereFilters rest (hfirst.placed hb) hrest)
        (AllBehind.of_one hand)
      simp only [conditions, Mapping.value, hoperator]
      exact hboth

/-- An entry of groups adds the conditions of the groups. -/
theorem adds_whereGroups {key spelling : String} {operator : Chain}
    (groups : Value) {w w' : Workspace} {b : BuilderId}
    (hb : Placed w b n entry)
    (hspelling : Chain.ofSpelling spelling = .ok operator)
    (h : exec (whereGroups b key spelling groups) w = (.ok (), w')) :
    Adds w b n entry operator (conditionsOfGroups groups)
      (fun truth k => valueOfGroups truth operator k groups)
      (AllBehind operator spelling) w' := by
  match groups with
  | .list groups =>
    rw [whereGroups] at h
    split at h
    · exact adds_whereEachGroup groups hb hspelling h
    · cases h
  | .text s =>
    by_cases hs : s = ""
    · subst hs
      obtain rfl : w = w' := congrArg Prod.snd h
      exact Adds.nothing w b n entry operator (AllBehind.nil _ _)
    · rw [whereGroups] at h
      · cases h
      · exact hs
  | .null | .bool _ | .int _ | .float _ | .map _ | .raw _ => cases h

/-- The groups of an entry add their conditions, one group behind the other. -/
theorem adds_whereEachGroup {spelling : String} {operator : Chain}
    (groups : List Value) {w w' : Workspace} {b : BuilderId}
    (hb : Placed w b n entry)
    (hspelling : Chain.ofSpelling spelling = .ok operator)
    (h : exec (whereEachGroup b spelling groups) w = (.ok (), w')) :
    Adds w b n entry operator (conditionsOfEach groups)
      (fun truth k => valueOfEach truth operator k groups)
      (AllBehind operator spelling) w' := by
  match groups with
  | [] =>
    rw [whereEachGroup] at h
    obtain rfl : w = w' := congrArg Prod.snd h
    exact Adds.nothing w b n entry operator (AllBehind.nil _ _)
  | group :: rest =>
    rw [whereEachGroup_cons] at h
    obtain ⟨_, w₁, hgroup, hrest⟩ := exec_bind_eq_ok.mp h
    have hfirst := Adds.group hb (fun hinner hrun =>
      adds_whereMapping group hinner hrun) hgroup
      operator
    exact hfirst.append
      (adds_whereEachGroup rest (hfirst.placed hb) hspelling hrest)
      (AllBehind.of_one hspelling)

/-- One group adds its conditions, behind AND. -/
theorem adds_whereMapping (group : Value) {w w' : Workspace} {b : BuilderId}
    (hb : Placed w b n entry)
    (h : exec (whereMapping b group) w = (.ok (), w')) :
    Adds w b n entry .and (conditionsOfGroup group)
    (fun truth k => valueOfGroup truth k group)
      (AllBehind .and "AND") w' := by
  match group with
  | .map entries => exact adds_whereFilters entries hb h
  | .null | .bool _ | .int _ | .float _ | .text _ | .list _ | .raw _ =>
    obtain rfl : w = w' := congrArg Prod.snd h
    exact Adds.nothing w b n entry .and (AllBehind.nil _ _)

end

/-- **Filtering by a mapping means what the mapping says.**  On a builder
without filters, whose stack is there as `Workspace.Grounded.stack_lt` says
it is in every script, an accepted mapping that adds a filter gives filters
with the value of the mapping, and a text that is read to have just this
value, for all values of the conditions.  The conditions stand in the text
in their order, and the placeholders in them are those of the parameters
newly bound, in the order they were bound in, to the values the conditions
compare with.  The conditions of a mapping nest no query, so it does not
matter how these are written. -/
theorem whereFilters_means {found : Builder} {chain : String}
    {entries : List (String × Value)} (hb : w.builders[b]? = some found)
    (hstack : found.stack < w.parameterStacks.size)
    (hnone : found.body.wheres = [])
    (haccepted : exec (whereFilters b chain entries) w = (.ok (), w'))
    (hsome : (w'.body b).wheres ≠ []) :
    ∃ (written : List Written) (symbols : List Condition.Symbol),
      List.Forall₂ (Writes found.body.entry) (conditions entries) written ∧
      Filter.leavesOfAll (w'.body b).wheres = written.map Written.filter ∧
      (∀ truth, Mapping.value truth 0 entries =
        some (Filter.listValue truth (w'.body b).wheres)) ∧
      Pass.filtering.clauses (w'.opened b) =
        .ok [⟨.where_, Condition.spelled symbols⟩] ∧
      symbols.filterMap Condition.Symbol.leaf? =
        (written.map Written.text).zipIdx ∧
      (∀ truth v, Condition.TextReads truth symbols v ↔
        Mapping.value truth 0 entries = some v) ∧
      (w'.stack found.stack).parameters =
        (w.stack found.stack).parameters ++ written.flatMap Written.bound ∧
      (written.flatMap Written.bound).map Parameter.value =
        (conditions entries).filterMap boundValue? := by
  have hplaced : Placed w b found.stack found.body.entry :=
    ⟨hstack, found, hb, rfl, rfl⟩
  obtain ⟨filters, written, happends, hmeaning, hjoined⟩ :=
    adds_whereFilters entries hplaced haccepted
  have hwheres : (w'.body b).wheres = filters := by
    rw [body_eq (happends.builder found hb), Builder.filtered, hnone,
      List.nil_append]
  rw [hwheres] at hsome ⊢
  have hvalue : ∀ truth,
      Mapping.value truth 0 entries = some (Filter.listValue truth filters) :=
    fun truth => hmeaning.value_eq hsome hjoined.1 truth 0
  let nestedText : BuilderId → Except Fault String := fun c =>
    Pass.nestedText .predicate (w'.nested (3 * w'.builders.size) [] c)
  have htexts : Filter.LeafTexts nestedText (Filter.leavesOfAll filters)
      (written.map Written.text) :=
    hmeaning.leaves ▸ leafTexts_of_writes hmeaning.writes nestedText
  obtain ⟨t, ht⟩ := (Filter.listText_isOk_iff filters).mpr
    (Filter.LeafTexts.exists_iff.mp ⟨_, htexts⟩)
  obtain ⟨symbols, texts, hspelled, htexts', hmarks, hreads⟩ :=
    (Filter.listText_keeps_meaning hsome hmeaning.filled).1 t ht
  refine ⟨written, symbols, hmeaning.writes, hmeaning.leaves, hvalue, ?_, ?_,
    fun truth v => ?_, ?_, ?_⟩
  · have hfilter : (!filters.isEmpty) = true := by simpa using hsome
    have htext : Pass.filtersText
        (Filter.mapAll (w'.nested (3 * w'.builders.size) []) filters) =
        .ok t := (Filter.listText_mapAll _ _ filters).trans ht
    show Pass.clauseIf (!(Filter.mapAll _ (w'.body b).wheres).isEmpty) .where_
      (Pass.filtersText (Filter.mapAll _ (w'.body b).wheres)) = _
    rw [hwheres, Filter.isEmpty_mapAll, hfilter, htext, hspelled]
    rfl
  · rw [hmarks, htexts'.unique htexts]
  · rw [hreads, hvalue, Option.some_inj, eq_comm]
  · rw [happends.stack]
  · exact map_value_of_writes hmeaning.writes

/-- A disjunction of three mappings, one of them empty and one with a
fragment, and a comparison. -/
def grouped : List (String × Value) :=
  [("$or", .list [.map [("a", .int 1), ("b", .null)], .map [],
    .map [("c__gt", .raw "now()")]]),
   ("d__ne", .text "x")]

/-- A disjunction of groups and a comparison beside it are read as they are
given. -/
theorem whereFilters_means_of_grouped :
    let w' := (exec (whereFilters 0 "AND" grouped) ofNode).2
    ∃ symbols,
      Condition.spelled symbols =
        "((n.a = $param0 AND n.b IS NULL) OR n.c > now()) AND n.d <> $param1" ∧
      Pass.filtering.clauses (w'.opened 0) =
        .ok [⟨.where_, Condition.spelled symbols⟩] ∧
      (∀ truth v, Condition.TextReads truth symbols v ↔
        ((truth 0 && truth 1 || truth 2) && truth 3) = v) ∧
      ∃ bound, (w'.stack 0).parameters = (ofNode.stack 0).parameters ++
        bound ∧
        bound.map Parameter.value = [.int 1, .text "x"] := by
  intro w'
  have hok : (exec (whereFilters 0 "AND" grouped) ofNode).1.toBool =
      true := by decide +kernel
  have haccepted : exec (whereFilters 0 "AND" grouped) ofNode =
      (.ok (), w') := by
    rcases hexec : exec (whereFilters 0 "AND" grouped) ofNode with ⟨_ | _, t⟩
    · rw [hexec] at hok
      cases hok
    · simp only [w', hexec]
  have hb : ofNode.builders[0]? =
      some (ofNode.builders[0]?.getD default) := by rfl
  have hstack : (ofNode.builders[0]?.getD default).stack = 0 := by rfl
  have hwheres : (w'.body 0).wheres.isEmpty = false := by decide +kernel
  have hclauses : (Pass.filtering.clauses (w'.opened 0)).toOption =
      some [⟨.where_, "((n.a = $param0 AND n.b IS NULL) OR n.c > now())" ++
        " AND n.d <> $param1"⟩] := by
    decide +kernel
  obtain ⟨written, symbols, -, -, -, hwhere, -, hreads, hbound, hvalues⟩ :=
    whereFilters_means hb (by decide +kernel) rfl haccepted (by
      intro hnone
      rw [hnone] at hwheres
      cases hwheres)
  rw [hstack] at hbound
  rw [hwhere] at hclauses
  obtain ⟨-, hspelled⟩ :=
    Clause.mk.inj (List.singleton_inj.mp (Option.some.inj hclauses))
  refine ⟨symbols, hspelled, hwhere, fun truth v =>
    (hreads truth v).trans ?_, _, hbound, hvalues⟩
  exact Option.some_inj

end Building

end GraphQuery
