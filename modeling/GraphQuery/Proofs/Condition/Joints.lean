import GraphQuery.Proofs.Condition.Mappings

/-!
# How the filters of a mapping are joined

The chain operator a mapping is given joins its first entry to the filters
there are; all other entries are joined by AND.  If the first entry is a
group that adds nothing, the operator is used up all the same, and the first
filter that is added stands behind AND: `Building.whereFilters_joins`.
-/

namespace GraphQuery

namespace Filter

variable {β : Type}

mutual

/-- A filled filter holds a condition. -/
theorem leaves_ne_nil (filter : Filter β) (h : Filled filter) :
    leaves filter ≠ [] := by
  match filter with
  | .group filters negate chain =>
    rw [Filled] at h
    rw [leaves]
    exact leavesOfAll_ne_nil filters h.1 h.2
  | .compare .. | .compareProperties .. | .isNull .. | .raw .. | .exists ..
  | .count .. | .misplaced _ =>
    exact List.cons_ne_nil _ _

/-- Filters whose groups all hold something have a leaf. -/
theorem leavesOfAll_ne_nil (filters : List (Filter β)) (hne : filters ≠ [])
    (h : AllFilled filters) : leavesOfAll filters ≠ [] := by
  match filters with
  | [] => exact absurd rfl hne
  | filter :: rest =>
    rw [AllFilled] at h
    rw [leavesOfAll]
    exact List.append_ne_nil_of_left_ne_nil (leaves_ne_nil filter h.1) _

end

end Filter

namespace Mapping

/-- There are filters exactly if there are conditions for them to state. -/
theorem Says.eq_nil_iff {entry : String} {c : Chain}
    {conditions : List (String × Value)}
    {value : (Nat → Bool) → Nat → Option Bool}
    {filters : List (Filter BuilderId)} {written : List Written}
    (h : Says entry c conditions value filters written) :
    filters = [] ↔ conditions = [] := by
  have hlength := h.length_leaves
  constructor
  · rintro rfl
    exact List.eq_nil_of_length_eq_zero hlength.symm
  · rintro rfl
    by_contra hne
    exact Filter.leavesOfAll_ne_nil filters hne h.filled
      (List.eq_nil_of_length_eq_zero hlength)

/-- The conditions of a mapping are those of its first entry and those of
the others. -/
theorem conditions_cons (condition : String × Value)
    (rest : List (String × Value)) :
    conditions (condition :: rest) = conditions [condition] ++
      conditions rest := by
  obtain ⟨key, value⟩ := condition
  cases hoperator : groupOperator? key <;> simp [conditions, hoperator]

end Mapping

namespace Building

open GraphQuery.Computation Workspace Mapping

variable {w w' : Workspace} {b : BuilderId} {n : Nat} {entry : String}

/-- A filter in front comes first; without one, the first filter is behind
the operator of the others. -/
theorem OneBehind.first {c : Chain} {chain : String}
    {filters more : List (Filter BuilderId)} {first : Filter BuilderId}
    (hone : OneBehind chain filters)
    (hmore : ∀ filter ∈ more, filter.chain = c)
    (hfirst : first ∈ (filters ++ more).head?) :
    (filters ≠ [] → Chain.ofSpelling chain = .ok first.chain) ∧
      (filters = [] → first.chain = c) := by
  cases filters with
  | nil =>
    rw [List.nil_append] at hfirst
    exact ⟨fun hne => absurd rfl hne, fun _ =>
      hmore first (List.mem_of_mem_head? hfirst)⟩
  | cons filter others =>
    obtain rfl : filter = first := Option.some.inj hfirst
    exact ⟨fun _ => hone.2 filter List.mem_cons_self, fun hnil =>
      absurd hnil (List.cons_ne_nil _ _)⟩

/-- An entry of a mapping adds one filter at most, and it adds one if it
holds a condition. -/
theorem adds_whereEntry {key chain : String} {value : Value}
    (hb : Placed w b n entry)
    (h : exec (whereEntry b chain key value) w = (.ok (), w')) :
    ∃ meant, Adds w b n entry .and (conditions [(key, value)]) meant
      (OneBehind chain) w' := by
  cases hoperator : groupOperator? key with
  | none =>
    have hkey : groupChain? key = none := by
      rw [groupChain?_eq_map, hoperator]; rfl
    have halone : conditions [(key, value)] = [(key, value)] := by
      simp [conditions, hoperator]
    rw [halone]
    exact ⟨_, adds_condition hb hkey h .and⟩
  | some operator =>
    have hkey : groupChain? key = some operator.keyword := by
      rw [groupChain?_eq_map, hoperator]
      rfl
    have hgroups : conditions [(key, value)] = conditionsOfGroups value := by
      simp [conditions, hoperator]
    rw [whereEntry, hkey] at h
    rw [hgroups]
    exact ⟨_, Adds.group hb (fun hinner hrun =>
      adds_whereGroups value hinner (ofSpelling_keyword operator) hrun)
        h .and⟩

/-- **Which operator joins the filters of a mapping.**  On a builder whose
stack is there, as `Workspace.Grounded.stack_lt` says it is in every script,
an accepted mapping appends filters, unless no entry of it holds a
condition.  All of them but the first stand behind AND.  The first stands
behind the operator given if the first entry of the mapping holds a
condition, and behind AND otherwise.  The operator given reaches the first
entry only, as the others are added behind AND. -/
theorem whereFilters_joins {found : Builder} {chain : String}
    {entries : List (String × Value)} (hb : w.builders[b]? = some found)
    (hstack : found.stack < w.parameterStacks.size)
    (haccepted : exec (whereFilters b chain entries) w = (.ok (), w')) :
    ∃ added, w'.builders[b]? = some (found.filtered added) ∧
      (added = [] ↔ conditions entries = []) ∧
      (∀ later ∈ added.tail, later.chain = .and) ∧
      ∀ first ∈ added.head?,
        (conditions (entries.take 1) ≠ [] →
          Chain.ofSpelling chain = .ok first.chain) ∧
        (conditions (entries.take 1) = [] → first.chain = .and) := by
  have hplaced : Placed w b found.stack found.body.entry :=
    ⟨hstack, found, hb, rfl, rfl⟩
  have hand : Chain.ofSpelling "AND" = .ok .and := ofSpelling_keyword .and
  cases entries with
  | nil =>
    rw [whereFilters] at haccepted
    obtain rfl : w = w' := congrArg Prod.snd haccepted
    refine ⟨[], ?_, iff_of_true rfl rfl, List.forall_mem_nil _, ?_⟩
    · rw [hb, Builder.filtered_nil]
    · rintro first ⟨⟩
  | cons condition rest =>
    obtain ⟨key, value⟩ := condition
    rw [whereFilters_cons] at haccepted
    obtain ⟨_, w₁, hentry, hrest⟩ := exec_bind_eq_ok.mp haccepted
    obtain ⟨meant, hadds⟩ := adds_whereEntry hplaced hentry
    have hplaced₁ := hadds.placed hplaced
    obtain ⟨filters, written, happends, hmeaning, hone⟩ := hadds
    obtain ⟨more, written', happends', hmeaning', hmore⟩ :=
      adds_whereFilters rest hplaced₁ hrest
    have hfirst := hmeaning.eq_nil_iff
    refine ⟨filters ++ more, (happends.trans happends').builder found hb, ?_,
      (AllBehind.of_one hand hone hmore).1, fun first hmem => ?_⟩
    · rw [conditions_cons, List.append_eq_nil_iff, List.append_eq_nil_iff,
        hfirst,
        hmeaning'.eq_nil_iff]
    · rw [List.take_succ_cons, List.take_zero, Ne, ← hfirst]
      exact hone.first (hmore.chain_eq hand) hmem

/-- An empty disjunction and a comparison. -/
def skipping : List (String × Value) := [("$or", .list []), ("a", .int 1)]

/-- The comparison stands behind AND, not behind the operator given. -/
theorem whereFilters_joins_of_skipping :
    ∃ w' first rest,
      exec (whereFilters 0 "OR" skipping) ofNode = (.ok (), w') ∧
      (w'.body 0).wheres = first :: rest ∧ first.chain = .and := by
  have hok : (exec (whereFilters 0 "OR" skipping) ofNode).1.toBool =
      true := by decide +kernel
  rcases hexec : exec (whereFilters 0 "OR" skipping) ofNode with ⟨_ | _, w'⟩
  · rw [hexec] at hok
    cases hok
  · have hb : ofNode.builders[0]? =
        some (ofNode.builders[0]?.getD default) := by rfl
    have hnone : (ofNode.builders[0]?.getD default).body.wheres = [] := by rfl
    obtain ⟨added, hadded, hempty, -, hfirst⟩ :=
      whereFilters_joins hb (by decide +kernel) hexec
    have hwheres : (w'.body 0).wheres = added := by
      rw [body_eq hadded, Builder.filtered, hnone, List.nil_append]
    have hsome : conditions skipping ≠ [] := List.cons_ne_nil _ _
    obtain ⟨first, rest, rfl⟩ :=
      List.exists_cons_of_ne_nil (mt hempty.mp hsome)
    exact ⟨w', first, rest, rfl, hwheres, (hfirst first rfl).2 rfl⟩

end Building

end GraphQuery
