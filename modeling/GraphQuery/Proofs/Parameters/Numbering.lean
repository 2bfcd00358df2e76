import GraphQuery.Proofs.Parameters.Fresh
import Mathlib.Data.List.Induction
import Mathlib.Order.Bounds.Basic

/-!
# Numbering of bound values

Values are bound one after the other, some under names they are given, which
may look like made ones.  Whatever was bound before, the search for a new
number ends at the least one that is free, and not far off; and binding a
value leaves all that was bound where it was, but for what stood under the
name given with it (`bindings_stay`).  Without given names the values are
numbered in the order they are bound in.
-/

namespace GraphQuery

/-- Whether a value is bound when it is added to a stack: a fragment of
query text is not. -/
def Value.isBound : Value → Bool
  | raw _ => false
  | _ => true

namespace ParameterStack

/-! ## The search for a number -/

/-- The search for a number that is not taken: it counts up one by one, for
as long as it takes. -/
inductive Search (isTaken : Nat → Prop) : Nat → Nat → Prop
  | found {i : Nat} (free : ¬isTaken i) : Search isTaken i i
  | next {i n : Nat} (taken : isTaken i) (rest : Search isTaken (i + 1) n) :
      Search isTaken i n

/-- A search ends at the least number that is not taken. -/
theorem Search.isLeast {isTaken : Nat → Prop} {i n : Nat}
    (h : Search isTaken i n) :
    IsLeast {j | i ≤ j ∧ ¬isTaken j} n := by
  induction h with
  | found free => exact ⟨⟨Nat.le_refl _, free⟩, fun j hj => hj.1⟩
  | @next i n taken rest ih =>
    obtain ⟨⟨hle, hfree⟩, hleast⟩ := ih
    refine ⟨⟨by omega, hfree⟩, ?_⟩
    intro j hj
    obtain ⟨hij, hj⟩ := hj
    by_cases hsame : j = i
    · exact absurd (hsame ▸ taken) hj
    · exact hleast ⟨by omega, hj⟩

/-- A search that meets taken numbers only until it is at a free one. -/
theorem search_add {isTaken : Nat → Prop} (d : Nat) {i : Nat}
    (htaken : ∀ j, i ≤ j → j < i + d → isTaken j) (hfree : ¬isTaken (i + d)) :
    Search isTaken i (i + d) := by
  induction d generalizing i with
  | zero => exact .found hfree
  | succ d ih =>
    have hnext : i + (d + 1) = i + 1 + d := by omega
    rw [hnext] at htaken hfree ⊢
    refine .next (htaken i (by omega) (by omega)) (ih ?_ hfree)
    intro j hj hlt
    exact htaken j (by omega) hlt

/-- **The search for a new name ends**, and the number tried out for a
limited time is where it ends. -/
theorem search_freshNumber (s : ParameterStack) :
    Search (fun i => s.numbered i ∈ s.names) s.size s.freshNumber := by
  obtain ⟨hlow, -, hfree, hbefore⟩ := s.freshNumber_spec
  obtain ⟨d, hd⟩ : ∃ d, s.freshNumber = s.size + d :=
    ⟨s.freshNumber - s.size, by omega⟩
  rw [freshName, hd] at hfree
  rw [hd] at hbefore ⊢
  exact search_add d hbefore hfree

/-! ## One value -/

variable {s : ParameterStack} {value : Value}

/-- What is answered and bound for any value but a fragment. -/
theorem add_of_isBound (h : value.isBound = true) (s : ParameterStack)
    (name : Option String) :
    s.add value name = (.parameter ⟨name.getD s.freshName, value⟩,
      { s with parameters := bind ⟨name.getD s.freshName, value⟩ s.parameters
        }) := by
  cases value with
  | raw fragment => cases h
  | _ => rfl

/-- Under a name that is bound a parameter takes the place of the one
before. -/
theorem bind_of_mem {before later : List Parameter} {old p : Parameter}
    (hold : old.name = p.name)
    (hbefore : p.name ∉ before.map Parameter.name) :
    bind p (before ++ old :: later) = before ++ p :: later := by
  induction before with
  | nil => rw [List.nil_append, List.nil_append, bind, if_pos hold]
  | cons q rest ih =>
    rw [List.map_cons, List.mem_cons, not_or] at hbefore
    obtain ⟨hne, hrest⟩ := hbefore
    rw [List.cons_append, bind, if_neg (Ne.symm hne), ih hrest,
      List.cons_append]

/-- Binding a parameter keeps the names where they are; a new one comes
last. -/
theorem names_bind (p : Parameter) (parameters : List Parameter) :
    (bind p parameters).map Parameter.name =
      if p.name ∈ parameters.map Parameter.name then parameters.map
          Parameter.name
      else parameters.map Parameter.name ++ [p.name] := by
  by_cases hmem : p.name ∈ parameters.map Parameter.name
  · rw [if_pos hmem]
    induction parameters with
    | nil => cases hmem
    | cons q rest ih =>
      by_cases hq : q.name = p.name
      · rw [bind, if_pos hq, List.map_cons, List.map_cons, hq]
      · have hrest : p.name ∈ rest.map Parameter.name :=
          (List.mem_cons.mp hmem).resolve_left (Ne.symm hq)
        rw [bind, if_neg hq, List.map_cons, List.map_cons, ih hrest]
  · rw [if_neg hmem, bind_of_notMem hmem, List.map_append, List.map_singleton]

/-- No name is bound twice. -/
theorem nodup_names_add (h : s.names.Nodup) (value : Value)
    (name : Option String) :
    (s.add value name).2.names.Nodup := by
  by_cases hbound : value.isBound = true
  · rw [add_of_isBound hbound, names, names_bind]
    by_cases hmem : name.getD s.freshName ∈ s.parameters.map Parameter.name
    · rw [if_pos hmem]
      exact h
    · rw [if_neg hmem]
      exact List.nodup_middle.mpr (List.nodup_cons.mpr
        ⟨by rwa [List.append_nil], by rwa [List.append_nil]⟩)
  · cases value with
    | raw fragment => exact h
    | _ => exact absurd rfl hbound

/-! ## Many values -/

/-- Bind values one after the other, each under the name given with it or
under a new one. -/
def addAll (s : ParameterStack) (given : List (Value × Option String)) :
    ParameterStack :=
  given.foldl (fun s one => (s.add one.1 one.2).2) s

/-- The last value is bound behind the others. -/
theorem addAll_snoc (s : ParameterStack)
    (given : List (Value × Option String)) (one : Value × Option String) :
    s.addAll (given ++ [one]) = ((s.addAll given).add one.1 one.2).2 := by
  rw [addAll, List.foldl_append]
  rfl

/-- Names stay different, whatever is bound. -/
theorem nodup_names_addAll (h : s.names.Nodup)
    (given : List (Value × Option String)) :
    (s.addAll given).names.Nodup := by
  induction given using List.reverseRecOn with
  | nil => exact h
  | append_singleton given one ih =>
    rw [addAll_snoc]
    exact nodup_names_add ih one.1 one.2

/-- The values numbered in order. -/
def numberedAll (s : ParameterStack) (values : List Value) : ParameterStack :=
  { s with parameters := values.zipIdx.map fun one =>
    ⟨s.numbered one.2, one.1⟩ }

/-- There is a number for every value. -/
theorem size_numberedAll (s : ParameterStack) (values : List Value) :
    (s.numberedAll values).size = values.length := by
  rw [size, numberedAll, List.length_map, List.length_zipIdx]

/-- Behind values numbered in order the next number is free. -/
theorem freshName_numberedAll (s : ParameterStack) (values : List Value) :
    (s.numberedAll values).freshName = s.numbered values.length := by
  have hfree : (s.numberedAll values).numbered values.length ∉
      (s.numberedAll values).names := by
    intro hmem
    obtain ⟨p, hp, hname⟩ := List.mem_map.mp hmem
    obtain ⟨one, hone, rfl⟩ := List.mem_map.mp hp
    have hsame : one.2 = values.length := s.numbered_injective hname
    have hlt : one.2 < values.length := List.snd_lt_of_mem_zipIdx hone
    omega
  have hstop : Search (fun i => (s.numberedAll values).numbered i ∈
      (s.numberedAll values).names)
      (s.numberedAll values).size values.length := by
    rw [size_numberedAll]
    exact .found hfree
  rw [freshName, (search_freshNumber _).isLeast.unique hstop.isLeast]
  rfl

/-- **Values bound without names are numbered in the order they are bound
in.**  The induction is from the end of the values, since the number of the
last one is how many were bound before it. -/
theorem addAll_of_unnamed (hs : s.parameters = [])
    {given : List (Value × Option String)}
    (hgiven : ∀ one ∈ given, one.2 = none) :
    s.addAll given =
      s.numberedAll ((given.map Prod.fst).filter Value.isBound) := by
  induction given using List.reverseRecOn with
  | nil =>
    obtain ⟨stem, parameters⟩ := s
    cases hs
    rfl
  | append_singleton given one ih =>
    obtain ⟨value, name⟩ := one
    have hbefore := ih fun other hother =>
      hgiven other (List.mem_append_left _ hother)
    obtain rfl : name = none :=
      hgiven (value, name) (List.mem_append_right _ List.mem_cons_self)
    rw [addAll_snoc, hbefore, List.map_append, List.filter_append,
      List.map_singleton]
    by_cases hbound : value.isBound = true
    · have hnew := freshName_notMem
        (s.numberedAll ((given.map Prod.fst).filter Value.isBound))
      rw [add_of_isBound hbound, Option.getD_none, bind_of_notMem hnew,
        freshName_numberedAll,
        List.filter_cons_of_pos hbound, List.filter_nil]
      simp only [numberedAll, List.zipIdx_append, List.map_append,
        List.zipIdx_singleton,
        List.map_singleton, Nat.zero_add]
    · rw [List.filter_cons_of_neg hbound, List.filter_nil, List.append_nil]
      cases value with
      | raw fragment => rfl
      | _ => exact absurd rfl hbound

/-- **Bindings stay as they are.**  Whatever was bound before, under
whatever names:
* for a value without a name the search ends, at the least number from the
  size of the stack on whose name is not bound, and at twice the size at the
  latest; the value is bound under it at the end, and nothing else changes;
* a value with a name is bound at the end if the name is new, and else in
  the place of the value the name had, and nothing else changes;
* a fragment is answered as it is, and nothing changes.

So if no names were given the values that were bound have the numbers they
were bound in. -/
theorem bindings_stay (settings : Settings) (stem : Option String)
    (given : List (Value × Option String)) :
    let s := (empty settings stem).addAll given
    (∀ value, value.isBound = true → ∃ i,
      Search (fun j => s.numbered j ∈ s.names) s.size i ∧
        IsLeast {j | s.size ≤ j ∧ s.numbered j ∉ s.names} i ∧ i ≤ 2 * s.size ∧
        s.add value = (.parameter ⟨s.numbered i, value⟩,
          { s with parameters := s.parameters ++ [⟨s.numbered i, value⟩] })) ∧
      (∀ value name, value.isBound = true →
        (name ∉ s.names → s.add value (some name) = (.parameter ⟨name, value⟩,
          { s with parameters := s.parameters ++ [⟨name, value⟩] })) ∧
        ∀ before old later, s.parameters = before ++ old :: later →
        old.name = name →
          s.add value (some name) = (.parameter ⟨name, value⟩,
            { s with parameters := before ++ ⟨name, value⟩ :: later })) ∧
      (∀ fragment name, s.add (.raw fragment) name = (.raw fragment, s)) ∧
      ((∀ one ∈ given, one.2 = none) →
        s.entries = ((given.map Prod.fst).filter Value.isBound).zipIdx.map
          fun one =>
          ((empty settings stem).numbered one.2, one.1)) := by
  intro s
  have hempty : (empty settings stem).parameters = [] := by cases stem <;> rfl
  refine ⟨fun value hvalue => ?unnamed, fun value name hvalue =>
    ⟨?fresh, ?taken⟩,
    fun fragment name => rfl, fun hnone => ?numbered⟩
  case unnamed =>
    have hsearch := s.search_freshNumber
    refine ⟨s.freshNumber, hsearch, hsearch.isLeast, s.freshNumber_spec.2.1,
      ?_⟩
    rw [add_of_isBound hvalue, Option.getD_none,
      bind_of_notMem s.freshName_notMem]
    rfl
  case fresh =>
    intro hname
    rw [add_of_isBound hvalue, Option.getD_some, bind_of_notMem hname]
  case taken =>
    intro before old later hparameters hold
    have hnodup : s.names.Nodup :=
      nodup_names_addAll (by rw [names, hempty]; exact List.nodup_nil) given
    rw [names, hparameters, List.map_append, List.map_cons, hold] at hnodup
    have hbefore : name ∉ before.map Parameter.name := by
      intro hmem
      exact (List.nodup_append.mp hnodup).2.2 name hmem name
        List.mem_cons_self rfl
    rw [add_of_isBound hvalue, Option.getD_some, hparameters,
      bind_of_mem hold hbefore]
  case numbered =>
    have hall : s = (empty settings stem).numberedAll
        ((given.map Prod.fst).filter Value.isBound) :=
      addAll_of_unnamed hempty hnone
    rw [hall, entries, numberedAll, List.map_map]
    rfl

/-- A value was bound under a name that looks like a made one; the search
skips its number. -/
theorem bindings_stay_of_imitated :
    let s := (empty {}).addAll [(.text "Ada", some "param1"),
      (.raw "now()", none)]
    s.names = ["param1"] ∧ Value.isBound (.int 36) = true ∧
      s.add (.int 36) = (.parameter ⟨"param2", .int 36⟩,
        { s with parameters := s.parameters ++ [⟨"param2", .int 36⟩] }) := by
  intro s
  have hnames : s.names = ["param1"] := by decide +kernel
  have hbound : Value.isBound (.int 36) = true := rfl
  obtain ⟨hunnamed, -⟩ :=
    bindings_stay {} none [(.text "Ada", some "param1"), (.raw "now()", none)]
  obtain ⟨i, -, hleast, hlast, hadd⟩ := hunnamed (.int 36) hbound
  obtain ⟨⟨hfirst, hfree⟩, -⟩ := hleast
  have hsize : s.size = 1 := rfl
  have hskipped : i ≠ 1 := by
    intro hi
    rw [hi] at hfree
    exact hfree (by decide +kernel)
  obtain rfl : i = 2 := by
    change s.size ≤ i at hfirst
    change i ≤ 2 * s.size at hlast
    omega
  exact ⟨hnames, hbound, hadd⟩

end ParameterStack

end GraphQuery
