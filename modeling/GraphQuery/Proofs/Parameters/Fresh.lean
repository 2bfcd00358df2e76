import GraphQuery.ParameterStack
import Mathlib.Data.List.Nodup
import Mathlib.Data.List.Perm.Subperm
import Std.Data.String.ToNat

/-!
# Names for bound values

The name made for a value is new: `freshName_notMem`.  Of the numbers from
the size of the stack to twice the size there is one more than there are
bound names, and different numbers make different names.  Hence binding a
value keeps what is bound: `Binds.add`.
-/

namespace GraphQuery.ParameterStack

/-- The first free number lies in the range that is searched, all numbers
before it are taken, and it is taken itself only where the search ends.  One
number further and one try fewer, the search ends where it would have ended. -/
theorem firstFree_spec (isTaken : Nat → Bool) (i tries : Nat) :
    i ≤ firstFree isTaken i tries ∧ firstFree isTaken i tries ≤ i + tries ∧
      (∀ j, i ≤ j → j < firstFree isTaken i tries → isTaken j = true) ∧
      (isTaken (firstFree isTaken i tries) = true →
        firstFree isTaken i tries = i + tries) := by
  induction tries generalizing i with
  | zero =>
    refine ⟨Nat.le_refl i, Nat.le_refl i, fun j hij hj => ?_, fun _ => rfl⟩
    exact absurd hij (Nat.not_le_of_lt hj)
  | succ tries ih =>
    rw [firstFree]
    by_cases htaken : isTaken i = true
    · rw [if_pos htaken]
      obtain ⟨hlow, hhigh, hbefore, hend⟩ := ih (i + 1)
      refine ⟨by omega, by omega, fun j hij hj => ?_,
        fun h => by rw [hend h]; omega⟩
      rcases Nat.eq_or_lt_of_le hij with rfl | hlt
      · exact htaken
      · exact hbefore j hlt hj
    · rw [if_neg htaken]
      refine ⟨Nat.le_refl i, by omega, fun j hij hj => ?_, fun h =>
        absurd h htaken⟩
      exact absurd hij (Nat.not_le_of_lt hj)

/-- Different numbers make different names. -/
theorem numbered_injective (s : ParameterStack) {i j : Nat}
    (h : s.numbered i = s.numbered j) :
    i = j := by
  have hrepr : Nat.repr i = Nat.repr j :=
    (String.append_right_inj s.stem).mp h
  exact Nat.repr_injective hrepr

/-- Of as many names in a row as there are bound ones, and one more, one is
not bound. -/
theorem exists_numbered_notMem (s : ParameterStack) (i : Nat) :
    ∃ j, i ≤ j ∧ j ≤ i + s.size ∧ s.numbered j ∉ s.names := by
  by_contra hnone
  have hall : ∀ j, i ≤ j → j ≤ i + s.size → s.numbered j ∈ s.names := by
    intro j hij hj
    by_contra hj'
    exact hnone ⟨j, hij, hj, hj'⟩
  let row := (List.range (s.size + 1)).map fun k => s.numbered (i + k)
  have hnodup : row.Nodup := by
    refine List.Nodup.map (fun j k hjk => ?_) List.nodup_range
    exact Nat.add_left_cancel (s.numbered_injective hjk)
  have hsubset : row ⊆ s.names := by
    intro name hname
    obtain ⟨k, hk, rfl⟩ := List.mem_map.mp hname
    have hlt := List.mem_range.mp hk
    exact hall (i + k) (by omega) (by omega)
  have hle : row.length ≤ s.names.length := (hnodup.subperm hsubset).length_le
  simp only [row, names, size, List.length_map, List.length_range] at hle
  omega

/-- The number of the next value is the first one, counting from the size of
the stack, whose name is not bound. -/
theorem freshNumber_spec (s : ParameterStack) :
    s.size ≤ s.freshNumber ∧ s.freshNumber ≤ 2 * s.size ∧
    s.freshName ∉ s.names ∧
      ∀ j, s.size ≤ j → j < s.freshNumber → s.numbered j ∈ s.names := by
  have htaken : ∀ i, (Std.HashSet.ofList s.names).contains (s.numbered i) =
      s.names.contains (s.numbered i) := fun i => Std.HashSet.contains_ofList
  rw [freshName, freshNumber]
  by_cases hfirst : s.contains (s.numbered s.size) = true
  · simp only [hfirst, if_true, htaken]
    obtain ⟨hlow, hhigh, hbefore, hend⟩ :=
      firstFree_spec (fun i => s.names.contains (s.numbered i)) s.size s.size
    have hbound : ∀ j, s.size ≤ j →
        j < firstFree (fun i => s.names.contains (s.numbered i)) s.size
          s.size →
        s.numbered j ∈ s.names := fun j hij hj => by
          simpa using hbefore j hij hj
    refine ⟨hlow, by omega, fun hmem => ?_, hbound⟩
    obtain ⟨j, hij, hj, hfree⟩ := s.exists_numbered_notMem s.size
    have hlast := hend (by simpa using hmem)
    rcases Nat.eq_or_lt_of_le hj with rfl | hlt
    · exact hfree (by rwa [hlast] at hmem)
    · exact hfree (hbound j hij (by omega))
  · rw [if_neg hfirst]
    refine ⟨Nat.le_refl _, by omega, fun hmem =>
      hfirst (by simpa [contains] using hmem), ?_⟩
    intro j hij hj
    exact absurd hij (Nat.not_le_of_lt hj)

/-- **A value bound without a name gets a new name.** -/
theorem freshName_notMem (s : ParameterStack) : s.freshName ∉ s.names :=
  s.freshNumber_spec.2.2.1

/-- Whether a stack binds the name of a parameter to its value. -/
def Binds (s : ParameterStack) (p : Parameter) :
    Prop := s.entries.lookup p.name = some p.value

/-- Under a new name a parameter is bound at the end. -/
theorem bind_of_notMem {p : Parameter} {parameters : List Parameter}
    (h : p.name ∉ parameters.map Parameter.name) :
    bind p parameters = parameters ++ [p] := by
  induction parameters with
  | nil => rfl
  | cons q rest ih =>
    rw [List.map_cons, List.mem_cons, not_or] at h
    obtain ⟨hne, hrest⟩ := h
    rw [bind, if_neg (Ne.symm hne), ih hrest, List.cons_append]

/-- What binding a value does: a fragment of query text is answered as it
is, any other value is bound at the end, under a new name. -/
theorem add_cases (s : ParameterStack) (value : Value) :
    (∃ fragment, value = .raw fragment ∧ s.add value = (.raw fragment, s)) ∨
      ((∀ fragment, value ≠ .raw fragment) ∧
        s.add value = (.parameter ⟨s.freshName, value⟩,
          { s with parameters := s.parameters ++
            [⟨s.freshName, value⟩] })) := by
  have hbind : bind ⟨s.freshName, value⟩ s.parameters = s.parameters ++
      [⟨s.freshName, value⟩] :=
    bind_of_notMem s.freshName_notMem
  cases value with
  | raw fragment => exact .inl ⟨fragment, rfl, rfl⟩
  | _ =>
    refine .inr ⟨(fun _ h => nomatch h), ?_⟩
    rw [← hbind]
    rfl

/-- What is bound stays so when another parameter is. -/
theorem Binds.append {s : ParameterStack} {p : Parameter} (h : s.Binds p)
    (q : Parameter) :
    Binds { s with parameters := s.parameters ++ [q] } p := by
  have hlookup : (s.entries ++ [(q.name, q.value)]).lookup p.name =
      some p.value := by
    rw [List.lookup_append, h]
    rfl
  simpa [Binds, entries] using hlookup

/-- A parameter of a new name is bound once it is added. -/
theorem binds_append_self {s : ParameterStack} {p : Parameter}
    (h : p.name ∉ s.names) :
    Binds { s with parameters := s.parameters ++ [p] } p := by
  have hnone : s.entries.lookup p.name = none := by
    rw [List.lookup_eq_none_iff]
    rintro ⟨name, value⟩ hmem
    obtain ⟨q, hq, heq⟩ := List.mem_map.mp hmem
    have hname : q.name = name := congrArg Prod.fst heq
    have hq' : name ∈ s.names := hname ▸ List.mem_map_of_mem hq
    simpa using fun heq : p.name = name => h (heq ▸ hq')
  have hlookup : (s.entries ++ [(p.name, p.value)]).lookup p.name =
      some p.value := by
    rw [List.lookup_append, hnone]
    simp
  simpa [Binds, entries] using hlookup

/-- Binding a value keeps what is bound. -/
theorem Binds.add {s : ParameterStack} {p : Parameter} (h : s.Binds p)
    (value : Value) :
    (s.add value).2.Binds p := by
  rcases s.add_cases value with ⟨fragment, -, hadd⟩ | ⟨-, hadd⟩
  · rwa [hadd]
  · rw [hadd]
    exact h.append _

/-- A stack without bound values binds nothing. -/
theorem not_binds_of_size_eq_zero {s : ParameterStack} (h : s.size = 0)
    (p : Parameter) :
    ¬ s.Binds p := by
  have hnil : s.parameters = [] := List.length_eq_zero_iff.mp h
  simp [Binds, entries, hnil]

end GraphQuery.ParameterStack
