import GraphQuery.Proofs.Patterns.Calls
import GraphQuery.Proofs.Patterns.History

/-!
# A store is an ordered map

Whatever is done to a shelf, every store on it has one entry for a name, and
what has become the name of a node or of a relationship stays that.  A store
whose calls all succeed holds what its history of declarations leaves
behind.
-/

namespace GraphQuery.Pattern.Shelf

open GraphQuery.Computation

/-- The calls of a store that a run makes, each with the shelf it is made
on.  As long as a store is not there it has none. -/
def calls (i : Nat) (s : Shelf) :
    List Step → List (Shelf × StoreCall Assignment)
  | [] => []
  | .fork :: later => calls i (s.step .fork) later
  | .call j made :: later =>
    if j = i ∧ i < s.stores.size then (s, made) ::
        calls i (s.step (.call j made)) later
    else calls i (s.step (.call j made)) later

/-- What the calls of a store declare along a run. -/
def history (i : Nat) (s : Shelf) (steps : List Step) : List Declaration :=
  (s.calls i steps).flatMap fun made => made.2.declarations made.1.names

variable {s : Shelf} {i j : Nat} {made : StoreCall Assignment}

/-- What a call of a store starts from. -/
def registry (s : Shelf) (i : Nat) :
    Registry := { store := s.store i, names := s.names }

/-- A call on a shelf is answered as by its store. -/
theorem outcome_perform (s : Shelf) (i : Nat) (made : StoreCall Assignment) :
    (s.perform i made).1 = (exec made.perform (s.registry i)).1 := rfl

/-- It changes its own store only. -/
theorem stores_perform (s : Shelf) (i : Nat) (made : StoreCall Assignment) :
    (s.perform i made).2.stores =
      s.stores.setIfInBounds i (exec made.perform (s.registry i)).2.store :=
  rfl

/-- A store that is not there is empty. -/
theorem store_of_size_le (hi : s.stores.size ≤ i) : s.store i = {} := by
  unfold store
  rw [Array.getElem?_eq_none hi]
  rfl

/-- All stores of a new shelf are empty. -/
theorem store_new (names : NameSequence) (i : Nat) :
    ({ names } : Shelf).store i = {} := by
  cases i with
  | zero => rfl
  | succ i => exact store_of_size_le (Nat.succ_le_succ (Nat.zero_le i))

/-- Forking leaves all stores as they are. -/
theorem store_fork (s : Shelf) (i : Nat) :
    (s.step .fork).store i = s.store i := by
  by_cases hi : i = s.stores.size
  · have hbefore : s.store i = {} := store_of_size_le hi.ge
    unfold step fork store at *
    rw [hbefore, Array.getElem?_push, if_pos hi]
    rfl
  · unfold step fork store
    rw [Array.getElem?_push, if_neg hi]

/-- A call changes no other store. -/
theorem store_call_of_ne (hij : ¬(j = i ∧ i < s.stores.size)) :
    (s.step (.call j made)).store i = s.store i := by
  unfold step store
  rw [stores_perform, Array.getElem?_setIfInBounds]
  by_cases hsame : j = i
  · have hi : ¬i < s.stores.size := fun hi => hij ⟨hsame, hi⟩
    rw [if_pos hsame, hsame, if_neg hi,
      Array.getElem?_eq_none (Nat.le_of_not_lt hi)]
  · rw [if_neg hsame]

/-- The store of a call is as the call leaves it. -/
theorem store_call_self (hi : i < s.stores.size) :
    (s.step (.call i made)).store i =
      (exec made.perform (s.registry i)).2.store := by
  unfold step store
  rw [stores_perform, Array.getElem?_setIfInBounds_self_of_lt hi]
  rfl

/-- Steps can be taken in two goes. -/
theorem after_append (s : Shelf) (steps more : List Step) :
    s.after (steps ++ more) = (s.after steps).after more := List.foldl_append

/-- A step keeps the index of every store right. -/
theorem indexed_step (step : Step) (h : (s.store i).Indexed) :
    ((s.step step).store i).Indexed ∧
    (s.store i).Grows ((s.step step).store i) := by
  cases step with
  | fork =>
    rw [store_fork]
    exact ⟨h, Store.Grows.refl _⟩
  | call j made =>
    by_cases hij : j = i ∧ i < s.stores.size
    · obtain ⟨rfl, hi⟩ := hij
      obtain ⟨hindexed, hgrows, -⟩ :=
        Store.keeps_indexing.perform made trivial (s.registry j) h
      rw [store_call_self hi]
      exact ⟨hindexed, hgrows⟩
    · rw [store_call_of_ne hij]
      exact ⟨h, Store.Grows.refl _⟩

/-- Any calls keep the index, and what is known stays so. -/
theorem indexed_after (steps : List Step) (h : (s.store i).Indexed) :
    ((s.after steps).store i).Indexed ∧
    (s.store i).Grows ((s.after steps).store i) := by
  induction steps generalizing s with
  | nil => exact ⟨h, Store.Grows.refl _⟩
  | cons step later ih =>
    obtain ⟨hindexed, hgrows⟩ := indexed_step step h
    obtain ⟨hlater, hmore⟩ := ih hindexed
    exact ⟨hlater, hgrows.trans hmore⟩

/-- The index of every store is right, whatever was done to the shelf. -/
theorem indexed_of_new (names : NameSequence) (steps : List Step) (i : Nat) :
    ((({ names } : Shelf).after steps).store i).Indexed := by
  refine (indexed_after steps ?_).1
  rw [store_new]
  exact Store.indexed_empty

/-- A call that succeeds adds its declarations to the history of its store. -/
theorem reflects_call {ds : List Declaration} (h : Reflects (s.store i) ds)
    (hi : i < s.stores.size) (hok : (s.perform i made).1.isOk = true) :
    Reflects ((s.step (.call i made)).store i)
    (ds ++ made.declarations s.names) := by
  rw [store_call_self hi]
  rw [outcome_perform] at hok
  rcases hexec : exec made.perform (s.registry i) with ⟨fault | answer, r⟩
  · rw [hexec] at hok
    cases hok
  · exact h.applyAll (StoreCall.applyAll_of_perform hexec)

/-- **A run whose calls of a store all succeed** leaves their declarations
behind. -/
theorem reflects_after {ds : List Declaration} (steps : List Step)
    (h : Reflects (s.store i) ds)
    (hok : ∀ made ∈ s.calls i steps,
      (made.1.perform i made.2).1.isOk = true) :
    Reflects ((s.after steps).store i) (ds ++ s.history i steps) := by
  induction steps generalizing s ds with
  | nil =>
    have hnone : s.history i [] = [] := rfl
    rw [hnone, List.append_nil]
    exact h
  | cons step later ih =>
    unfold history
    cases step with
    | fork =>
      rw [calls] at hok ⊢
      rw [← store_fork] at h
      exact ih h hok
    | call j made =>
      rw [calls] at hok ⊢
      by_cases hij : j = i ∧ i < s.stores.size
      · rw [if_pos hij] at hok ⊢
        obtain ⟨rfl, hi⟩ := hij
        have hstep := reflects_call h hi (hok _ List.mem_cons_self)
        have hlater := ih hstep fun made hmade =>
          hok made (List.mem_cons_of_mem _ hmade)
        rw [List.flatMap_cons, ← List.append_assoc]
        exact hlater
      · rw [if_neg hij] at hok ⊢
        rw [← store_call_of_ne hij] at h
        exact ih h hok

/-- **A store is an ordered map that merges by name.**  Whatever was done to
a shelf, also by calls that failed, no two entries of a store have one name,
a name stands for the element of the entry that has it, and it goes on to
stand for a node, or for a relationship.  If no call of the store failed,
its entries are those its history of declarations leaves behind. -/
theorem store_merges_by_name (names : NameSequence) (steps : List Step)
    (i : Nat) :
    let start : Shelf := { names }
    let s := (start.after steps).store i
    (s.entries.filterMap fun entry => entry.element.name?).Nodup ∧
      (∀ name e, s.get? name = some e ↔
        e.name? = some name ∧ ∃ intent, ⟨e, intent⟩ ∈ s.entries) ∧
      (∀ name e more, s.get? name = some e →
        ∃ later, ((start.after (steps ++ more)).store i).get? name =
          some later ∧
          later.rank = e.rank) ∧
      ((∀ made ∈ start.calls i steps,
        (made.1.perform i made.2).1.isOk = true) →
        s.entries = expected (start.history i steps)) := by
  intro start s
  have hempty : Reflects (start.store i) [] := by
    rw [store_new]
    exact reflects_empty
  obtain ⟨hindexed, -⟩ := indexed_after steps hempty.indexed
  refine ⟨hindexed.nodup_names, fun name e => hindexed.get?_eq_some_iff, ?_,
    ?_⟩
  · intro name e more hget
    obtain ⟨hlater, hgrows⟩ := indexed_after more hindexed
    rw [after_append]
    exact hgrows.get? hindexed hlater hget
  · intro hok
    exact (reflects_after steps hempty hok).entries

/-- A node that is matched, extended as the end of a relationship and
created at last. -/
def extending : List Step :=
  [.call 0 (.matchNode (.one "A") (some "a") false),
    .call 0 (.writeRelationship .merging (some "a:Extra") none (.one "R")
      (some "r") [] none), .fork,
    .call 0 (.assign "a" [{ owner := "a", key := "x", value := .raw "1" }]
      .toCreate)]

/-- A node and a relationship are declared and extended by calls that all
succeed. -/
theorem store_merges_by_name_extending :
    let start : Shelf := { names := {} }
    (∀ made ∈ start.calls 0 extending,
      (made.1.perform 0 made.2).1.isOk = true) ∧
      ((start.after extending).store 0).entries =
        expected (start.history 0 extending) := by
  intro start
  have hok : ∀ made ∈ start.calls 0 extending,
      (made.1.perform 0 made.2).1.isOk = true := by
    decide +kernel
  obtain ⟨-, -, -, hentries⟩ := store_merges_by_name {} extending 0
  exact ⟨hok, hentries hok⟩

end GraphQuery.Pattern.Shelf
