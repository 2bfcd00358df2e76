/-!
# Ordered mappings

A mapping whose order matters is a list of entries with different keys.
Writing a key that is there replaces its value in place, writing a new key
appends it.  `lookup_putEntry_self` and `lookup_putEntry_of_ne` say what is
read back, `keys_putEntry` which keys there are and in what order, and
`lookup_dropEntry_of_ne` and `dropEntry_of_lookup` what is left without the
entry of a key.  What was written once can be written again without a change
(`putEntries_again`).
-/

namespace GraphQuery

/-- Give `key` the value `value`: in its place if it has one, else at the
end. -/
def putEntry {α : Type} (key : String) (value : α) : List (String × α) →
    List (String × α)
  | [] => [(key, value)]
  | entry :: rest =>
    if entry.1 = key then (key, value) :: rest else entry ::
        putEntry key value rest

section

variable {α : Type} (key : String) (value : α) (entries : List (String × α))

/-- What has been put is found. -/
@[simp]
theorem lookup_putEntry_self :
    (putEntry key value entries).lookup key = some value := by
  induction entries with
  | nil => simp [putEntry]
  | cons entry rest ih =>
    obtain ⟨k, v⟩ := entry
    by_cases h : k = key
    · simp [putEntry, h]
    · have hkey : (key == k) = false := by simpa using Ne.symm h
      simp [putEntry, h, List.lookup_cons, hkey, ih]

/-- Writing a key leaves the values of all others as they are. -/
theorem lookup_putEntry_of_ne {other : String} (hne : other ≠ key) :
    (putEntry key value entries).lookup other = entries.lookup other := by
  have hother : (other == key) = false := by simpa using hne
  induction entries with
  | nil => simp [putEntry, List.lookup_cons, hother]
  | cons entry rest ih =>
    obtain ⟨k, v⟩ := entry
    by_cases h : k = key
    · simp [putEntry, h, List.lookup_cons, hother]
    · simp [putEntry, h, List.lookup_cons, ih]

/-- Writing a key keeps the order of the keys; a new one comes last. -/
theorem keys_putEntry :
    (putEntry key value entries).map Prod.fst =
      if key ∈ entries.map Prod.fst then entries.map Prod.fst
      else entries.map Prod.fst ++ [key] := by
  induction entries with
  | nil => simp [putEntry]
  | cons entry rest ih =>
    by_cases h : entry.1 = key
    · simp [putEntry, h]
    · have hkey : key ≠ entry.1 := Ne.symm h
      by_cases hmem : key ∈ rest.map Prod.fst
      · simp only [putEntry, h, if_false, List.map_cons, ih, hmem, if_true,
          List.mem_cons, or_true]
      · simp only [putEntry, h, if_false, List.map_cons, ih, hmem, hkey,
          List.mem_cons, or_self, List.cons_append]

end

/-- An entry of a mapping that has been written to was written, or was there
before. -/
theorem mem_putEntry {α : Type} {key : String} {value : α}
    {entries : List (String × α)} {entry : String × α}
    (h : entry ∈ putEntry key value entries) :
    entry = (key, value) ∨ entry ∈ entries := by
  induction entries with
  | nil => exact .inl (List.mem_singleton.mp h)
  | cons first rest ih =>
    rw [putEntry] at h
    split at h
    · exact (List.mem_cons.mp h).imp_right (List.mem_cons_of_mem first)
    · rcases List.mem_cons.mp h with rfl | hmem
      · exact .inr List.mem_cons_self
      · exact (ih hmem).imp_right (List.mem_cons_of_mem first)

/-- Write entries one after the other. -/
def putEntries {α : Type} (entries : List (String × α))
    (onto : List (String × α)) :
    List (String × α) :=
  entries.foldl (fun m entry => putEntry entry.1 entry.2 m) onto

/-- An entry that is there afterwards was put or was there before. -/
theorem mem_putEntries {α : Type} {entries onto : List (String × α)}
    {entry : String × α} (h : entry ∈ putEntries entries onto) :
    entry ∈ entries ∨ entry ∈ onto := by
  induction entries generalizing onto with
  | nil => exact .inr h
  | cons first rest ih =>
    rcases ih h with hmem | hmem
    · exact .inl (List.mem_cons_of_mem first hmem)
    · rcases mem_putEntry hmem with rfl | hmem
      · exact .inl List.mem_cons_self
      · exact .inr hmem

section

variable {α : Type} {entries onto left right : List (String × α)}
    {key : String}

/-- What is read back is what was written last, or what was there. -/
theorem lookup_putEntries (entries onto : List (String × α)) (key : String) :
    (putEntries entries onto).lookup key = (entries.reverse.lookup key).or
      (onto.lookup key) := by
  induction entries generalizing onto with
  | nil => rfl
  | cons first rest ih =>
    have hrest : putEntries (first :: rest) onto =
        putEntries rest (putEntry first.1 first.2 onto) := rfl
    rw [hrest, ih, List.reverse_cons, List.lookup_append, Option.or_assoc]
    congr 1
    by_cases hkey : key = first.1
    · rw [hkey, lookup_putEntry_self, List.lookup_cons_self, Option.some_or]
    · rw [lookup_putEntry_of_ne _ _ _ hkey, List.lookup_cons,
        beq_eq_false_iff_ne.mpr hkey]
      rfl

/-- Putting an entry adds its key and keeps all others. -/
theorem mem_keys_putEntry {first : String × α} :
    key ∈ (putEntry first.1 first.2 onto).map Prod.fst ↔ key = first.1 ∨
    key ∈ onto.map Prod.fst := by
  rw [keys_putEntry]
  split
  · next hmem =>
    refine ⟨.inr, ?_⟩
    rintro (rfl | hkey)
    · exact hmem
    · exact hkey
  · rw [List.mem_append, List.mem_singleton, or_comm]

/-- Putting entries adds their keys and keeps all others. -/
theorem mem_keys_putEntries :
    key ∈ (putEntries entries onto).map Prod.fst ↔
      key ∈ entries.map Prod.fst ∨ key ∈ onto.map Prod.fst := by
  induction entries generalizing onto with
  | nil => simp [putEntries]
  | cons first rest ih =>
    have hrest : putEntries (first :: rest) onto =
        putEntries rest (putEntry first.1 first.2 onto) := rfl
    rw [hrest, ih, mem_keys_putEntry, List.map_cons, List.mem_cons,
      or_left_comm, or_assoc]

/-- Writing keys that are there keeps the keys. -/
theorem keys_putEntries_of_mem
    (h : ∀ entry ∈ entries, entry.1 ∈ onto.map Prod.fst) :
    (putEntries entries onto).map Prod.fst = onto.map Prod.fst := by
  induction entries generalizing onto with
  | nil => rfl
  | cons first rest ih =>
    have hkeys : (putEntry first.1 first.2 onto).map Prod.fst =
        onto.map Prod.fst := by
      rw [keys_putEntry, if_pos (h first List.mem_cons_self)]
    refine (ih fun entry hentry => ?_).trans hkeys
    rw [hkeys]
    exact h entry (List.mem_cons_of_mem first hentry)

/-- Keys that are different stay so, whatever is put. -/
theorem nodup_keys_putEntries (h : (onto.map Prod.fst).Nodup) :
    ((putEntries entries onto).map Prod.fst).Nodup := by
  induction entries generalizing onto with
  | nil => exact h
  | cons first rest ih =>
    apply ih
    rw [keys_putEntry]
    split
    · exact h
    · next hnew =>
      exact List.nodup_append.mpr ⟨h, List.pairwise_singleton _ _,
        fun key hkey other hother heq =>
        hnew (List.mem_singleton.mp hother ▸ heq ▸ hkey)⟩

/-- A key that is not there has no value. -/
theorem lookup_eq_none_of_not_mem (h : key ∉ left.map Prod.fst) :
    left.lookup key = none := by
  rw [List.lookup_eq_none_iff]
  intro entry hentry
  exact bne_iff_ne.mpr fun heq =>
    h (List.mem_map.mpr ⟨entry, hentry, heq.symm⟩)

/-- Mappings with the same keys in the same order and the same values are
the same. -/
theorem eq_of_lookup (hkeys : left.map Prod.fst = right.map Prod.fst)
    (hnodup : (left.map Prod.fst).Nodup)
    (h : ∀ key, left.lookup key = right.lookup key) :
    left = right := by
  induction left generalizing right with
  | nil => exact (List.map_eq_nil_iff.mp hkeys.symm).symm
  | cons first rest ih =>
    obtain ⟨⟨key, value⟩, others, rfl, hkey, hrest⟩ :=
      List.map_eq_cons_iff.mp hkeys.symm
    obtain ⟨hnew, hnodup⟩ := List.nodup_cons.mp hnodup
    obtain rfl : key = first.1 := hkey
    have hvalue := h first.1
    rw [List.lookup_cons_self, List.lookup_cons_self] at hvalue
    obtain rfl := Option.some.inj hvalue
    refine congrArg (List.cons first) (ih hrest.symm hnodup fun other => ?_)
    by_cases hother : other = first.1
    · have hleft : rest.lookup other = none :=
        lookup_eq_none_of_not_mem (hother ▸ hnew)
      have hright : others.lookup other = none :=
        lookup_eq_none_of_not_mem (hrest ▸ hother ▸ hnew)
      rw [hleft, hright]
    · have hboth := h other
      rwa [List.lookup_cons, List.lookup_cons,
        beq_eq_false_iff_ne.mpr hother] at hboth

/-- Writing the same entries once more changes nothing. -/
theorem putEntries_again (h : (onto.map Prod.fst).Nodup) :
    putEntries entries (putEntries entries onto) =
      putEntries entries onto := by
  have hkeys : (putEntries entries (putEntries entries onto)).map Prod.fst =
      (putEntries entries onto).map Prod.fst :=
    keys_putEntries_of_mem fun entry hentry =>
      mem_keys_putEntries.mpr (.inl (List.mem_map_of_mem hentry))
  refine eq_of_lookup hkeys (hkeys ▸ nodup_keys_putEntries h) fun key => ?_
  rw [lookup_putEntries, lookup_putEntries, ← Option.or_assoc, Option.or_self]

end

/-- Drop the entry of a key. -/
def dropEntry {α : Type} (key : String) (entries : List (String × α)) :
    List (String × α) :=
  entries.filter fun entry => entry.1 != key

/-- What has been dropped is not found. -/
theorem lookup_dropEntry_self {α : Type} (key : String)
    (entries : List (String × α)) :
    (dropEntry key entries).lookup key = none := by
  rw [List.lookup_eq_none_iff]
  intro entry hentry
  have hkept := (List.mem_filter.mp hentry).2
  exact bne_comm.trans hkept

/-- Dropping a key leaves the values of all others as they are. -/
theorem lookup_dropEntry_of_ne {α : Type} (key : String)
    (entries : List (String × α)) {other : String} (hne : other ≠ key) :
    (dropEntry key entries).lookup other = entries.lookup other := by
  induction entries with
  | nil => rfl
  | cons entry rest ih =>
    rw [dropEntry] at ih ⊢
    by_cases hkey : entry.1 = key
    · have hother : (other == entry.1) = false := by
        rw [hkey]
        exact beq_eq_false_iff_ne.mpr hne
      rw [List.filter_cons_of_neg (by simp [hkey]), ih, List.lookup_cons,
        hother]
    · rw [List.filter_cons_of_pos (by simp [hkey]), List.lookup_cons,
        List.lookup_cons, ih]

/-- What is left of a mapping without the entry of a key. -/
theorem dropEntry_of_lookup {α : Type} {key : String} {value : α}
    {entries : List (String × α)} (hkeys : (entries.map Prod.fst).Nodup)
    (h : entries.lookup key = some value) :
    ∃ before later, entries = before ++ (key, value) :: later ∧
      dropEntry key entries = before ++ later := by
  obtain ⟨before, later, rfl, hbefore⟩ := List.lookup_eq_some_iff.mp h
  refine ⟨before, later, rfl, ?_⟩
  have hleft : before.filter (fun entry => entry.1 != key) = before := by
    rw [List.filter_eq_self]
    intro entry hentry
    have hne := hbefore entry hentry
    exact bne_comm.trans hne
  have hright : later.filter (fun entry => entry.1 != key) = later := by
    rw [List.filter_eq_self]
    intro entry hentry
    rw [List.map_append, List.map_cons, List.nodup_append] at hkeys
    have hnew := (List.nodup_cons.mp hkeys.2.1).1
    refine bne_iff_ne.mpr fun hsame => hnew ?_
    exact List.mem_map.mpr ⟨entry, hentry, hsame⟩
  rw [dropEntry, List.filter_append, List.filter_cons_of_neg (by simp),
    hleft, hright]

end GraphQuery
