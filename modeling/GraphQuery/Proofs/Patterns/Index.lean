import GraphQuery.Proofs.Patterns.Declarations
import Mathlib.Data.List.Nodup

/-!
# The index of a store

A store keeps its entries in the order of their declaration and, beside
them, the position of every name.  Whatever is declared, also by calls that
fail, both tell the same: every name has its one position, and the entry
there has the name (`Store.Indexed`).  A declaration adds the entry of its
own name or extends it, and leaves all other names alone.  A name that
stands for a node never comes to stand for a relationship, or the other way
round (`Store.Grows`).
-/

namespace GraphQuery.Pattern

namespace Store

/-- The position of a name is where the one entry with that name stands. -/
structure Indexed (s : Store) : Prop where
  listed : ∀ (i : Nat) (entry : Entry) (name : String),
    s.entries[i]? = some entry →
    entry.element.name? = some name → s.positions.lookup name = some i
  found : ∀ (name : String) (i : Nat), s.positions.lookup name = some i →
    ∃ entry, s.entries[i]? = some entry ∧ entry.element.name? = some name

/-- An empty store is indexed. -/
theorem indexed_empty : Indexed {} := by
  constructor
  · intro i entry name hentry
    cases hentry
  · intro name i hposition
    cases hposition

namespace Indexed

variable {s : Store} {name : String} {entry : Entry}

/-- In an indexed store the entry of a name is the one that has it. -/
theorem find?_eq_some_iff (h : s.Indexed) :
    s.find? name = some entry ↔ entry ∈ s.entries ∧
    entry.element.name? = some name := by
  constructor
  · intro hfind
    obtain ⟨i, hposition, hentry⟩ := Option.bind_eq_some_iff.mp hfind
    obtain ⟨entry', hentry', hname⟩ := h.found name i hposition
    rw [hentry] at hentry'
    cases hentry'
    exact ⟨mem_of_find? hfind, hname⟩
  · rintro ⟨hmem, hname⟩
    obtain ⟨i, hentry⟩ := List.mem_iff_getElem?.mp hmem
    exact Option.bind_eq_some_iff.mpr ⟨i, h.listed i entry name hentry hname,
      hentry⟩

/-- A name that is not found is that of no entry. -/
theorem find?_eq_none_iff (h : s.Indexed) :
    s.find? name = none ↔ ∀ entry ∈ s.entries,
      entry.element.name? ≠ some name := by
  constructor
  · intro hfind entry hmem hname
    rw [h.find?_eq_some_iff.mpr ⟨hmem, hname⟩] at hfind
    cases hfind
  · intro hnone
    rw [Option.eq_none_iff_forall_ne_some]
    intro entry hfind
    obtain ⟨hmem, hname⟩ := h.find?_eq_some_iff.mp hfind
    exact hnone entry hmem hname

/-- What a name stands for is the element of the one entry that has the
name. -/
theorem get?_eq_some_iff (h : s.Indexed) {e : Element} :
    s.get? name = some e ↔ e.name? = some name ∧
    ∃ intent, ⟨e, intent⟩ ∈ s.entries := by
  unfold Store.get?
  constructor
  · intro hget
    split at hget
    · cases hget
    · next element intent _ hfind =>
      cases hget
      obtain ⟨hmem, hname⟩ := h.find?_eq_some_iff.mp hfind
      exact ⟨hname, intent, hmem⟩
    · cases hget
  · intro hentry
    obtain ⟨hname, intent, hmem⟩ := hentry
    rw [h.find?_eq_some_iff.mpr ⟨hmem, hname⟩]
    cases e with
    | raw | misplaced => cases hname
    | node | relationship => rfl

/-- No two entries have one name. -/
theorem nodup_names (h : s.Indexed) :
    (s.entries.filterMap fun entry => entry.element.name?).Nodup := by
  rw [List.Nodup, List.pairwise_filterMap, List.pairwise_iff_getElem]
  intro i j hi hj hij name hname name' hname' heq
  subst heq
  have hleft := h.listed i _ name (List.getElem?_eq_getElem hi) hname
  have hright := h.listed j _ name (List.getElem?_eq_getElem hj) hname'
  rw [hleft] at hright
  have hsame : i = j := Option.some.inj hright
  omega

/-- An entry without a name keeps the index. -/
theorem push (h : s.Indexed) (hname : entry.element.name? = none) :
    (s.push entry).Indexed := by
  constructor
  · intro i other name hother hname'
    rw [Store.push, List.getElem?_append] at hother
    split at hother
    · exact h.listed i other name hother hname'
    · have hmem := List.mem_of_getElem? hother
      rw [List.mem_singleton.mp hmem, hname] at hname'
      cases hname'
  · intro name i hposition
    obtain ⟨other, hother, hname'⟩ := h.found name i hposition
    refine ⟨other, ?_, hname'⟩
    rw [Store.push,
      List.getElem?_append_left (List.getElem?_eq_some_iff.mp hother).1]
    exact hother

/-- An entry of a new name keeps the index. -/
theorem pushNamed (h : s.Indexed) (hname : entry.element.name? = some name)
    (hnew : s.find? name = none) : (s.pushNamed name entry).Indexed := by
  constructor
  · intro i other name' hother hname'
    rw [Store.pushNamed] at hother ⊢
    dsimp only at hother ⊢
    rw [List.getElem?_append] at hother
    by_cases hi : i < s.entries.length
    · rw [if_pos hi] at hother
      have hne : name' ≠ name := by
        intro heq
        rw [heq] at hname'
        exact h.find?_eq_none_iff.mp hnew other (List.mem_of_getElem? hother)
          hname'
      rw [lookup_putEntry_of_ne _ _ _ hne]
      exact h.listed i other name' hother hname'
    · rw [if_neg hi] at hother
      have hlast : i = s.entries.length := by
        have hlt := (List.getElem?_eq_some_iff.mp hother).1
        rw [List.length_singleton] at hlt
        omega
      rw [List.mem_singleton.mp (List.mem_of_getElem? hother),
        hname] at hname'
      rw [← Option.some.inj hname', lookup_putEntry_self, hlast]
  · intro name' i hposition
    rw [Store.pushNamed] at hposition ⊢
    dsimp only at hposition ⊢
    by_cases hsame : name' = name
    · rw [hsame, lookup_putEntry_self] at hposition
      refine ⟨entry, ?_, hsame ▸ hname⟩
      rw [← Option.some.inj hposition, List.getElem?_concat_length]
    · rw [lookup_putEntry_of_ne _ _ _ hsame] at hposition
      obtain ⟨other, hother, hname'⟩ := h.found name' i hposition
      refine ⟨other, ?_, hname'⟩
      rw [List.getElem?_append_left (List.getElem?_eq_some_iff.mp hother).1]
      exact hother

/-- Where a name does not stand, replacing the entry of the name leaves all
as it is. -/
theorem map_getElem?_of_ne (h : s.Indexed) {j : Nat}
    (hposition : s.positions.lookup name ≠ some j) (entry : Entry) :
    (s.entries[j]?).map
      (fun old => if old.element.name? = some name then entry else old) =
      s.entries[j]? := by
  cases hother : s.entries[j]? with
  | none => rfl
  | some other =>
    have hne : other.element.name? ≠ some name :=
      fun hsame => hposition (h.listed j other name hother hsame)
    rw [Option.map_some, if_neg hne]

/-- An entry is replaced where its name stands, and nowhere else. -/
theorem entries_replace (h : s.Indexed) (name : String) (entry : Entry) :
    (s.replace name entry).entries =
      s.entries.map fun old =>
        if old.element.name? = some name then entry else old := by
  apply List.ext_getElem?
  intro j
  rw [List.getElem?_map]
  unfold Store.replace
  split
  · next i hposition =>
    obtain ⟨known, hknown, hname⟩ := h.found name i hposition
    dsimp only
    by_cases hij : i = j
    · subst hij
      rw [List.getElem?_set_self (List.getElem?_eq_some_iff.mp hknown).1,
        hknown, Option.map_some,
        if_pos hname]
    · have hne : s.positions.lookup name ≠ some j :=
        fun heq => hij (Option.some.inj (hposition.symm.trans heq))
      rw [List.getElem?_set_ne hij, h.map_getElem?_of_ne hne]
  · next hposition =>
    have hne : s.positions.lookup name ≠ some j := by
      rw [hposition]
      exact nofun
    rw [h.map_getElem?_of_ne hne]

/-- An entry put in place of another one of its name keeps the index. -/
theorem replace (h : s.Indexed) (hname : entry.element.name? = some name) :
    (s.replace name entry).Indexed := by
  have hpositions : (s.replace name entry).positions = s.positions := by
    unfold Store.replace
    split <;> rfl
  have hkeeps : ∀ old : Entry,
      (if old.element.name? = some name then entry else old).element.name? =
        old.element.name? := by
    intro old
    by_cases hsame : old.element.name? = some name
    · rw [if_pos hsame, hname, hsame]
    · rw [if_neg hsame]
  constructor
  · intro i new name' hnew hname'
    rw [h.entries_replace, List.getElem?_map] at hnew
    obtain ⟨old, hold, rfl⟩ := Option.map_eq_some_iff.mp hnew
    rw [hpositions]
    exact h.listed i old name' hold ((hkeeps old).symm.trans hname')
  · intro name' i hposition
    rw [hpositions] at hposition
    obtain ⟨old, hold, hname'⟩ := h.found name' i hposition
    refine ⟨_, ?_, (hkeeps old).trans hname'⟩
    rw [h.entries_replace, List.getElem?_map, hold, Option.map_some]

end Indexed

/-- A name goes on to stand for a node, or for a relationship, once it does. -/
def Grows (s t : Store) : Prop :=
  ∀ (name : String) (known : Entry), s.find? name = some known →
    ∃ later, t.find? name = some later ∧
    later.element.rank = known.element.rank

/-- A store that is left as it is grows. -/
theorem Grows.refl (s : Store) : s.Grows s := fun _ known hknown =>
    ⟨known, hknown, rfl⟩

/-- Stores grow step by step. -/
theorem Grows.trans {s t u : Store} (hst : s.Grows t) (htu : t.Grows u) :
    s.Grows u := by
  intro name known hknown
  obtain ⟨later, hlater, hrank⟩ := hst name known hknown
  obtain ⟨last, hlast, hrank'⟩ := htu name later hlater
  exact ⟨last, hlast, hrank'.trans hrank⟩

/-- What is known stays so, and stays of its sort. -/
theorem Grows.get? {s t : Store} (hgrows : s.Grows t) (hs : s.Indexed)
    (ht : t.Indexed) {name : String} {e : Element}
    (hget : s.get? name = some e) :
    ∃ later, t.get? name = some later ∧ later.rank = e.rank := by
  obtain ⟨hname, intent, hmem⟩ := hs.get?_eq_some_iff.mp hget
  obtain ⟨later, hlater, hrank⟩ :=
    hgrows name ⟨e, intent⟩ (hs.find?_eq_some_iff.mpr ⟨hmem, hname⟩)
  obtain ⟨hmem', hname'⟩ := ht.find?_eq_some_iff.mp hlater
  exact ⟨later.element, ht.get?_eq_some_iff.mpr ⟨hname', later.intent,
    hmem'⟩, hrank⟩

/-- The guarantee that the index is right and that names keep their sort. -/
def indexing : Guarantee Store where
  holds := Indexed
  leads := Grows
  refl := Grows.refl
  trans := Grows.trans

/-! ### What a declaration does -/

namespace Indexed

variable {s s' : Store} {d : Declaration} {name : String}

/-- **A declaration keeps the index right.** -/
theorem of_makes (h : s.Indexed) (hmakes : d.Makes s s') : s'.Indexed := by
  cases hmakes with
  | unnamed hname hentry =>
    exact h.push ((Declaration.name?_of_entry? hentry).trans hname)
  | added hname hnew hentry =>
    exact h.pushNamed ((Declaration.name?_of_entry? hentry).trans hname) hnew
  | extended hname hknown hentry =>
    exact h.replace
      ((Declaration.name?_of_extend hentry).trans
        (h.find?_eq_some_iff.mp hknown).2)

/-- A declaration keeps the index. -/
theorem apply (h : s.Indexed) (happly : d.apply s = .ok s') : s'.Indexed :=
  h.of_makes (Declaration.makes_of_apply happly)

/-- A declaration leaves all other names alone. -/
theorem find?_of_makes_of_ne (h : s.Indexed) (hmakes : d.Makes s s')
    (hne : d.name? ≠ some name) :
    s'.find? name = s.find? name := by
  have hindexed := h.of_makes hmakes
  apply Option.ext
  intro found
  rw [hindexed.find?_eq_some_iff, h.find?_eq_some_iff]
  cases hmakes with
  | @unnamed entry hname hentry | @added own entry hname hnew hentry =>
    have hother : found.element.name? = some name → found ≠ entry := by
      rintro hfound rfl
      exact hne ((Declaration.name?_of_entry? hentry).symm.trans hfound)
    have hentries : found ∈ s.entries ++ [entry] ↔ found ∈ s.entries ∨
        found = entry := by
      rw [List.mem_append, List.mem_singleton]
    constructor
    · rintro ⟨hmem, hfound⟩
      exact ⟨(hentries.mp hmem).resolve_right (hother hfound), hfound⟩
    · rintro ⟨hmem, hfound⟩
      exact ⟨hentries.mpr (.inl hmem), hfound⟩
  | @extended own known entry hname hknown hentry =>
    rw [h.entries_replace, List.mem_map]
    have hentryName : entry.element.name? = some own :=
      (Declaration.name?_of_extend hentry).trans
        (h.find?_eq_some_iff.mp hknown).2
    constructor
    · rintro ⟨⟨old, hold, rfl⟩, hfound⟩
      by_cases hsame : old.element.name? = some own
      · rw [if_pos hsame, hentryName] at hfound
        exact absurd (hname.trans hfound) hne
      · rw [if_neg hsame] at hfound ⊢
        exact ⟨hold, hfound⟩
    · rintro ⟨hmem, hfound⟩
      refine ⟨⟨found, hmem, if_neg fun hsame => ?_⟩, hfound⟩
      rw [hsame] at hfound
      exact hne (hname.trans hfound)

/-- A declaration adds the entry of its own name, or extends it. -/
theorem find?_of_makes_self (h : s.Indexed) (hmakes : d.Makes s s')
    (hd : d.name? = some name) :
    (s.find? name = none ∧ ∃ entry, d.entry? = some entry ∧
      s'.find? name = some entry) ∨
      ∃ known entry, s.find? name = some known ∧ d.extend known = some entry ∧
        s'.find? name = some entry := by
  have hindexed := h.of_makes hmakes
  cases hmakes with
  | @unnamed entry hname hentry =>
    rw [hname] at hd
    cases hd
  | @added own entry hname hnew hentry =>
    obtain rfl := Option.some.inj (hname.symm.trans hd)
    refine .inl ⟨hnew, entry, hentry, ?_⟩
    rw [hindexed.find?_eq_some_iff]
    exact ⟨List.mem_append_right s.entries List.mem_cons_self,
      (Declaration.name?_of_entry? hentry).trans hname⟩
  | @extended own known entry hname hknown hentry =>
    obtain rfl := Option.some.inj (hname.symm.trans hd)
    obtain ⟨hmem, hknownName⟩ := h.find?_eq_some_iff.mp hknown
    refine .inr ⟨known, entry, hknown, hentry, ?_⟩
    rw [hindexed.find?_eq_some_iff, h.entries_replace]
    exact ⟨List.mem_map.mpr ⟨known, hmem, if_pos hknownName⟩,
      (Declaration.name?_of_extend hentry).trans hknownName⟩

/-- **A name goes on to stand for what it stands for**, a node or a
relationship. -/
theorem grows_of_makes (h : s.Indexed) (hmakes : d.Makes s s') :
    s.Grows s' := by
  intro name known hknown
  by_cases hd : d.name? = some name
  · rcases h.find?_of_makes_self hmakes hd with ⟨hnew, -⟩ |
        ⟨before, entry, hbefore, hentry, hfind⟩
    · rw [hknown] at hnew
      cases hnew
    · obtain rfl := Option.some.inj (hknown.symm.trans hbefore)
      exact ⟨entry, hfind, Declaration.rank_of_extend hentry⟩
  · exact ⟨known, (h.find?_of_makes_of_ne hmakes hd).trans hknown, rfl⟩

end Indexed

/-- Declarations keep the index, whatever they give. -/
theorem keeps_indexing : Keeps indexing fun _ => True where
  none := trivial
  declaration _ _ _ _ happly hs :=
    ⟨hs.apply happly, hs.grows_of_makes (Declaration.makes_of_apply happly)⟩

end Store

end GraphQuery.Pattern
