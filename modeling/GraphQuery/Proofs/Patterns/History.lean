import GraphQuery.Proofs.Patterns.Index
import Mathlib.Data.List.Basic

/-!
# What a history of declarations leaves behind

The entries a store ends up with can be read off the history of its
declarations at once: `expected`.  Every name has one entry, where it was
registered first; its labels are those of the first registration and the new
ones of all later ones, its properties are all that were given, and its
intent is that of the last declaration that names it.  `Reflects.makes` is
the step from one declaration to the next.
-/

namespace GraphQuery.Pattern

/-- Labels are extended by the new ones, each of them once. -/
theorem extendLabels_eq (labels more : List String) :
    extendLabels labels more =
    labels ++
      (more.filter fun label => !labels.contains label).eraseDups := by
  induction more generalizing labels with
  | nil => simp [extendLabels]
  | cons label more ih =>
    have hstep : extendLabels labels (label :: more) =
        extendLabels (if labels.contains label then labels else labels ++
          [label]) more := rfl
    rw [hstep, ih]
    by_cases hknown : labels.contains label = true
    · rw [if_pos hknown, List.filter_cons_of_neg (by rw [hknown]; decide)]
    · have hlater : (fun other => !(labels ++ [label]).contains other) =
          fun other => !(other == label) && !labels.contains other := by
        funext other
        rw [List.contains_append, Bool.not_or, Bool.and_comm,
          List.contains_cons,
          List.contains_nil, Bool.or_false]
      rw [if_neg hknown, List.filter_cons_of_pos (by simpa using hknown),
        List.eraseDups_cons,
        List.filter_filter, hlater, List.append_assoc]
      rfl

/-- Labels are added in two goes. -/
theorem extendLabels_append (labels more others : List String) :
    extendLabels labels (more ++ others) =
      extendLabels (extendLabels labels more) others :=
  List.foldl_append

namespace Declaration

/-- The intent of a declaration. -/
def intent : Declaration → Intent
  | node _ _ _ intent => intent
  | relationship _ intent => intent
  | raw _ intent => intent
  | assign _ _ intent => intent

section

variable {d : Declaration} {known entry : Entry}

/-- A new entry has the intent of its declaration. -/
theorem intent_of_entry? (h : d.entry? = some entry) :
    entry.intent = d.intent := by
  cases d <;> cases h <;> rfl

/-- An entry that is extended gets the intent of the declaration. -/
theorem intent_of_extend (h : d.extend known = some entry) :
    entry.intent = d.intent := by
  rcases known with ⟨_ | _ | _ | _, _⟩ <;> cases d <;> cases h <;> rfl

end

/-- The labels, or types, that a registration of a name gives. -/
def labelsOf? (name : String) : Declaration → Option (List String)
  | node own labels _ _ => if own = name then some labels else none
  | relationship new _ => if new.name = name then some new.types else none
  | raw _ _ => none
  | assign _ _ _ => none

/-- The properties that a declaration gives to a name. -/
def propertiesOf (name : String) (d : Declaration) : List Assignment :=
  if d.name? = some name then d.properties else []

/-- The intent of a declaration if it names a name. -/
def intentOf? (name : String) (d : Declaration) : Option Intent :=
  if d.name? = some name then some d.intent else none

/-- Whether a declaration adds an element after earlier ones: a raw fragment
always does, a node or a relationship does if its name was not registered
before. -/
def adds (earlier : List Declaration) : Declaration → Bool
  | node name _ _ _ => (earlier.filterMap (labelsOf? name)).isEmpty
  | relationship new _ => (earlier.filterMap (labelsOf? new.name)).isEmpty
  | raw _ _ => true
  | assign _ _ _ => false

end Declaration

/-- The labels of a name after a history: those of its first registration,
then every new one of the later ones, in order. -/
def labelsAfter (ds : List Declaration) (name : String) : List String :=
  match ds.filterMap (Declaration.labelsOf? name) with
  | [] => []
  | first :: later => first ++ (later.flatten.filter fun label =>
      !first.contains label).eraseDups

/-- The properties of a name after a history: all that were given, in order. -/
def propertiesAfter (ds : List Declaration) (name : String) :
    List Assignment :=
  ds.flatMap (Declaration.propertiesOf name)

/-- The intent of a name after a history: that of the last declaration that
names it. -/
def intentAfter (ds : List Declaration) (name : String) : Option Intent :=
  (ds.filterMap (Declaration.intentOf? name)).getLast?

/-- What has become of the element a declaration added. -/
def Declaration.settled (ds : List Declaration) : Declaration → Option Entry
  | node name _ _ intent => some
      ⟨.node { name, labels := labelsAfter ds name, properties :=
        propertiesAfter ds name },
        (intentAfter ds name).getD intent⟩
  | relationship new intent => some
      ⟨.relationship { new with
          types := labelsAfter ds new.name
          properties := propertiesAfter ds new.name },
        (intentAfter ds new.name).getD intent⟩
  | raw text intent => some ⟨.raw text, intent⟩
  | assign _ _ _ => none

/-- The declarations that add an element, after earlier ones. -/
def additionsAfter (earlier : List Declaration) : List Declaration →
    List Declaration
  | [] => []
  | d :: later =>
    if d.adds earlier then d :: additionsAfter (earlier ++ [d]) later
    else additionsAfter (earlier ++ [d]) later

/-- The entries of a store after a history. -/
def expected (ds : List Declaration) : List Entry :=
  (additionsAfter [] ds).filterMap (Declaration.settled ds)

section

variable {ds : List Declaration} {a d : Declaration} {name : String}
    {labels : List String}
variable {known entry : Entry}

/-- The first declaration with labels gives them all. -/
theorem labelsAfter_of_first
    (hds : ds.filterMap (Declaration.labelsOf? name) = [])
    (hd : d.labelsOf? name = some labels) :
    labelsAfter (ds ++ [d]) name = labels := by
  have hall : (ds ++ [d]).filterMap (Declaration.labelsOf? name) =
      [labels] := by
    rw [List.filterMap_append, hds, List.nil_append,
      List.filterMap_cons_some hd]
    rfl
  unfold labelsAfter
  rw [hall]
  simp

/-- A later one adds its labels. -/
theorem labelsAfter_of_later
    (hds : ds.filterMap (Declaration.labelsOf? name) ≠ [])
    (hd : d.labelsOf? name = some labels) :
    labelsAfter (ds ++ [d]) name = extendLabels (labelsAfter ds name)
      labels := by
  obtain ⟨first, later, hlabels⟩ := List.exists_cons_of_ne_nil hds
  have hall : (ds ++ [d]).filterMap (Declaration.labelsOf? name) = first ::
      (later ++ [labels]) := by
    rw [List.filterMap_append, hlabels, List.filterMap_cons_some hd]
    rfl
  unfold labelsAfter
  rw [hall, hlabels]
  dsimp only
  rw [← extendLabels_eq, ← extendLabels_eq, List.flatten_append,
    List.flatten_singleton,
    extendLabels_append]

/-- One without labels adds none. -/
theorem labelsAfter_of_none (hd : d.labelsOf? name = none) :
    labelsAfter (ds ++ [d]) name = labelsAfter ds name := by
  have hall : (ds ++ [d]).filterMap (Declaration.labelsOf? name) =
      ds.filterMap (Declaration.labelsOf? name) := by
    rw [List.filterMap_append, List.filterMap_cons_none hd,
      List.filterMap_nil, List.append_nil]
  unfold labelsAfter
  rw [hall]

/-- Properties come behind those before. -/
theorem propertiesAfter_snoc (ds : List Declaration) (d : Declaration)
    (name : String) :
    propertiesAfter (ds ++ [d]) name = propertiesAfter ds name ++
      d.propertiesOf name := by
  rw [propertiesAfter, List.flatMap_append, List.flatMap_singleton]
  rfl

/-- A declaration of a name gives its intent. -/
theorem intentAfter_of_name (hd : d.name? = some name) :
    intentAfter (ds ++ [d]) name = some d.intent := by
  have hintent : d.intentOf? name = some d.intent := if_pos hd
  rw [intentAfter, List.filterMap_append, List.filterMap_cons_some hintent,
    List.filterMap_nil,
    List.getLast?_concat]

/-- A declaration of another name does not. -/
theorem intentAfter_of_ne (hd : d.name? ≠ some name) :
    intentAfter (ds ++ [d]) name = intentAfter ds name := by
  have hintent : d.intentOf? name = none := if_neg hd
  rw [intentAfter, List.filterMap_append, List.filterMap_cons_none hintent,
    List.filterMap_nil, List.append_nil]
  rfl

namespace Declaration

/-- A declaration has labels for its own name only. -/
theorem labelsOf?_of_ne (hd : d.name? ≠ some name) :
    d.labelsOf? name = none := by
  cases d with
  | node own labels properties intent =>
    exact if_neg fun heq => hd (congrArg some heq)
  | relationship new intent => exact if_neg fun heq => hd (congrArg some heq)
  | raw | assign => rfl

/-- A name that nothing declares has no labels. -/
theorem labels_eq_nil (h : ∀ e ∈ ds, e.name? ≠ some name) :
    ds.filterMap (labelsOf? name) = [] := by
  rw [List.filterMap_eq_nil_iff]
  intro e he
  exact labelsOf?_of_ne (h e he)

/-- A settled entry has the name of its declaration. -/
theorem name?_of_settled
    (h : a.settled ds = some entry) : entry.element.name? = a.name? := by
  cases a <;> cases h <;> rfl

/-- What makes no entry makes none, whatever came before. -/
theorem settled_eq_none (h : a.settled ds = none) {es : List Declaration} :
    a.settled es = none := by
  cases a with
  | node | relationship | raw => cases h
  | assign => rfl

/-- A declaration of another name changes nothing. -/
theorem settled_of_ne
    (h : ∀ name, a.name? = some name → d.name? ≠ some name) :
    a.settled (ds ++ [d]) = a.settled ds := by
  cases a with
  | node name labels properties intent =>
    have hne := h name rfl
    have hproperties : d.propertiesOf name = [] := if_neg hne
    simp only [settled, labelsAfter_of_none
      (labelsOf?_of_ne hne), propertiesAfter_snoc, hproperties,
      List.append_nil, intentAfter_of_ne hne]
  | relationship new intent =>
    have hne := h new.name rfl
    have hproperties : d.propertiesOf new.name = [] := if_neg hne
    simp only [settled, labelsAfter_of_none (labelsOf?_of_ne hne),
      propertiesAfter_snoc, hproperties,
      List.append_nil, intentAfter_of_ne hne]
  | raw | assign => rfl

/-- The first declaration of a name is taken as it is. -/
theorem settled_of_first
    (h : ∀ name, d.name? = some name → ∀ e ∈ ds, e.name? ≠ some name)
    (hentry : d.entry? = some entry) :
    d.settled (ds ++ [d]) = some entry := by
  have hlabels : ∀ name, d.name? = some name →
      ds.filterMap (labelsOf? name) = [] :=
    fun name hname => labels_eq_nil (h name hname)
  have hproperties : ∀ name, d.name? = some name →
      propertiesAfter (ds ++ [d]) name = d.properties := by
    intro name hname
    have hbefore : propertiesAfter ds name = [] := by
      rw [propertiesAfter, List.flatMap_eq_nil_iff]
      intro e he
      exact if_neg (h name hname e he)
    rw [propertiesAfter_snoc, hbefore, List.nil_append, propertiesOf,
      if_pos hname]
  cases d with
  | node name labels properties intent =>
    have hown : (node name labels properties intent).labelsOf? name = some
        labels := if_pos rfl
    rw [← hentry, settled, labelsAfter_of_first (hlabels name rfl) hown,
      hproperties name rfl, intentAfter_of_name rfl]
    rfl
  | relationship new intent =>
    have hown : (relationship new intent).labelsOf? new.name =
        some new.types := if_pos rfl
    rw [← hentry, settled, labelsAfter_of_first (hlabels new.name rfl) hown,
      hproperties new.name rfl, intentAfter_of_name rfl]
    rfl
  | raw text intent => exact hentry
  | assign => cases hentry

/-- A declaration with labels is among those with labels. -/
theorem labels_ne_nil (hmem : a ∈ ds)
    (hlabels : a.labelsOf? name = some labels) :
    ds.filterMap (labelsOf? name) ≠ [] :=
  List.ne_nil_of_mem (List.mem_filterMap.mpr ⟨a, hmem, hlabels⟩)

/-- The first declaration of a name adds an entry. -/
theorem adds_of_first
    (h : ∀ name, d.name? = some name → ∀ e ∈ ds, e.name? ≠ some name)
    (hentry : d.entry? = some entry) :
    d.adds ds = true := by
  cases d with
  | node name => rw [adds, labels_eq_nil (h name rfl), List.isEmpty_nil]
  | relationship new => rw [adds, labels_eq_nil (h new.name rfl),
      List.isEmpty_nil]
  | raw => rfl
  | assign => cases hentry

/-- A declaration of a name that makes an entry has labels for it. -/
theorem labelsOf?_of_settled (h : a.settled ds = some known)
    (hname : a.name? = some name) :
    ∃ labels, a.labelsOf? name = some labels := by
  cases a with
  | node own labels properties intent =>
    exact ⟨labels, if_pos (Option.some.inj hname)⟩
  | relationship new intent =>
    exact ⟨new.types, if_pos (Option.some.inj hname)⟩
  | raw => cases hname
  | assign => cases h

/-- A later declaration of the name does not. -/
theorem not_adds_of_mem (hmem : a ∈ ds) (hknown : a.settled ds = some known)
    (ha : a.name? = some name) (hd : d.name? = some name) :
    d.adds ds = false := by
  obtain ⟨labels, hlabels⟩ := labelsOf?_of_settled hknown ha
  have hregistered : ds.filterMap (labelsOf? name) ≠ [] :=
    labels_ne_nil hmem hlabels
  cases d with
  | node own =>
    rw [adds, Option.some.inj hd, List.isEmpty_eq_false_iff]
    exact hregistered
  | relationship new =>
    rw [adds, Option.some.inj hd, List.isEmpty_eq_false_iff]
    exact hregistered
  | raw => cases hd
  | assign => rfl

/-- What a later declaration of a name makes of its entry.  An entry is
extended by a declaration of its own kind, or by an assignment, which has no
labels. -/
theorem settled_of_extend (hmem : a ∈ ds)
    (hname : d.name? = a.name?) (hknown : a.settled ds = some known)
    (hentry : d.extend known = some entry) :
    a.settled (ds ++ [d]) = some entry := by
  cases a with
  | node name labels properties intent =>
    have hregistered : ds.filterMap (labelsOf? name) ≠ [] :=
      labels_ne_nil hmem (if_pos rfl)
    have hproperties : d.propertiesOf name = d.properties := if_pos hname
    cases hknown
    rw [settled, propertiesAfter_snoc, hproperties,
      intentAfter_of_name hname, ← hentry]
    cases d with
    | node own more others intent =>
      have hlabels : (node own more others intent).labelsOf? name =
          some more :=
        if_pos (Option.some.inj hname)
      rw [labelsAfter_of_later hregistered hlabels]
      rfl
    | assign own others intent =>
      rw [labelsAfter_of_none rfl]
      rfl
    | relationship | raw => cases hentry
  | relationship new intent =>
    have hregistered : ds.filterMap (labelsOf? new.name) ≠ [] :=
      labels_ne_nil hmem (if_pos rfl)
    have hproperties : d.propertiesOf new.name = d.properties := if_pos hname
    cases hknown
    rw [settled, propertiesAfter_snoc, hproperties,
      intentAfter_of_name hname, ← hentry]
    cases d with
    | relationship later intent =>
      have hlabels : (relationship later intent).labelsOf? new.name =
          some later.types :=
        if_pos (Option.some.inj hname)
      rw [labelsAfter_of_later hregistered hlabels]
      rfl
    | assign own others intent =>
      rw [labelsAfter_of_none rfl]
      rfl
    | node | raw => cases hentry
  | raw text intent =>
    cases d with
    | raw => cases hentry
    | node | relationship | assign => cases hname
  | assign => cases hknown

end Declaration

/-- The last declaration adds its entry behind the others. -/
theorem additionsAfter_snoc (earlier ds : List Declaration)
    (d : Declaration) :
    additionsAfter earlier (ds ++ [d]) =
      additionsAfter earlier ds ++
        if d.adds (earlier ++ ds) then [d] else [] := by
  induction ds generalizing earlier with
  | nil =>
    rw [List.nil_append, List.append_nil, additionsAfter, additionsAfter,
      additionsAfter,
      List.nil_append]
  | cons first later ih =>
    rw [List.cons_append, additionsAfter, additionsAfter, ih,
      List.append_assoc]
    by_cases hadds : first.adds earlier = true
    · rw [if_pos hadds, if_pos hadds]
      rfl
    · rw [if_neg hadds, if_neg hadds]
      rfl

/-- What adds an entry is one of the declarations. -/
theorem mem_of_mem_additionsAfter {earlier : List Declaration}
    (h : a ∈ additionsAfter earlier ds) : a ∈ ds := by
  induction ds generalizing earlier with
  | nil => cases h
  | cons first later ih =>
    rw [additionsAfter] at h
    by_cases hadds : first.adds earlier = true
    · rw [if_pos hadds] at h
      rcases List.mem_cons.mp h with rfl | hlater
      · exact List.mem_cons_self
      · exact List.mem_cons_of_mem first (ih hlater)
    · rw [if_neg hadds] at h
      exact List.mem_cons_of_mem first (ih h)

end

/-- A store is what a history of declarations leaves behind. -/
structure Reflects (s : Store) (ds : List Declaration) : Prop where
  indexed : s.Indexed
  entries : s.entries = expected ds
  /-- What is not there was never declared. -/
  unnamed : ∀ name, s.find? name = none → ∀ e ∈ ds, e.name? ≠ some name

/-- An empty store reflects no declarations. -/
theorem reflects_empty : Reflects {} [] where
  indexed := Store.indexed_empty
  entries := rfl
  unnamed _ _ _ he := by cases he

namespace Reflects

variable {s s' : Store} {ds : List Declaration} {d : Declaration}
    {name : String}
variable {known entry : Entry}

/-- An entry of a name comes from a declaration that added it. -/
theorem addition_of_find? (h : Reflects s ds)
    (hfind : s.find? name = some known) :
    ∃ a ∈ additionsAfter [] ds, a.settled ds = some known ∧
    a.name? = some name := by
  obtain ⟨hmem, hname⟩ := h.indexed.find?_eq_some_iff.mp hfind
  rw [h.entries] at hmem
  obtain ⟨a, ha, hsettled⟩ := List.mem_filterMap.mp hmem
  exact ⟨a, ha, hsettled,
    (Declaration.name?_of_settled hsettled).symm.trans hname⟩

/-- A declaration of a name that was never declared stands behind all
others. -/
theorem expected_of_first
    (hfirst : ∀ name, d.name? = some name → ∀ e ∈ ds, e.name? ≠ some name)
    (hentry : d.entry? = some entry) :
    expected (ds ++ [d]) = expected ds ++ [entry] := by
  have hadds : d.adds ([] ++ ds) = true :=
    Declaration.adds_of_first hfirst hentry
  have hself : d.settled (ds ++ [d]) = some entry :=
    Declaration.settled_of_first hfirst hentry
  have hothers : ∀ a ∈ additionsAfter [] ds,
      a.settled (ds ++ [d]) = a.settled ds := by
    intro a ha
    apply Declaration.settled_of_ne
    intro name hname hd
    exact hfirst name hd a (mem_of_mem_additionsAfter ha) hname
  rw [expected, additionsAfter_snoc, if_pos hadds, List.filterMap_append,
    List.filterMap_congr hothers, List.filterMap_cons_some hself]
  rfl

/-- A declaration of a known name changes the entry of the name. -/
theorem expected_of_extend (h : Reflects s ds) (hname : d.name? = some name)
    (hknown : s.find? name = some known)
    (hentry : d.extend known = some entry) :
    expected (ds ++ [d]) =
      (expected ds).map fun old =>
        if old.element.name? = some name then entry else old := by
  obtain ⟨added, hadded, hsettled, haddedName⟩ := h.addition_of_find? hknown
  have hadds : d.adds ([] ++ ds) = false :=
    Declaration.not_adds_of_mem (mem_of_mem_additionsAfter hadded) hsettled
      haddedName hname
  have hall : ∀ a ∈ additionsAfter [] ds,
      a.settled (ds ++ [d]) = (a.settled ds).map fun old =>
        if old.element.name? = some name then entry else old := by
    intro a ha
    cases hold : a.settled ds with
    | none => exact Declaration.settled_eq_none hold
    | some old =>
      have holdName := Declaration.name?_of_settled hold
      by_cases hsame : a.name? = some name
      · have holdMem : old ∈ s.entries := by
          rw [h.entries]
          exact List.mem_filterMap.mpr ⟨a, ha, hold⟩
        have hfind : s.find? name = some old :=
          h.indexed.find?_eq_some_iff.mpr ⟨holdMem, holdName.trans hsame⟩
        rw [hknown] at hfind
        cases hfind
        rw [Option.map_some, if_pos (holdName.trans hsame)]
        exact Declaration.settled_of_extend (mem_of_mem_additionsAfter ha)
          (hname.trans hsame.symm)
          hold hentry
      · have hne : ∀ other, a.name? = some other → d.name? ≠ some other := by
          intro other hother hd
          rw [hname] at hd
          exact hsame (hother.trans hd.symm)
        rw [Option.map_some, if_neg (holdName.trans_ne hsame),
          Declaration.settled_of_ne hne, hold]
  rw [expected, additionsAfter_snoc, hadds, List.filterMap_append,
    List.filterMap_congr hall,
    expected, List.map_filterMap]
  exact List.append_nil _

/-- A name the store does not know after a declaration was not declared up
to then. -/
theorem unnamed_of_makes (h : Reflects s ds) (hmakes : d.Makes s s')
    (hnone : s'.find? name = none) :
    ∀ e ∈ ds ++ [d], e.name? ≠ some name := by
  have hd : d.name? ≠ some name := by
    intro hname
    rcases h.indexed.find?_of_makes_self hmakes hname with
      ⟨-, entry, -, hfind⟩ | ⟨known, entry, -, -, hfind⟩ <;>
    · rw [hnone] at hfind
      cases hfind
  have hbefore : s.find? name = none :=
    (h.indexed.find?_of_makes_of_ne hmakes hd).symm.trans hnone
  intro e he
  rcases List.mem_append.mp he with he | he
  · exact h.unnamed name hbefore e he
  · rw [List.mem_singleton.mp he]
    exact hd

/-- **What one declaration leads to**: the history with the declaration
behind it. -/
theorem makes (h : Reflects s ds) (hmakes : d.Makes s s') :
    Reflects s' (ds ++ [d]) := by
  refine ⟨h.indexed.of_makes hmakes, ?_, fun name hnone =>
    h.unnamed_of_makes hmakes hnone⟩
  cases hmakes with
  | unnamed hname hentry =>
    have hfirst : ∀ name, d.name? = some name →
        ∀ e ∈ ds, e.name? ≠ some name := by
      intro name hd
      rw [hname] at hd
      cases hd
    rw [expected_of_first hfirst hentry, ← h.entries]
    rfl
  | added hname hnew hentry =>
    have hfirst : ∀ name, d.name? = some name →
        ∀ e ∈ ds, e.name? ≠ some name := by
      intro name hd
      rw [hname] at hd
      cases hd
      exact h.unnamed _ hnew
    rw [expected_of_first hfirst hentry, ← h.entries]
    rfl
  | extended hname hknown hentry =>
    rw [h.indexed.entries_replace, h.expected_of_extend hname hknown hentry,
      h.entries]

/-- What a run of declarations leads to. -/
theorem applyAll {es : List Declaration} (h : Reflects s ds)
    (happly : s.applyAll es = .ok s') :
    Reflects s' (ds ++ es) := by
  induction es generalizing s ds with
  | nil =>
    cases happly
    rw [List.append_nil]
    exact h
  | cons d later ih =>
    obtain ⟨t, hd, hrest⟩ := Store.applyAll_cons_eq_ok.mp happly
    have hlater := ih (h.makes (Declaration.makes_of_apply hd)) hrest
    rw [List.append_assoc] at hlater
    exact hlater

end Reflects

end GraphQuery.Pattern
