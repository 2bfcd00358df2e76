import GraphQuery.Pattern.Store
import GraphQuery.Proofs.Computation

/-!
# Declarations

All that a call of a store ever does to it is to make declarations, one
after the other: of a node, of a relationship, of a raw fragment, or of more
properties of an element.  What every single declaration keeps is kept by
all calls, also by those that fail half-way: `Keeps.perform`.
-/

namespace GraphQuery.Pattern

namespace Store

section

variable {s t : Store} {e : Element} {name : String} {labels : List String}
variable {properties : List Assignment} {new : Relationship} {intent : Intent}

/-- What is found by its name has been declared. -/
theorem mem_of_find? {known : Entry} (h : s.find? name = some known) :
    known ∈ s.entries := by
  obtain ⟨i, -, hentry⟩ := Option.bind_eq_some_iff.mp h
  exact List.mem_of_getElem? hentry

/-- After an entry is replaced there is the new one, and those there were. -/
theorem mem_of_mem_replace {entry found : Entry}
    (h : found ∈ (s.replace name entry).entries) :
    found = entry ∨ found ∈ s.entries := by
  unfold replace at h
  split at h
  · exact (List.mem_or_eq_of_mem_set h).symm
  · exact .inr h

/-- A node of a new name is declared as it is given. -/
theorem declareNode_of_new (h : s.find? name = none) (labels : List String)
    (properties : List Assignment) (intent : Intent) :
    s.declareNode name labels properties intent =
      .ok (.node { name, labels, properties },
      s.pushNamed name ⟨.node { name, labels, properties }, intent⟩) := by
  rw [declareNode, h]

/-- A relationship of a new name is declared as it is given. -/
theorem declareRelationship_of_new (h : s.find? new.name = none)
    (intent : Intent) :
    s.declareRelationship new intent =
      .ok (.relationship new,
        s.pushNamed new.name ⟨.relationship new, intent⟩) := by
  rw [declareRelationship, h]

/-- A node that is declared has a new name, or is a known one that takes
more. -/
theorem declareNode_cases
    (h : s.declareNode name labels properties intent = .ok (e, t)) :
    (s.find? name = none ∧ e = .node { name, labels, properties } ∧
      t = s.pushNamed name ⟨e, intent⟩) ∨
    ∃ known before, s.find? name = some ⟨.node known, before⟩ ∧
      e = .node { known with
        labels := extendLabels known.labels labels
        properties := known.properties ++ properties } ∧
      t = s.replace name ⟨e, intent⟩ := by
  rw [declareNode] at h
  split at h
  · next hnew =>
    cases h
    exact .inl ⟨hnew, rfl, rfl⟩
  · next known before hknown =>
    cases h
    exact .inr ⟨known, before, hknown, rfl, rfl⟩
  · cases h

/-- A relationship that is declared has a new name, or is a known one that
takes more. -/
theorem declareRelationship_cases
    (h : s.declareRelationship new intent = .ok (e, t)) :
    (s.find? new.name = none ∧ e = .relationship new ∧
      t = s.pushNamed new.name ⟨e, intent⟩) ∨
    ∃ known before, s.find? new.name = some ⟨.relationship known, before⟩ ∧
      e = .relationship { known with
        types := extendLabels known.types new.types
        properties := known.properties ++ new.properties } ∧
      t = s.replace new.name ⟨e, intent⟩ := by
  rw [declareRelationship] at h
  split at h
  · next hnew =>
    cases h
    exact .inl ⟨hnew, rfl, rfl⟩
  · next known before hknown =>
    cases h
    exact .inr ⟨known, before, hknown, rfl, rfl⟩
  · cases h

end

end Store

/-- What is done to a store at once. -/
inductive Declaration where
  | node (name : String) (labels : List String)
      (properties : List Assignment) (intent : Intent)
  | relationship (new : Relationship) (intent : Intent)
  | raw (text : String) (intent : Intent)
  | assign (name : String) (properties : List Assignment) (intent : Intent)
  deriving Inhabited

namespace Declaration

/-- The properties a declaration gives. -/
def properties : Declaration → List Assignment
  | node _ _ properties _ => properties
  | relationship new _ => new.properties
  | raw _ _ => []
  | assign _ properties _ => properties

/-- Make a declaration. -/
def apply (s : Store) : Declaration → Except Fault Store
  | node name labels properties intent =>
    (s.declareNode name labels properties intent).map Prod.snd
  | relationship new intent => (s.declareRelationship new intent).map Prod.snd
  | raw text intent => .ok (s.push ⟨.raw text, intent⟩)
  | assign name properties intent =>
    (s.assign name properties intent).map Prod.snd

/-- A declaration that is made comes from an answer with the new store. -/
theorem map_snd_eq_ok {declared : Except Fault (Element × Store)}
    {s : Store} :
    declared.map Prod.snd = .ok s ↔ ∃ e, declared = .ok (e, s) := by
  constructor
  · intro h
    cases declared with
    | error fault => cases h
    | ok answer =>
      cases h
      exact ⟨answer.1, rfl⟩
  · rintro ⟨e, rfl⟩
    rfl

/-- The name of the element a declaration is about. -/
def name? : Declaration → Option String
  | node name _ _ _ => some name
  | relationship new _ => some new.name
  | raw _ _ => none
  | assign name _ _ => some name

/-- The entry a declaration adds if its name is new. -/
def entry? : Declaration → Option Entry
  | node name labels properties intent =>
    some ⟨.node { name, labels, properties }, intent⟩
  | relationship new intent => some ⟨.relationship new, intent⟩
  | raw text intent => some ⟨.raw text, intent⟩
  | assign _ _ _ => none

/-- What a declaration makes of the entry that has its name. -/
def extend (known : Entry) : Declaration → Option Entry
  | node _ labels properties intent =>
    match known.element with
    | .node n => some ⟨.node { n with
        labels := extendLabels n.labels labels
        properties := n.properties ++ properties }, intent⟩
    | _ => none
  | relationship new intent =>
    match known.element with
    | .relationship r => some ⟨.relationship { r with
        types := extendLabels r.types new.types
        properties := r.properties ++ new.properties }, intent⟩
    | _ => none
  | raw _ _ => none
  | assign _ properties intent =>
    some ⟨known.element.assign properties, intent⟩

variable {d : Declaration} {s s' : Store} {known entry : Entry}

/-- A new entry has the name of its declaration. -/
theorem name?_of_entry? (h : d.entry? = some entry) :
    entry.element.name? = d.name? := by
  cases d <;> cases h <;> rfl

/-- An entry that is extended keeps its name. -/
theorem name?_of_extend (h : d.extend known = some entry) :
    entry.element.name? = known.element.name? := by
  rcases known with ⟨_ | _ | _ | _, _⟩ <;> cases d <;> cases h <;> rfl

/-- A node stays a node, and a relationship a relationship. -/
theorem rank_of_extend (h : d.extend known = some entry) :
    entry.element.rank = known.element.rank := by
  rcases known with ⟨_ | _ | _ | _, _⟩ <;> cases d <;> cases h <;> rfl

/-- All that a declaration can do to a store. -/
inductive Makes (d : Declaration) (s : Store) : Store → Prop
  | unnamed {entry : Entry} (hname : d.name? = none)
    (hentry : d.entry? = some entry) :
    Makes d s (s.push entry)
  | added {name : String} {entry : Entry} (hname : d.name? = some name)
    (hnew : s.find? name = none) (hentry : d.entry? = some entry) :
    Makes d s (s.pushNamed name entry)
  | extended {name : String} {known entry : Entry}
    (hname : d.name? = some name)
    (hknown : s.find? name = some known)
    (hentry : d.extend known = some entry) :
    Makes d s (s.replace name entry)

/-- A declaration that succeeds adds an entry or extends one. -/
theorem makes_of_apply (h : d.apply s = .ok s') : d.Makes s s' := by
  cases d with
  | node name labels properties intent =>
    obtain ⟨e, hdeclare⟩ := map_snd_eq_ok.mp h
    obtain ⟨hnew, rfl, rfl⟩ | ⟨_, _, hknown, rfl, rfl⟩ :=
      Store.declareNode_cases hdeclare
    · exact .added rfl hnew rfl
    · exact .extended rfl hknown rfl
  | relationship new intent =>
    obtain ⟨e, hdeclare⟩ := map_snd_eq_ok.mp h
    obtain ⟨hnew, rfl, rfl⟩ | ⟨_, _, hknown, rfl, rfl⟩ :=
      Store.declareRelationship_cases hdeclare
    · exact .added rfl hnew rfl
    · exact .extended rfl hknown rfl
  | raw text intent =>
    cases h
    exact .unnamed rfl rfl
  | assign name properties intent =>
    obtain ⟨e, hassign⟩ := map_snd_eq_ok.mp h
    rw [Store.assign] at hassign
    split at hassign
    · cases hassign
    · next hknown =>
      cases hassign
      exact .extended rfl hknown rfl

/-- An entry after a declaration was there before it, or is the new or the
extended one. -/
theorem Makes.mem_entries (h : d.Makes s s') (hentry : entry ∈ s'.entries) :
    entry ∈ s.entries ∨ d.entry? = some entry ∨
      ∃ known ∈ s.entries, d.extend known = some entry := by
  cases h with
  | unnamed _ hnew | added _ _ hnew =>
    rcases List.mem_append.mp hentry with hold | hlast
    · exact .inl hold
    · rw [List.mem_singleton.mp hlast]
      exact .inr (.inl hnew)
  | extended _ hknown hnew =>
    rcases Store.mem_of_mem_replace hentry with rfl | hold
    · exact .inr (.inr ⟨_, Store.mem_of_find? hknown, hnew⟩)
    · exact .inl hold

end Declaration

/-- Make declarations one after the other, until one fails. -/
def Store.applyAll (s : Store) (ds : List Declaration) : Except Fault Store :=
  ds.foldlM (fun s d => d.apply s) s

/-- Declarations are made in two goes. -/
theorem Store.applyAll_append (s : Store) (ds es : List Declaration) :
    s.applyAll (ds ++ es) = (s.applyAll ds).bind fun t => t.applyAll es :=
  List.foldlM_append

/-- One declaration is made by itself. -/
theorem Store.applyAll_singleton (s : Store) (d : Declaration) :
    s.applyAll [d] = d.apply s := by
  rw [applyAll, List.foldlM_cons]
  cases d.apply s <;> rfl

/-- Declarations that are all made: the first ones, and the others. -/
theorem Store.applyAll_append_eq_ok {s t : Store} {ds es : List Declaration} :
    s.applyAll (ds ++ es) = .ok t ↔ ∃ u, s.applyAll ds = .ok u ∧
    u.applyAll es = .ok t := by
  rw [applyAll_append]
  constructor
  · intro h
    cases hds : s.applyAll ds with
    | error fault =>
      rw [hds] at h
      cases h
    | ok u =>
      rw [hds] at h
      exact ⟨u, rfl, h⟩
  · rintro ⟨u, hds, hes⟩
    rw [hds]
    exact hes

/-- Declarations are made one after the other. -/
theorem Store.applyAll_cons_eq_ok {s t : Store} {d : Declaration}
    {later : List Declaration} :
    s.applyAll (d :: later) = .ok t ↔ ∃ u, d.apply s = .ok u ∧
    u.applyAll later = .ok t := by
  rw [← List.singleton_append, applyAll_append_eq_ok]
  simp only [applyAll_singleton]

/-- What each of the declarations keeps is kept by all of them. -/
theorem Store.applyAll_induction (holds : Store → Prop)
    {ds : List Declaration} {s t : Store} (happly : s.applyAll ds = .ok t)
    (hstep : ∀ d ∈ ds, ∀ u v : Store, d.Makes u v → holds u → holds v)
    (hs : holds s) : holds t := by
  induction ds generalizing s with
  | nil =>
    cases happly
    exact hs
  | cons d later ih =>
    obtain ⟨u, hd, hlater⟩ := applyAll_cons_eq_ok.mp happly
    have hu :=
      hstep d List.mem_cons_self s u (Declaration.makes_of_apply hd) hs
    exact ih hlater (fun d hmem => hstep d (List.mem_cons_of_mem _ hmem)) hu

/-- A guarantee about the store of a registry. -/
def onStore (G : Guarantee Store) : Guarantee Registry where
  holds r := G.holds r.store
  leads r r' := G.leads r.store r'.store
  refl r := G.refl r.store
  trans := G.trans

/-- Every declaration with properties fit for it keeps a guarantee. -/
structure Keeps (G : Guarantee Store) (fit : List Assignment → Prop) :
    Prop where
  none : fit []
  declaration : ∀ (d : Declaration) (s s' : Store), fit d.properties →
  d.apply s = .ok s' →
    G.holds s → G.holds s' ∧ G.leads s s'

namespace Keeps

open Guarantee Registration

variable {G : Guarantee Store} {fit : List Assignment → Prop}
    {properties : List Assignment}

/-- What leaves the store as it is keeps every guarantee about it. -/
theorem modifyGet {α : Type} {f : Registry → α × Registry}
    (hf : ∀ r, (f r).2.store = r.store) :
    (onStore G).Kept (modifyGet f : Registration α) := by
  intro r
  apply at_modifyGet
  intro hr
  have hstore := hf r
  refine ⟨?_, ?_, trivial⟩
  · show G.holds (f r).2.store
    rw [hstore]
    exact hr
  · show G.leads r.store (f r).2.store
    rw [hstore]
    exact G.refl r.store

/-- Drawing a name keeps every guarantee about the store. -/
theorem drawName : (onStore G).Kept drawName := Keeps.modifyGet fun _ => rfl

/-- Reading a name and labels keeps every guarantee about the store. -/
theorem resolve (sort : ElementSort) (labels : LabelArgument)
    (name : Option String) :
    (onStore G).Kept (resolve sort labels name) := Keeps.modifyGet fun _ =>
      rfl

/-- A declaration keeps what all declarations of fitting properties keep. -/
theorem declare (h : Keeps G fit) {kind name : String} {intent : Intent}
    {declaration : Store → Except Fault (Element × Store)} (d : Declaration)
    (hd : fit d.properties)
    (happly : ∀ s, d.apply s = (declaration s).map Prod.snd) :
    (onStore G).Kept (declare kind name intent declaration) := by
  apply kept_get_bind
  intro r
  apply at_lift_bind
  rintro ⟨e, s'⟩ hout
  have hdeclared : d.apply r.store = .ok s' := by
    rw [happly, Declaration.map_snd_eq_ok]
    exact ⟨e, hout⟩
  refine At.bind (p := fun _ _ => True) (at_set fun hr =>
    ?_) fun _ t _ _ _ => kept_pure e t
  obtain ⟨hholds, hleads⟩ := h.declaration d _ _ hd hdeclared hr
  exact ⟨hholds, hleads, trivial⟩

/-- Registering a node keeps what declarations of its properties keep. -/
theorem node (h : Keeps G fit) (labels : LabelArgument)
    (name : Option String) (intent : Intent) (hfit : fit properties) :
    (onStore G).Kept (node labels name intent properties) := by
  apply (resolve .node labels name).bind
  intro resolved
  exact h.declare (.node resolved.1 resolved.2 properties intent) hfit
    fun _ => rfl

/-- Registering an end keeps what declarations without properties keep. -/
theorem endpoint (h : Keeps G fit) (given : Option String) (intent : Intent) :
    (onStore G).Kept (endpoint given intent) := by
  unfold Registration.endpoint
  split
  · exact drawName
  · apply (resolve _ _ _).bind
    rintro ⟨name, labels⟩
    have hnode := h.node (.many labels) (some name) intent h.none
    cases labels with
    | nil => exact kept_pure name
    | cons label rest => exact hnode.bind fun _ => kept_pure name

/-- Registering a relationship keeps what declarations of its properties
keep. -/
theorem relationship (h : Keeps G fit) (left right : Option String)
    (types : LabelArgument) (name : Option String)
    (direction : Option Direction) (intent : Intent) (hfit : fit properties) :
    (onStore G).Kept
      (relationship left right types name direction intent properties) := by
  apply (h.endpoint left intent).bind
  intro left
  apply (h.endpoint right intent).bind
  intro right
  apply (resolve _ _ _).bind
  intro resolved
  refine h.declare (.relationship _ intent) ?_ fun _ => rfl
  exact hfit

/-- Registering a fragment keeps what declarations keep. -/
theorem raw (h : Keeps G fit) (text : String) (intent : Intent) :
    (onStore G).Kept (raw text intent) := by
  have hpush : (onStore G).Kept (modify fun r : Registry =>
      { r with store := r.store.push ⟨.raw text, intent⟩ } :
        Registration PUnit) := by
    intro r
    apply at_modify
    intro hr
    obtain ⟨hholds, hleads⟩ :=
      h.declaration (.raw text intent) r.store _ h.none rfl hr
    exact ⟨hholds, hleads, trivial⟩
  exact hpush.bind fun _ => kept_pure _

/-- Giving properties keeps what declarations of them keep. -/
theorem assign (h : Keeps G fit) (name : String) (intent : Intent)
    (hfit : fit properties) :
    (onStore G).Kept (assign name properties intent) := by
  apply kept_get_bind
  intro r
  apply at_lift_bind
  rintro ⟨e, s'⟩ hout
  have hdeclared : (Declaration.assign name properties intent).apply
      r.store = .ok s' :=
    Declaration.map_snd_eq_ok.mpr ⟨e, hout⟩
  refine At.bind (p := fun _ _ => True) (at_set fun hr =>
    ?_) fun _ t _ _ _ => kept_pure e t
  obtain ⟨hholds, hleads⟩ :=
    h.declaration (.assign name properties intent) _ _ hfit hdeclared hr
  exact ⟨hholds, hleads, trivial⟩

/-- Creating or merging a node keeps what declarations of its properties
keep. -/
theorem writtenNode (h : Keeps G fit) (writing : Writing)
    (labels : LabelArgument) (name : Option String) (hfit : fit properties) :
    (onStore G).Kept (writtenNode writing labels name properties) :=
  (kept_lift _).bind fun _ => h.node _ _ _ hfit

/-- Creating or merging a relationship keeps what declarations of its
properties keep. -/
theorem writtenRelationship (h : Keeps G fit) (writing : Writing)
    (left right : Option String) (types : LabelArgument)
    (name : Option String) (direction : Option Direction)
    (hfit : fit properties) :
    (onStore G).Kept (writtenRelationship writing left right types name
      direction properties) :=
  (kept_lift _).bind fun _ => h.relationship _ _ _ _ _ _ hfit

/-- **What every declaration keeps is kept by every call of a store**, also
by one that fails. -/
theorem perform (h : Keeps G fit) (call : StoreCall Assignment)
    (hfit : fit call.properties) :
    (onStore G).Kept call.perform := by
  cases call with
  | matchNode => exact (h.node _ _ _ hfit).bind fun _ => kept_pure _
  | matchRelationship =>
    exact (h.relationship _ _ _ _ _ _ hfit).bind fun _ => kept_pure _
  | matchRaw | writeRaw => exact (h.raw _ _).bind fun _ => kept_pure _
  | writeNode => exact (h.writtenNode _ _ _ hfit).bind fun _ => kept_pure _
  | writeRelationship =>
    exact (h.writtenRelationship _ _ _ _ _ _ hfit).bind fun _ => kept_pure _
  | assign => exact (h.assign _ _ hfit).bind fun _ => kept_pure _
  | get | intentOf | chunk | size =>
    exact kept_get_bind fun r => kept_pure _ r

end Keeps

end GraphQuery.Pattern
