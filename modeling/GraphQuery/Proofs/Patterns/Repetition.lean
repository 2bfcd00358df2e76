import GraphQuery.Proofs.Patterns.Intents
import GraphQuery.Proofs.Patterns.Relationships
import GraphQuery.Proofs.Patterns.Shelf

/-!
# Repeated calls

A call that registers an element under a name of its own can be made once
more at once.  The ends of a relationship have their labels and their intent
already, so declaring them again changes nothing at all.  The element itself
is given its properties a second time, and a map of properties that is
written twice is the same map.  So nobody sees whether a call was made once
or twice: `Shelf.named_registration_idempotent`.
-/

namespace GraphQuery.Pattern

open GraphQuery.Computation

/-! ## What one sees of a store -/

/-- Properties that are given a second time do not change the map. -/
theorem propertyTexts_again (before more : List Assignment) :
    propertyTexts (before ++ more ++ more) =
      propertyTexts (before ++ more) := by
  unfold propertyTexts
  rw [List.mapM_append, List.mapM_append]
  cases before.mapM Assignment.entry with
  | error fault => rfl
  | ok first =>
    cases more.mapM Assignment.entry with
    | error fault => rfl
    | ok second =>
      have hwritten : ∀ entries, putEntries (entries ++ second) [] =
          putEntries second (putEntries entries []) := fun entries =>
            List.foldl_append
      have htwice : putEntries (first ++ second ++ second) [] =
          putEntries (first ++ second) [] := by
        rw [hwritten, hwritten]
        exact putEntries_again (nodup_keys_putEntries List.nodup_nil)
      exact congrArg Except.ok htwice

/-- What one sees of an entry. -/
structure Face where
  name : Option String
  intent : Intent
  rank : Nat
  text : Except Fault String

def Entry.face (entry : Entry) : Face :=
  ⟨entry.element.name?, entry.intent, entry.element.rank, entry.element.text⟩

namespace Store

variable {s t : Store} {name : String} {known entry : Entry}

/-- What one sees of a store. -/
def faces (s : Store) : List Face := s.entries.map Entry.face

/-- Stores of the same faces are of one size. -/
theorem size_eq_of_faces (h : s.faces = t.faces) : s.size = t.size := by
  have hlength := congrArg List.length h
  rwa [faces, faces, List.length_map, List.length_map] at hlength

/-- The intent of a name is that of the face which has it. -/
theorem Indexed.intentOf?_eq_some_iff (h : s.Indexed) {intent : Intent} :
    s.intentOf? name = some intent ↔ ∃ face ∈ s.faces,
      face.name = some name ∧ face.intent = intent := by
  unfold intentOf? faces
  constructor
  · intro hintent
    obtain ⟨known, hknown, rfl⟩ := Option.map_eq_some_iff.mp hintent
    obtain ⟨hmem, hname⟩ := h.find?_eq_some_iff.mp hknown
    exact ⟨known.face, List.mem_map_of_mem hmem, hname, rfl⟩
  · rintro ⟨face, hface, hname, rfl⟩
    obtain ⟨known, hmem, rfl⟩ := List.mem_map.mp hface
    rw [h.find?_eq_some_iff.mpr ⟨hmem, hname⟩]
    rfl

/-- Stores of the same faces agree on the intent of a name. -/
theorem Indexed.intentOf?_eq_of_faces (hs : s.Indexed) (ht : t.Indexed)
    (h : s.faces = t.faces) (name : String) :
    s.intentOf? name = t.intentOf? name := by
  apply Option.ext
  intro intent
  rw [hs.intentOf?_eq_some_iff, ht.intentOf?_eq_some_iff, h]

/-- The texts of a view, read off what one sees. -/
theorem texts_chunk (s : Store) (view : Chunk) :
    (s.chunk view).map Element.text =
      let shown := s.faces.filter fun face =>
        view.intents.contains face.intent
      ((shown.filter fun face => face.rank == 0) ++
        (shown.filter fun face => face.rank == 1) ++
        shown.filter fun face => face.rank == 2).map Face.text := by
  unfold chunk faces
  simp only [List.filter_map, List.map_append, List.map_map]
  rfl

/-- An entry in whose place there is one that looks the same. -/
theorem Indexed.faces_replace (h : s.Indexed)
    (hknown : s.find? name = some known) (hface : entry.face = known.face) :
    (s.replace name entry).faces = s.faces := by
  unfold faces
  rw [h.entries_replace, List.map_map]
  apply List.map_congr_left
  intro old hold
  dsimp only [Function.comp_apply]
  split
  · next hname =>
    have hsame := h.find?_eq_some_iff.mpr ⟨hold, hname⟩
    rw [hknown] at hsame
    obtain rfl := Option.some.inj hsame
    exact hface
  · rfl

/-- An entry put in its own place changes nothing. -/
theorem replace_self (h : s.find? name = some known) :
    s.replace name known = s := by
  obtain ⟨i, hposition, hentry⟩ := Option.bind_eq_some_iff.mp h
  obtain ⟨hi, rfl⟩ := List.getElem?_eq_some_iff.mp hentry
  rw [replace, hposition]
  dsimp only
  rw [List.set_getElem_self]

end Store

/-! ## Declarations made again -/

/-- A declaration of a name that is known extends its entry. -/
theorem Declaration.apply_of_extend {d : Declaration} {s : Store}
    {name : String} {known entry : Entry} (hname : d.name? = some name)
    (hknown : s.find? name = some known)
    (hentry : d.extend known = some entry) :
    d.apply s = .ok (s.replace name entry) := by
  obtain ⟨element, intent⟩ := known
  cases d with
  | node | relationship =>
    cases hname
    cases element <;> cases hentry
    simp only [apply, Store.declareNode, Store.declareRelationship, hknown]
    rfl
  | assign =>
    cases hname
    cases hentry
    simp only [apply, Store.assign, hknown]
    rfl
  | raw => cases hname

/-- A label is there if it was or has been added. -/
theorem mem_extendLabels {labels more : List String} {label : String} :
    label ∈ extendLabels labels more ↔ label ∈ labels ∨ label ∈ more := by
  rw [extendLabels_eq, List.mem_append, List.mem_eraseDups, List.mem_filter]
  by_cases hlabel : label ∈ labels <;> simp [hlabel]

/-- Labels that are there are not added again. -/
theorem extendLabels_eq_self {labels more : List String} (h : more ⊆ labels) :
    extendLabels labels more = labels := by
  have hnone : more.filter (fun label => !labels.contains label) = [] := by
    rw [List.filter_eq_nil_iff]
    intro label hlabel
    simpa using h hlabel
  rw [extendLabels_eq, hnone]
  exact List.append_nil labels

/-- A node in a store that has an intent and certain labels. -/
def Store.Has (s : Store) (name : String) (labels : List String)
    (intent : Intent) : Prop :=
  ∃ n, s.find? name = some ⟨.node n, intent⟩ ∧ labels ⊆ n.labels

namespace Store

variable {s t : Store} {name : String} {labels : List String}
    {intent : Intent}
variable {properties : List Assignment} {d : Declaration}
    {ds : List Declaration}

/-- A node without properties that has its labels and its intent can be
declared without a change. -/
theorem Has.apply (h : s.Has name labels intent) :
    (Declaration.node name labels [] intent).apply s = .ok s := by
  obtain ⟨n, hknown, hlabels⟩ := h
  have hsame : (Declaration.node name labels [] intent).extend ⟨.node n,
      intent⟩ =
      some ⟨.node n, intent⟩ := by
    rw [Declaration.extend]
    dsimp only
    rw [extendLabels_eq_self hlabels, List.append_nil]
  rw [Declaration.apply_of_extend rfl hknown hsame, replace_self hknown]

/-- A node that is declared is there with its labels. -/
theorem Indexed.has_of_makes (hs : s.Indexed)
    (hmakes : (Declaration.node name labels properties intent).Makes s t) :
    t.Has name labels intent := by
  rcases hs.find?_of_makes_self hmakes rfl with
    ⟨-, entry, hentry, hfind⟩ | ⟨⟨element, before⟩, entry, -, hentry, hfind⟩
  · cases hentry
    exact ⟨_, hfind, List.Subset.refl labels⟩
  · cases element <;> cases hentry
    exact ⟨_, hfind, fun label hlabel => mem_extendLabels.mpr (.inr hlabel)⟩

/-- Labels are not taken away, and another declaration of the same intent
does not change it. -/
theorem Has.makes (h : s.Has name labels intent) (hs : s.Indexed)
    (hmakes : d.Makes s t) (hintent : d.intent = intent) :
    t.Has name labels intent := by
  obtain ⟨n, hknown, hlabels⟩ := h
  by_cases hname : d.name? = some name
  · rcases hs.find?_of_makes_self hmakes hname with
      ⟨hnone, -⟩ | ⟨known, entry, hfound, hentry, hfind⟩
    · rw [hnone] at hknown
      cases hknown
    · obtain rfl := Option.some.inj (hfound.symm.trans hknown)
      subst hintent
      cases d with
      | node =>
        cases hentry
        exact ⟨_, hfind, fun label hlabel =>
          mem_extendLabels.mpr (.inl (hlabels hlabel))⟩
      | assign =>
        cases hentry
        exact ⟨_, hfind, hlabels⟩
      | relationship | raw => cases hentry
  · exact ⟨n, (hs.find?_of_makes_of_ne hmakes hname).trans hknown, hlabels⟩

/-- It stays there through declarations of its intent. -/
theorem Has.applyAll (h : s.Has name labels intent) (hs : s.Indexed)
    (happly : s.applyAll ds = .ok t)
    (hintent : ∀ d ∈ ds, d.intent = intent) : t.Has name labels intent := by
  refine (applyAll_induction (fun u => u.Indexed ∧
    u.Has name labels intent) happly
    (fun d hd u v hmakes hu => ?_) ⟨hs, h⟩).2
  exact ⟨hu.1.of_makes hmakes, hu.2.makes hu.1 hmakes (hintent d hd)⟩

/-- Every node among such declarations is there in the end. -/
theorem Indexed.has_of_applyAll (hs : s.Indexed)
    (happly : s.applyAll ds = .ok t) (hintent : ∀ d ∈ ds, d.intent = intent)
    (hmem : .node name labels properties intent ∈ ds) :
    t.Has name labels intent := by
  induction ds generalizing s with
  | nil => cases hmem
  | cons d later ih =>
    obtain ⟨u, hd, hlater⟩ := applyAll_cons_eq_ok.mp happly
    have hmakes := Declaration.makes_of_apply hd
    have hu := hs.of_makes hmakes
    have hothers : ∀ d ∈ later, d.intent = intent :=
      fun d hmem => hintent d (List.mem_cons_of_mem _ hmem)
    rcases List.mem_cons.mp hmem with rfl | hlast
    · exact (hs.has_of_makes hmakes).applyAll hu hlater hothers
    · exact ih hu hlater hothers hlast

/-- Labelled ends that were declared can be declared again without a change. -/
theorem applyAll_of_has (h : ∀ d ∈ ds, ∃ name labels, d =
    .node name labels [] intent ∧
    s.Has name labels intent) : s.applyAll ds = .ok s := by
  induction ds with
  | nil => rfl
  | cons d later ih =>
    obtain ⟨name, labels, rfl, hhas⟩ := h d List.mem_cons_self
    exact applyAll_cons_eq_ok.mpr
      ⟨s, hhas.apply, ih fun d hmem => h d (List.mem_cons_of_mem _ hmem)⟩

end Store

/-- A declaration that says of its name what another one says, up to the
ends of a relationship. -/
inductive Declaration.Again : Declaration → Declaration → Prop
  | node (name : String) (labels : List String)
      (properties : List Assignment) (intent : Intent) :
    Again (.node name labels properties intent)
    (.node name labels properties intent)
  | relationship {new again : Relationship} (intent : Intent)
      (hname : again.name = new.name)
    (htypes : again.types = new.types)
    (hproperties : again.properties = new.properties) :
    Again (.relationship new intent) (.relationship again intent)

namespace Declaration

variable {d e : Declaration} {s t : Store} {known entry : Entry}

/-- The same declaration once more has the same name. -/
theorem Again.name? (h : d.Again e) : e.name? = d.name? := by
  cases h with
  | node => rfl
  | relationship intent hname => exact congrArg some hname

/-- What another declaration says is extended by it in the same way. -/
theorem Again.extend (h : d.Again e) (known : Entry) :
    e.extend known = d.extend known := by
  cases h with
  | node => rfl
  | relationship intent hname htypes hproperties =>
    unfold Declaration.extend
    dsimp only
    rw [htypes, hproperties]

/-- A node looks the same with labels and properties it has been given
before, the properties last. -/
theorem face_of_node {n : Node} {intent : Intent} {labels : List String}
    {more : List Assignment} (hlabels : labels ⊆ n.labels)
    (hproperties : more <:+ n.properties) :
    Entry.face ⟨.node { n with
      labels := extendLabels n.labels labels
      properties := n.properties ++ more }, intent⟩ = Entry.face ⟨.node n,
      intent⟩ := by
  have htext : propertyTexts (n.properties ++ more) =
      propertyTexts n.properties := by
    obtain ⟨before, hbefore⟩ := hproperties
    rw [← hbefore]
    exact propertyTexts_again before more
  unfold Entry.face Element.text Node.text
  dsimp only
  rw [extendLabels_eq_self hlabels, htext]
  rfl

/-- Types and properties that are there already do not change the face of a
relationship. -/
theorem face_of_relationship {r : Relationship} {intent : Intent}
    {types : List String} {more : List Assignment} (htypes : types ⊆ r.types)
    (hproperties : more <:+ r.properties) :
    Entry.face ⟨.relationship { r with
      types := extendLabels r.types types
      properties := r.properties ++ more },
      intent⟩ = Entry.face ⟨.relationship r, intent⟩ := by
  have htext : propertyTexts (r.properties ++ more) =
      propertyTexts r.properties := by
    obtain ⟨before, hbefore⟩ := hproperties
    rw [← hbefore]
    exact propertyTexts_again before more
  unfold Entry.face Element.text Relationship.text
  dsimp only
  rw [extendLabels_eq_self htypes, htext]
  rfl

/-- An entry that has just been added does not look different when it is
declared again. -/
theorem Again.face_of_entry? (h : d.Again e)
    (hentry : d.entry? = some entry) :
    ∃ twice, e.extend entry = some twice ∧ twice.face = entry.face := by
  rw [h.extend]
  cases h with
  | node name labels properties intent =>
    cases hentry
    exact ⟨_, rfl, face_of_node (List.Subset.refl labels) List.suffix_rfl⟩
  | @relationship new again intent =>
    cases hentry
    exact ⟨_, rfl,
      face_of_relationship (List.Subset.refl new.types) List.suffix_rfl⟩

/-- The same declaration once more does not change the face of its entry, of
whatever kind it is. -/
theorem Again.face_of_extend (h : d.Again e)
    (hentry : d.extend known = some entry) :
    ∃ twice, e.extend entry = some twice ∧ twice.face = entry.face := by
  rw [h.extend]
  obtain ⟨element, before⟩ := known
  cases h with
  | node name labels properties intent =>
    cases element <;> cases hentry
    exact ⟨_, rfl,
      face_of_node (fun label hlabel => mem_extendLabels.mpr (.inr hlabel))
      (List.suffix_append _ _)⟩
  | @relationship new again intent =>
    cases element <;> cases hentry
    exact ⟨_, rfl, face_of_relationship (fun label hlabel =>
      mem_extendLabels.mpr (.inr hlabel))
      (List.suffix_append _ _)⟩

/-- **What has just been declared looks the same when it is declared
again.** -/
theorem Again.apply (h : d.Again e) (hs : s.Indexed) (hmakes : d.Makes s t) :
    ∃ u, e.apply t = .ok u ∧ u.faces = t.faces := by
  have hname : ∃ name, d.name? = some name := by
    cases h <;> exact ⟨_, rfl⟩
  obtain ⟨name, hname⟩ := hname
  have hentry : ∃ entry twice, t.find? name = some entry ∧
      e.extend entry = some twice ∧ twice.face = entry.face := by
    rcases hs.find?_of_makes_self hmakes hname with
      ⟨-, entry, hentry, hfind⟩ | ⟨known, entry, -, hentry, hfind⟩
    · obtain ⟨twice, htwice, hface⟩ := h.face_of_entry? hentry
      exact ⟨entry, twice, hfind, htwice, hface⟩
    · obtain ⟨twice, htwice, hface⟩ := h.face_of_extend hentry
      exact ⟨entry, twice, hfind, htwice, hface⟩
  obtain ⟨entry, twice, hfind, htwice, hface⟩ := hentry
  have ht := hs.of_makes hmakes
  exact ⟨_, apply_of_extend (h.name?.trans hname) hfind htwice,
    ht.faces_replace hfind hface⟩

end Declaration

/-! ## Calls made again -/

/-- A name that is given, or made of a label, does not depend on the
anonymous names left. -/
theorem decode_eq_of_named {given : LabelArgument} {name : Option String}
    (h : explicitName given.labels name ≠ ("", [])) (sort : ElementSort)
    (names later : NameSequence) :
    (decode sort given name later).1 = (decode sort given name names).1 := by
  rcases explicitName_cases given name with htold | ⟨first, others, hlabel⟩ |
      hnothing
  · rw [decode_of_told htold, decode_of_told htold]
  · rw [decode_of_label hlabel, decode_of_label hlabel]
  · exact absurd hnothing h

/-- Nor do the ends that are declared. -/
theorem declared_endDeclarations (given : Option String) (intent : Intent)
    (names later : NameSequence) :
    (endDeclarations given intent later).declared =
      (endDeclarations given intent names).declared := by
  unfold endDeclarations
  cases given.filter fun text => !Text.isBlankText text with
  | none => rfl
  | some text =>
    dsimp only
    by_cases hnamed : explicitName LabelArgument.none.labels (some text) =
        ("", [])
    · rw [decode_labels, decode_labels, hnamed]
      dsimp only
      rw [List.isEmpty_nil, if_pos rfl, if_pos rfl]
    · rw [decode_eq_of_named hnamed .node names later]

namespace StoreCall

open Registration

variable {call : StoreCall Assignment} {r s : Registry} {answer : StoreAnswer}

/-- The ends of a relationship that have names are the same once more. -/
theorem both_eq (left right : Option String) (intent : Intent)
    (names later : NameSequence) :
    ends.both later left right intent =
      ends.both names left right intent := by
  unfold ends.both
  dsimp only
  rw [declared_endDeclarations left intent names later,
    declared_endDeclarations right intent
      (endDeclarations left intent names).names]

/-- A call registers an element under a name of its own: the name is given
or made of a label, and not one of the anonymous ones.  The ends of a
relationship may be anonymous. -/
def NamesItself (r : Registry) (call : StoreCall Assignment) : Prop :=
  ∃ naming ∈ call.namings r, naming.answer.isSome = true ∧
  naming.drawn = false

/-- A node that is told by itself is declared the same once more. -/
theorem again_of_node {given : LabelArgument} {name : Option String}
    (h : explicitName given.labels name ≠ ("", [])) (intent : Intent)
    (properties : List Assignment) (names later : NameSequence) :
    ∃ own again,
      (nodeDeclarations given name intent properties names).1 = [own] ∧
      (nodeDeclarations given name intent properties later).1 = [again] ∧
      own.Again again := by
  unfold nodeDeclarations
  dsimp only
  rw [decode_eq_of_named h .node names later]
  exact ⟨_, _, rfl, rfl, .node _ _ _ _⟩

section

variable {given : LabelArgument} {name : Option String}
    (left right : Option String)
variable (direction : Option Direction) (intent : Intent)
    (properties : List Assignment)
variable (names later : NameSequence)

/-- A relationship is declared behind its ends. -/
theorem relationshipDeclarations_eq :
    relationshipDeclarations left right given name direction intent
      properties names =
      ends.both names left right intent ++
        [.relationship (relationshipGiven left right given name direction
          intent properties names)
          intent] := rfl

/-- A relationship that is told by itself is declared the same once more. -/
theorem again_relationshipGiven
    (h : explicitName (typesGiven given) name ≠ ("", [])) :
    (Declaration.relationship
      (relationshipGiven left right given name direction intent
        properties names) intent).Again
    (.relationship (relationshipGiven left right given name direction intent
      properties later)
      intent) := by
  have hnamed : explicitName
      (LabelArgument.many (extractDirection given.labels).1).labels name ≠
      ("", []) := h
  have hsame := decode_eq_of_named hnamed .relationship
    (endDeclarations right intent
      (endDeclarations left intent names).names).names
    (endDeclarations right intent
      (endDeclarations left intent later).names).names
  unfold relationshipGiven
  dsimp only
  rw [hsame]
  exact .relationship intent rfl rfl rfl

/-- A relationship that is told by itself is declared the same once more
with its ends. -/
theorem again_of_relationship
    (h : explicitName (typesGiven given) name ≠ ("", [])) :
    ∃ own again,
      relationshipDeclarations left right given name direction intent
        properties names =
        ends.both names left right intent ++ [own] ∧
      relationshipDeclarations left right given name direction intent
        properties later =
        ends.both names left right intent ++ [again] ∧ own.Again again := by
  rw [relationshipDeclarations_eq, relationshipDeclarations_eq,
    both_eq left right intent names later]
  exact ⟨_, _, rfl, rfl, again_relationshipGiven left right direction intent
    properties names later h⟩

end

instance (r : Registry) (call : StoreCall Assignment) :
    Decidable (call.NamesItself r) :=
  decidable_of_iff ((call.namings r).any fun naming =>
    naming.answer.isSome && !naming.drawn) <| by
    simp [NamesItself, List.any_eq_true]

/-- What a call declares of itself when it is made again, and before that
its ends, as they were. -/
theorem NamesItself.again (h : call.NamesItself r) (later : NameSequence) :
    ∃ own again, call.declarations r.names = call.ends r.names ++ [own] ∧
      call.declarations later = call.ends r.names ++ [again] ∧
      own.Again again := by
  obtain ⟨naming, hnaming, hanswer, hdrawn⟩ := h
  have hnamed : ∀ {sort given name reply moment},
      naming = .decoded sort given name reply moment →
      explicitName given.labels name ≠ ("", []) := by
    rintro sort given name reply moment rfl hnone
    rw [(Naming.drawn_decoded_iff sort given name reply moment).mpr
      hnone] at hdrawn
    cases hdrawn
  cases call with
  | matchNode given name optional =>
    exact again_of_node (hnamed (List.mem_singleton.mp hnaming)) _ _ _ _
  | writeNode writing given name properties =>
    rw [namings] at hnaming
    split at hnaming
    · cases hnaming
    · exact again_of_node (hnamed (List.mem_singleton.mp hnaming)) _ _ _ _
  | matchRelationship =>
    obtain ⟨_, _, _, _, -, -, hdecoded⟩ :=
      exists_of_mem_relationshipNamings hnaming hanswer
    exact again_of_relationship _ _ _ _ _ _ _ (hnamed hdecoded)
  | writeRelationship =>
    rw [namings] at hnaming
    split at hnaming
    · cases hnaming
    · obtain ⟨_, _, _, _, -, -, hdecoded⟩ :=
        exists_of_mem_relationshipNamings hnaming hanswer
      exact again_of_relationship _ _ _ _ _ _ _ (hnamed hdecoded)
  | matchRaw | writeRaw | assign | get | intentOf | chunk | size =>
    cases hnaming

/-- What such a call declares has an intent. -/
theorem NamesItself.exists_intent (h : call.NamesItself r) :
    ∃ intent, call.intent? = some intent := by
  obtain ⟨naming, hnaming, -⟩ := h
  cases call with
  | get | intentOf | chunk | size => cases hnaming
  | _ => exact ⟨_, rfl⟩

/-- Where labels were given once, a step does not fail for want of them. -/
theorem error_of_labelsFor_given {α : Type} {operation : String}
    {given : LabelArgument} {f : List String → Registration α} {a : α}
    {t u : Registry} {fault : Fault}
    (h : exec ((liftM (given.labelsFor operation) : Registration
      (List String)) >>= f) r = (.ok a, s))
    (hfails : exec ((liftM (given.labelsFor operation) : Registration
      (List String)) >>= f) t = (.error fault, u)) :
    exec (f given.labels) t = (.error fault, u) := by
  rw [exec_labelsFor_bind] at h hfails
  split at h
  · cases h
  · next hlabels => rwa [if_neg hlabels] at hfails

/-- A call that is answered in one registry fails in another one only if a
declaration is rejected. -/
theorem stopsIn_of_answered {t u : Registry} {fault : Fault}
    (h : exec call.perform r = (.ok answer, s))
    (hfails : exec call.perform t = (.error fault, u)) :
    StopsIn (call.declarations t.names) t.store u.store fault := by
  cases call with
  | writeNode =>
    obtain ⟨e, _, hwrite, -⟩ := exec_bind_eq_ok.mp h
    have hnode := error_of_labelsFor_given hwrite (error_of_answer hfails)
    exact stopsIn_of_node hnode
  | writeRelationship =>
    obtain ⟨e, _, hwrite, -⟩ := exec_bind_eq_ok.mp h
    have hrelationship :=
      error_of_labelsFor_given hwrite (error_of_answer hfails)
    exact stopsIn_of_relationship hrelationship
  | matchNode => exact stopsIn_of_node (error_of_answer hfails)
  | matchRelationship =>
    exact stopsIn_of_relationship (error_of_answer hfails)
  | assign => exact stopsIn_of_assign (error_of_answer hfails)
  | matchRaw | writeRaw | get | intentOf | chunk | size => cases hfails

/-- **Nobody sees whether a call was made once or twice.**  A call that has
succeeded succeeds again at once if it registers an element under a name of
its own, and then the store looks as before.  The ends are there with all
their labels, so that declaring them again does nothing. -/
theorem NamesItself.repeat {t : Registry} (hnamed : call.NamesItself r)
    (hr : r.store.Indexed) (h : exec call.perform r = (.ok answer, s))
    (ht : t.store = s.store) :
    ∃ reply u, exec call.perform t = (.ok reply, u) ∧
    u.store.faces = s.store.faces := by
  obtain ⟨own, again, hfirst, hsecond, hagain⟩ := hnamed.again t.names
  have happly := applyAll_of_perform h
  have hends : t.store.applyAll (call.ends r.names) = .ok t.store := by
    obtain ⟨intent, hintent⟩ := hnamed.exists_intent
    have hall : ∀ d ∈ call.declarations r.names, d.intent = intent :=
      fun d hd => intent_of_mem_declarations hintent hd
    have hhas : ∀ d ∈ call.ends r.names, ∃ name labels,
        d = .node name labels [] intent ∧
        s.store.Has name labels intent := by
      intro d hd
      have hmem : d ∈ call.declarations r.names :=
        hfirst ▸ List.mem_append_left _ hd
      obtain ⟨name, labels, other, rfl, -⟩ := labelled_of_mem_ends hd
      obtain rfl : other = intent := hall _ hmem
      exact ⟨name, labels, rfl, hr.has_of_applyAll happly hall hmem⟩
    rw [ht]
    exact Store.applyAll_of_has hhas
  rw [hfirst] at happly
  obtain ⟨before, hdone, hown⟩ := Store.applyAll_append_eq_ok.mp happly
  rw [Store.applyAll_singleton] at hown
  obtain ⟨after, hmade, hfaces⟩ :=
    hagain.apply (hr.applyAll hdone) (Declaration.makes_of_apply hown)
  have htwice : t.store.applyAll (call.declarations t.names) = .ok after := by
    rw [hsecond]
    refine Store.applyAll_append_eq_ok.mpr ⟨t.store, hends, ?_⟩
    rw [Store.applyAll_singleton, ht, hmade]
  rcases hexec : exec call.perform t with ⟨fault | reply, u⟩
  · exact absurd htwice ((stopsIn_of_answered h hexec).applyAll_ne_ok after)
  · have hstore := applyAll_of_perform hexec
    rw [htwice] at hstore
    obtain rfl : after = u.store := Except.ok.inj hstore
    exact ⟨reply, u, rfl, hfaces⟩

end StoreCall

/-- **Named registration is idempotent.**  Whatever was done to a shelf, a
call that registers an element under a name of its own in one of its stores,
and succeeds, succeeds again at once.  Then the store has as many entries as
before and the same intent for every name, and every view of it has the same
texts in the same order. -/
theorem Shelf.named_registration_idempotent (names : NameSequence)
    (steps : List Step) {i : Nat} {call : StoreCall Assignment}
    (hi : i < (({ names } : Shelf).after steps).stores.size)
    (hnamed : call.NamesItself ((({ names } : Shelf).after steps).registry i))
    (hok : ((({ names } : Shelf).after steps).perform i call).1.isOk = true) :
    let once := ((({ names } : Shelf).after steps).perform i call).2
    let twice := (once.perform i call).2
    (once.perform i call).1.isOk = true ∧
      (twice.store i).size = (once.store i).size ∧
      (∀ name, (twice.store i).intentOf? name =
        (once.store i).intentOf? name) ∧
      ∀ view, ((twice.store i).chunk view).map Element.text =
        ((once.store i).chunk view).map Element.text := by
  intro once twice
  have hindexed := indexed_of_new names steps i
  have honce : (once.store i).Indexed :=
    (indexed_step (.call i call) hindexed).1
  have htwice : (twice.store i).Indexed :=
    (indexed_step (.call i call) honce).1
  rw [outcome_perform] at hok
  rcases hexec :
      exec call.perform ((({ names } : Shelf).after steps).registry i) with
    ⟨fault | answer, r⟩
  · rw [hexec] at hok
    cases hok
  · have hstore : once.store i = r.store :=
      (store_call_self hi).trans (congrArg (fun done => done.2.store) hexec)
    obtain ⟨reply, u, hreply, hfaces⟩ :=
      hnamed.repeat hindexed hexec (t := once.registry i) hstore
    have hsize : i < once.stores.size := by
      rw [stores_perform, Array.size_setIfInBounds]
      exact hi
    have hagain : twice.store i = u.store :=
      (store_call_self hsize).trans
        (congrArg (fun done => done.2.store) hreply)
    rw [← hstore, ← hagain] at hfaces
    refine ⟨?_, Store.size_eq_of_faces hfaces,
      htwice.intentOf?_eq_of_faces honce hfaces, fun view => ?_⟩
    · rw [outcome_perform, hreply]
      rfl
    · rw [Store.texts_chunk, Store.texts_chunk, hfaces]

/-- A relationship with a property, from a known node that gets a label more
to an anonymous one. -/
def membership : StoreCall Assignment :=
  .writeRelationship .merging (some "p:Member") none (.one "BELONGS") none
    [{ owner := "belongs", key := "since", value := .raw "1" }] none

/-- A relationship from a known node to an anonymous one is registered
twice. -/
theorem Shelf.named_registration_idempotent_of_membership :
    let s := ({ names := {} } : Shelf).after
      [.call 0 (.matchNode (.one "Person") (some "p") false)]
    let once := (s.perform 0 membership).2
    let twice := (once.perform 0 membership).2
    membership.NamesItself (s.registry 0) ∧
    (s.perform 0 membership).1.isOk = true ∧
      twice.names ≠ once.names ∧
      ((twice.store 0).chunk .merged).map Element.text =
        ((once.store 0).chunk .merged).map Element.text := by
  intro s once twice
  have hnamed : membership.NamesItself (s.registry 0) := by decide +kernel
  have hok : (s.perform 0 membership).1.isOk = true := by decide +kernel
  obtain ⟨-, -, -, htexts⟩ :=
    named_registration_idempotent {} _ (by decide +kernel) hnamed hok
  exact ⟨hnamed, hok, by decide +kernel, htexts .merged⟩

end GraphQuery.Pattern
