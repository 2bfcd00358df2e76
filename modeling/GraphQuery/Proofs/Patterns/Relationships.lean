import GraphQuery.Proofs.Patterns.Edges

/-!
# The relationships of a store

The relationships a store declares, in order and with their intents.  A node
changes none of them, and a relationship of a new name comes behind them,
with all it is described by (`relationships_of_edge`).  The types it is
given and those it gets need not be the same: a name is read off its first
type, or off the name it is given, and so are the types that stand there.
-/

namespace GraphQuery.Pattern

open GraphQuery.Computation

/-- An element that is a relationship. -/
def Element.relationship? : Element → Option Relationship
  | relationship r => some r
  | _ => none

/-- An entry that is a relationship, with its intent. -/
def Entry.relationship? (entry : Entry) : Option (Relationship × Intent) :=
  entry.element.relationship?.map fun r => (r, entry.intent)

/-- The relationships of a store with their intents, in the order of their
declaration. -/
def Store.relationships (s : Store) : List (Relationship × Intent) :=
  s.entries.filterMap Entry.relationship?

/-- An element of another rank is no relationship. -/
theorem Element.relationship?_of_rank {e : Element} (h : e.rank ≠ 2) :
    e.relationship? = none := by
  cases e with
  | relationship | misplaced => exact absurd rfl h
  | node | raw => rfl

/-- There are no relationships among raw fragments and nodes. -/
theorem filterMap_relationship?_of_rank {rank : Nat}
    (elements : List Element) (hrank : rank ≠ 2) :
    (elements.filter fun e => e.rank == rank).filterMap
      Element.relationship? = [] := by
  rw [List.filterMap_eq_nil_iff]
  intro e he
  have hsame : e.rank = rank := by simpa using (List.mem_filter.mp he).2
  exact Element.relationship?_of_rank (hsame ▸ hrank)

/-- The relationships are the elements of the last rank. -/
theorem filterMap_relationship?_last (elements : List Element) :
    (elements.filter fun e => e.rank == 2).filterMap Element.relationship? =
      elements.filterMap Element.relationship? := by
  rw [List.filterMap_filter]
  apply List.filterMap_congr
  intro e _
  by_cases hrank : e.rank = 2
  · rw [if_pos (by simpa using hrank)]
  · rw [if_neg (by simpa using hrank), Element.relationship?_of_rank hrank]

namespace Store

variable {s s' : Store}

/-- A view shows the relationships of its intents, in order. -/
theorem relationships_chunk (s : Store) (view : Chunk) :
    (s.chunk view).filterMap Element.relationship? =
      (s.relationships.filter fun known => view.intents.contains known.2).map
        Prod.fst := by
  rw [chunk, List.filterMap_append, List.filterMap_append,
    filterMap_relationship?_of_rank _ (by decide),
    filterMap_relationship?_of_rank _ (by decide),
    filterMap_relationship?_last, List.nil_append, List.nil_append,
    List.filterMap_map,
    List.filterMap_filter, relationships, List.filter_filterMap,
    List.map_filterMap]
  apply List.filterMap_congr
  intro entry _
  rw [Function.comp_apply, Entry.relationship?]
  cases entry.element.relationship? with
  | none => simp
  | some r => by_cases hview : entry.intent ∈ view.intents <;> simp [hview,
      Option.filter]

/-- If all relationships are declared with one intent, a view of that intent
shows all of them. -/
theorem relationships_chunk_of_intent {rs : List Relationship}
    {intent : Intent} {view : Chunk}
    (h : s.relationships = rs.map fun r => (r, intent))
    (hview : view.intents.contains intent = true) :
    (s.chunk view).filterMap Element.relationship? = rs := by
  have hshown : (rs.map fun r => (r, intent)).filter
      (fun known => view.intents.contains known.2) = rs.map fun r =>
        (r, intent) := by
    rw [List.filter_eq_self]
    intro known hknown
    obtain ⟨r, -, rfl⟩ := List.mem_map.mp hknown
    exact hview
  rw [relationships_chunk, h, hshown, List.map_map]
  exact List.map_id rs

namespace Indexed

/-- A known entry that is no relationship is replaced by another one. -/
theorem relationships_replace {name : String} {known entry : Entry}
    (h : s.Indexed) (hknown : s.find? name = some known)
    (hold : known.relationship? = none) (hnew : entry.relationship? = none) :
    (s.replace name entry).relationships = s.relationships := by
  rw [relationships, h.entries_replace, List.filterMap_map, relationships]
  apply List.filterMap_congr
  intro other hother
  dsimp only [Function.comp]
  by_cases hname : other.element.name? = some name
  · have hsame : s.find? name = some other :=
      h.find?_eq_some_iff.mpr ⟨hother, hname⟩
    obtain rfl : known = other := Option.some.inj (hknown.symm.trans hsame)
    rw [if_pos hname, hold, hnew]
  · rw [if_neg hname]

/-- A node leaves the relationships alone. -/
theorem relationships_of_node {name : String} {labels : List String}
    {properties : List Assignment} {intent : Intent} (h : s.Indexed)
    (hmakes : (Declaration.node name labels properties intent).Makes s s') :
    s'.relationships = s.relationships := by
  cases hmakes with
  | unnamed hname => cases hname
  | added hname hnew hentry =>
    cases hentry
    exact (List.filterMap_append ..).trans (List.append_nil _)
  | @extended own known entry hname hknown hentry =>
    obtain ⟨element, before⟩ := known
    cases element with
    | node n =>
      cases hentry
      exact h.relationships_replace hknown rfl rfl
    | relationship | raw | misplaced => cases hentry

/-- A relationship of a new name comes last. -/
theorem relationships_of_relationship {new : Relationship} {intent : Intent}
    (h : s.Indexed)
    (hmakes : (Declaration.relationship new intent).Makes s s')
    (hnew : ∀ known ∈ s.relationships, known.1.name ≠ new.name) :
    s'.relationships = s.relationships ++ [(new, intent)] := by
  cases hmakes with
  | unnamed hname => cases hname
  | added hname _ hentry =>
    cases hentry
    exact List.filterMap_append ..
  | @extended own known entry hname hknown hentry =>
    cases hname
    obtain ⟨element, before⟩ := known
    cases element with
    | relationship r =>
      obtain ⟨hmem, hown⟩ := h.find?_eq_some_iff.mp hknown
      exact absurd (Option.some.inj hown)
        (hnew (r, before) (List.mem_filterMap.mpr ⟨_, hmem, rfl⟩))
    | node | raw | misplaced => cases hentry

end Indexed

end Store

/-! ## What a relationship is described by -/

/-- The types a relationship is given, without the markers of the first one. -/
def typesGiven (types : LabelArgument) : List String :=
  (LabelArgument.many (extractDirection types.labels).1).labels

/-- The types a relationship gets: those of the token its name stands in
take its place. -/
def typesRead (types : LabelArgument) (name : Option String) : List String :=
  (explicitName (typesGiven types) name).2

/-- The direction of a relationship: the given one, or the marked one, or
from left to right. -/
def arrow (types : LabelArgument) (direction : Option Direction) :
    Direction :=
  (direction <|> (extractDirection types.labels).2).getD .leftToRight

/-- The token the name of a relationship is looked for in: the name it is
given, or its first type. -/
def nameToken (types : LabelArgument) (name : Option String) : String :=
  let given := Text.trimmed (name.getD "")
  if given.isEmpty then (typesGiven types).head?.getD "" else given

/-- The labels that are read are those beside the name. -/
theorem decode_labels (sort : ElementSort) (given : LabelArgument)
    (name : Option String) (names : NameSequence) :
    (decode sort given name names).1.2 =
      (explicitName given.labels name).2 := by
  rcases explicitName_cases given name with htold | ⟨first, others, hlabel⟩ |
      hnothing
  · rw [decode_of_told htold]
  · rw [decode_of_label hlabel, hlabel]
  · rw [decode_of_nothing hnothing, hnothing]

/-- A relationship has the types that are read for it. -/
theorem StoreCall.types_relationshipGiven (left right : Option String)
    (given : LabelArgument) (name : Option String)
    (direction : Option Direction) (intent : Intent)
    (properties : List Assignment) (names : NameSequence) :
    (relationshipGiven left right given name direction intent
      properties names).types =
      typesRead given name := by
  unfold relationshipGiven
  dsimp only
  rw [decode_labels, typesRead, typesGiven]

/-- A relationship gets the types it is given, if its name stands in a token
without a colon. -/
theorem typesRead_eq_of_noColon {types : LabelArgument}
    {name : Option String} (h : ':' ∉ (nameToken types name).toList) :
    typesRead types name = typesGiven types := by
  have htold := explicit_explicitName (typesGiven types) name
  rw [nameToken] at h
  rw [typesRead]
  generalize explicitName (typesGiven types) name = told at htold ⊢
  generalize typesGiven types = given at h htold ⊢
  cases htold with
  | nothing => rfl
  | label => rfl
  | token hblank hembedded =>
    rw [if_pos hblank] at h
    exact absurd (colon_of_embedded hembedded) h
  | name => rfl
  | labelled hgiven hembedded =>
    rw [hgiven, if_neg Bool.false_ne_true] at h
    exact absurd (colon_of_embedded hembedded) h

/-- Beside a plain name all types are read as they are given. -/
theorem typesRead_some_of_plain {name : String} (h : Plain name)
    (types : LabelArgument) :
    typesRead types (some name) = typesGiven types := by
  apply typesRead_eq_of_noColon
  rw [nameToken, Option.getD_some, h.trimmed_eq, h.isEmpty_eq]
  exact h.noColon

/-- **What an edge declares.**  An edge between plain ends, of a name that
no relationship has, is a relationship behind all others. -/
theorem relationships_of_edge {r s : Registry} {left right : String}
    {types : LabelArgument} {name : Option String}
    {direction : Option Direction} {optional : Bool} {answer : StoreAnswer}
    (hr : r.store.Indexed) (hleft : Plain left) (hright : Plain right)
    (hnew : ∀ known ∈ r.store.relationships,
      known.1.name ≠ relationshipName types name r.names)
    (h : exec (StoreCall.matchRelationship (some left)
      (some right) types name direction
      optional).perform r = (.ok answer, s)) :
    s.store.relationships = r.store.relationships ++
      [({ name := relationshipName types name r.names, left, right, types :=
        typesRead types name
          direction := arrow types direction }, .matching optional)] := by
  have happly := StoreCall.applyAll_of_perform h
  rw [StoreCall.declarations, relationshipDeclarations] at happly
  rw [endDeclarations_of_plain hleft] at happly
  dsimp only at happly
  rw [endDeclarations_of_plain hright, List.append_nil, List.nil_append,
    Store.applyAll_singleton,
    decode_labels] at happly
  have hadded :=
    hr.relationships_of_relationship (Declaration.makes_of_apply happly)
  dsimp only at hadded
  unfold relationshipName at hnew
  exact hadded hnew

end GraphQuery.Pattern
