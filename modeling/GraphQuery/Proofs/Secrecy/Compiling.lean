import GraphQuery.Proofs.Secrecy.Blank
import GraphQuery.Builder.Workspace

/-!
# Compiling does not look at values

Two queries are alike if they hold the same but for the values of
parameters.  They compile to the same clauses, pass by pass
(`Pass.clauses_eq_of_like`) and so in any composition of passes
(`Composition.clauses_eq_of_like`).
-/

namespace GraphQuery

/-- Two contents are the same but for the values of parameters. -/
structure Content.Like (c d : Content) : Prop where
  pattern : c.pattern.blank = d.pattern.blank
  entry : c.entry = d.entry
  returns : c.returns.map Expression.blank = d.returns.map Expression.blank
  sets : c.sets.map SetItem.blank = d.sets.map SetItem.blank
  onMatch : c.onMatch.map SetItem.blank = d.onMatch.map SetItem.blank
  onCreate : c.onCreate.map SetItem.blank = d.onCreate.map SetItem.blank
  deletes : c.deletes.map Expression.blank = d.deletes.map Expression.blank
  forceDelete : c.forceDelete = d.forceDelete
  removes : c.removes = d.removes
  orderBy : c.orderBy.map Expression.blank = d.orderBy.map Expression.blank
  order : c.order = d.order
  skip : c.skip = d.skip
  limit : c.limit = d.limit
  distinct : c.distinct = d.distinct
  batchCreate : c.batchCreate.map Parameter.blank =
    d.batchCreate.map Parameter.blank
  batchVariable : c.batchVariable = d.batchVariable

/-- Two queries are the same but for the values of parameters; the queries
nested in them are the same. -/
structure Structure.Like {β : Type} (s t : Structure β) : Prop
    extends Content.Like s.toContent t.toContent where
  wheres : Filter.blankAll s.wheres = Filter.blankAll t.wheres
  subQueries : s.subQueries = t.subQueries
  union : s.union = t.union

/-- A query is like itself. -/
theorem Content.Like.refl (c : Content) : c.Like c := by
  constructor <;> rfl

/-- A query is like itself, with what is nested in it. -/
theorem Structure.Like.refl {β : Type} (s : Structure β) : s.Like s :=
  { Content.Like.refl s.toContent with
    wheres := rfl, subQueries := rfl, union := rfl }

/-- Like queries stay so with other bodies. -/
theorem Structure.Like.map {β γ : Type} {s t : Structure β} (h : s.Like t)
    (f : β → γ) :
    (s.map f).Like (t.map f) :=
  { h.toLike with
    wheres := by
      show Filter.blankAll (Filter.mapAll f s.wheres) =
          Filter.blankAll (Filter.mapAll f t.wheres)
      rw [← Filter.mapAll_blankAll, h.wheres, Filter.mapAll_blankAll]
    subQueries := by
      show s.subQueries.map f = t.subQueries.map f
      rw [h.subQueries]
    union := by
      show s.union.map f = t.union.map f
      rw [h.union] }

namespace Pattern

/-- Blanking leaves the rank of an element. -/
theorem Element.rank_blank (e : Element) : e.blank.rank = e.rank := by
  cases e <;> rfl

/-- A view of a blanked pattern lists the blanked elements. -/
theorem Store.chunk_blank (s : Store) (view : Chunk) :
    s.blank.chunk view = (s.chunk view).map Element.blank := by
  have helements : (s.blank.entries.filter fun entry =>
      view.intents.contains entry.intent).map
      Entry.element = ((s.entries.filter fun entry =>
          view.intents.contains entry.intent).map
        Entry.element).map Element.blank := by
    simp only [Store.blank, List.filter_map, List.map_map]
    rfl
  have hrank : ∀ n, (fun e : Element => e.rank == n) ∘ Element.blank =
      fun e => e.rank == n := by
    intro n
    funext e
    exact congrArg (· == n) e.rank_blank
  simp only [Store.chunk, helements, List.filter_map, hrank, List.map_append]

/-- Patterns that differ in values alone have views that do. -/
theorem Store.map_blank_chunk {s t : Store} (h : s.blank = t.blank)
    (view : Chunk) :
    (s.chunk view).map Element.blank = (t.chunk view).map Element.blank := by
  rw [← chunk_blank, h, chunk_blank]

end Pattern

namespace Pass

open Pattern

/-- Elements that differ in values alone are written alike. -/
theorem joined_eq_of_map_eq {es es' : List Element}
    (h : es.map Element.blank = es'.map Element.blank) :
    joined es = joined es' := by
  rw [joined, joined, mapM_eq_of_map_eq Element.text_blank h]

/-- Items that are set and differ in values alone are written alike. -/
theorem joinedSets_eq_of_map_eq {items items' : List SetItem}
    (h : items.map SetItem.blank = items'.map SetItem.blank) :
    joinedSets items = joinedSets items' := by
  rw [joinedSets, joinedSets, mapM_eq_of_map_eq SetItem.text_blank h]

variable {c d : Content}

/-- Like queries match alike. -/
theorem matchClauses_eq_of_like (h : c.Like d) (strict : Bool) :
    matchClauses strict c = matchClauses strict d := by
  have hchunk := Store.map_blank_chunk h.pattern
  let optional (e : Element) :
      Except Fault Clause := do return ⟨.optionalMatch, ← e.text⟩
  have hblank : ∀ e, optional e.blank = optional e := by
    intro e
    simp only [optional, e.text_blank]
  have hoptional := mapM_eq_of_map_eq hblank (hchunk .matchedOptionally)
  simp only [optional] at hoptional
  simp only [matchClauses, isEmpty_eq_of_map_eq (hchunk .matchedStrictly),
    joined_eq_of_map_eq (hchunk .matchedStrictly), hoptional]

/-- They create alike. -/
theorem createClauses_eq_of_like (h : c.Like d) :
    createClauses c = createClauses d := by
  have hchunk := Store.map_blank_chunk h.pattern .created
  have hrows : ∀ (batch : Option Parameter) (row : String),
      (batch.toList.map fun p =>
        Clause.mk .unwind ("$" ++ p.name ++ " AS " ++ row)) =
        (batch.map Parameter.blank).toList.map fun p =>
          Clause.mk .unwind ("$" ++ p.name ++ " AS " ++ row) := by
    intro batch row
    cases batch <;> rfl
  simp only [createClauses, isEmpty_eq_of_map_eq hchunk,
    joined_eq_of_map_eq hchunk,
    h.batchVariable]
  rw [hrows c.batchCreate, h.batchCreate, ← hrows d.batchCreate]

/-- They merge alike. -/
theorem mergeClauses_eq_of_like (h : c.Like d) :
    mergeClauses c = mergeClauses d := by
  have hchunk := Store.map_blank_chunk h.pattern .merged
  simp only [mergeClauses, isEmpty_eq_of_map_eq hchunk,
    joined_eq_of_map_eq hchunk,
    isEmpty_eq_of_map_eq h.onMatch, joinedSets_eq_of_map_eq h.onMatch,
    isEmpty_eq_of_map_eq h.onCreate, joinedSets_eq_of_map_eq h.onCreate]

/-- They return alike. -/
theorem returnClauses_eq_of_like (h : c.Like d) :
    returnClauses c = returnClauses d := by
  simp only [returnClauses, isEmpty_eq_of_map_eq h.returns,
    Expression.texts_eq_of_map_eq h.returns,
    isEmpty_eq_of_map_eq h.orderBy, Expression.texts_eq_of_map_eq h.orderBy,
    h.distinct, h.order,
    h.skip, h.limit]

/-- **A pass does not look at values.** -/
theorem clauses_eq_of_like (pass : Pass) {s t : Structure Nested}
    (h : s.Like t) :
    pass.clauses s = pass.clauses t := by
  cases pass with
  | matching strict => exact matchClauses_eq_of_like h.toLike strict
  | importing => rfl
  | calling => simp only [clauses, h.subQueries]
  | filtering =>
    have htext : filtersText s.wheres = filtersText t.wheres := by
      rw [filtersText, ← Filter.listText_blank, h.wheres,
        Filter.listText_blank, filtersText]
    have hempty : s.wheres.isEmpty = t.wheres.isEmpty := by
      rw [← Filter.isEmpty_blankAll, h.wheres, Filter.isEmpty_blankAll]
    simp only [clauses, htext, hempty]
  | creating => exact createClauses_eq_of_like h.toLike
  | merging => exact mergeClauses_eq_of_like h.toLike
  | setting =>
    simp only [clauses, isEmpty_eq_of_map_eq h.sets,
      joinedSets_eq_of_map_eq h.sets]
  | removing => simp only [clauses, h.removes]
  | deleting =>
    simp only [clauses, isEmpty_eq_of_map_eq h.deletes,
      Expression.texts_eq_of_map_eq h.deletes,
      h.forceDelete]
  | returning => exact returnClauses_eq_of_like h.toLike
  | uniting => simp only [clauses, h.union]

end Pass

/-- **Like queries compile alike**, by any composition. -/
theorem Composition.clauses_eq_of_like (composition : Composition)
    {s t : Structure Nested} (h : s.Like t) :
    composition.clauses s = composition.clauses t := by
  have hpasses : (fun pass : Pass => pass.clauses s) = fun pass =>
      pass.clauses t := by
    funext pass
    exact pass.clauses_eq_of_like h
  rw [clauses, clauses, hpasses]

end GraphQuery
