import GraphQuery.Proofs.Compiling.Kinds

/-!
# Reading compiles no writes

What a query writes can be erased from it: the elements it creates or
merges, the items it sets and removes, what it deletes, its batch and the
query it is united with.  To erase it also from the queries nested in a
query is `Query.erased`; to erase it from these alone is
`Query.nestedErased`.

A pass that reads makes the same clauses of a query and of what is left
after erasing (`Pass.clauses_readOnly`), and of the nested queries a pass
only sees what they compile to as a called sub-query, as the body of a
predicate and as the second part of a union (`Pass.clauses_congr`).  Both
compositions a nested query is read with consist of passes that read, so
`Query.compile_erased` follows by induction on the nesting.
-/

namespace GraphQuery

namespace Pattern

/-- Whether an element is declared to be written. -/
def Intent.isWritten : Intent → Bool
  | toMatch | toMatchOptionally => false
  | toMerge | toCreate => true

namespace Store

/-- Append an entry, under its name if it has one. -/
def append (s : Store) (entry : Entry) : Store :=
  match entry.element.name? with
  | some name => s.pushNamed name entry
  | none => s.push entry

/-- The store of the elements that are only matched. -/
def readOnly (s : Store) : Store :=
  (s.entries.filter fun entry => !entry.intent.isWritten).foldl append {}

/-- Appending an entry puts it last. -/
theorem entries_append (s : Store) (entry : Entry) :
    (s.append entry).entries = s.entries ++ [entry] := by
  unfold append
  split <;> rfl

/-- Appending entries puts them last, in order. -/
theorem entries_foldl_append (entries : List Entry) (s : Store) :
    (entries.foldl append s).entries = s.entries ++ entries := by
  induction entries generalizing s with
  | nil => exact (List.append_nil s.entries).symm
  | cons entry rest ih => rw [List.foldl_cons, ih, entries_append,
      List.append_assoc]; rfl

/-- What is left of a store are the entries that are not written. -/
theorem entries_readOnly (s : Store) :
    s.readOnly.entries = s.entries.filter fun entry =>
      !entry.intent.isWritten := by
  rw [readOnly, entries_foldl_append]
  rfl

/-- A view of matched elements does not show those that are written. -/
theorem chunk_readOnly (s : Store) {view : Chunk}
    (hview : ∀ intent ∈ view.intents, intent.isWritten = false) :
    s.readOnly.chunk view = s.chunk view := by
  have hboth : ∀ entry : Entry,
      (view.intents.contains entry.intent && !entry.intent.isWritten) =
      view.intents.contains entry.intent := by
    intro entry
    by_cases hmem : entry.intent ∈ view.intents
    · rw [hview _ hmem, Bool.not_false, Bool.and_true]
    · rw [List.contains_eq_mem, decide_eq_false hmem, Bool.false_and]
  have hentries : s.readOnly.entries.filter (fun entry =>
      view.intents.contains entry.intent) =
      s.entries.filter fun entry => view.intents.contains entry.intent := by
    rw [entries_readOnly, List.filter_filter]
    exact List.filter_congr fun entry _ => hboth entry
  rw [chunk, hentries, chunk]

end Store

end Pattern

/-! ### Erasing what is written -/

/-- What a query holds, without what it writes. -/
def Content.readOnly (c : Content) : Content :=
  { c with
    pattern := c.pattern.readOnly
    sets := []
    onMatch := []
    onCreate := []
    deletes := []
    forceDelete := false
    removes := []
    batchCreate := none }

/-- A query without what it writes itself and without the query it is united
with. -/
def Structure.readOnly {β : Type} (s : Structure β) : Structure β :=
  { s with toContent := s.toContent.readOnly, union := none }

namespace Query

/-- A query without what it writes, at any depth. -/
def erased (q : Query) : Query := q.fold fun s => s.readOnly.toQuery

mutual

/-- A query whose nested queries are without what they write.  The query it
is united with is not nested in that sense, but those nested in it are. -/
def nestedErased : Query → Query
  | mk content wheres subQueries union =>
    mk content (Filter.mapAll erased wheres) (subQueries.map erased)
    (nestedErasedOption union)

/-- `nestedErased` on a query that may be missing. -/
def nestedErasedOption : Option Query → Option Query
  | none => none
  | some query => some (nestedErased query)

end

end Query

/-! ### A fold opens a query by one level at a time -/

namespace Query

variable {α : Type} (f : Structure α → α)

mutual

/-- Folding a filter folds the queries in it. -/
theorem foldFilter_eq_map : ∀ filter : Filter Query, foldFilter f filter =
    filter.map (fold f)
  | .compare .. | .compareProperties .. | .isNull .. | .raw .. | .misplaced
      _ => rfl
  | .exists .. | .count .. => rfl
  | .group filters negate chain => by
    rw [foldFilter, Filter.map, foldFilters_eq_mapAll filters]

/-- Folding filters folds the queries in them. -/
theorem foldFilters_eq_mapAll :
    ∀ filters : List (Filter Query),
      foldFilters f filters = Filter.mapAll (fold f) filters
  | [] => rfl
  | filter :: rest => by
    rw [foldFilters, Filter.mapAll, foldFilter_eq_map filter,
      foldFilters_eq_mapAll rest]

end

/-- Folding queries folds each of them. -/
theorem foldAll_eq_map (queries : List Query) :
    foldAll f queries = queries.map (fold f) := by
  induction queries with
  | nil => rfl
  | cons query rest ih => rw [foldAll, ih, List.map_cons]

/-- Folding a query that may be missing folds it if it is there. -/
theorem foldOption_eq_map (query : Option Query) :
    foldOption f query = query.map (fold f) := by
  cases query <;> rfl

/-- A query is folded by folding those nested in it first. -/
theorem fold_eq (q : Query) : q.fold f = f (q.structure.map (fold f)) := by
  cases q with
  | mk content wheres subQueries union =>
    rw [fold, foldFilters_eq_mapAll, foldAll_eq_map, foldOption_eq_map]
    rfl

/-- A query by its clauses. -/
def toNested (q : Query) : Nested := fun composition => q.compile composition

/-- The clauses of a query are made of those of the queries nested in it. -/
theorem compile_eq (q : Query) (composition : Composition) :
    q.compile composition = composition.clauses (q.structure.map toNested) :=
  congrFun (fold_eq Nested.ofStructure q) composition

/-- Erasing a query erases those nested in it too. -/
theorem structure_erased (q : Query) :
    q.erased.structure = q.structure.readOnly.map erased := by
  rw [erased, fold_eq]
  rfl

end Query

/-! ### What a pass sees of the queries nested in a query -/

namespace Filter

variable {β γ δ : Type}

/-- Another body leaves the chain operator of a filter. -/
theorem chain_map (f : β → γ) (filter : Filter β) :
    (filter.map f).chain = filter.chain := by
  cases filter <;> rfl

/-- Other bodies leave the number of filters. -/
theorem length_mapAll (f : β → γ) (filters : List (Filter β)) :
    (mapAll f filters).length = filters.length := by
  induction filters with
  | nil => rfl
  | cons filter rest ih => rw [mapAll, List.length_cons, List.length_cons, ih]

/-- Other bodies leave no filters where there were none. -/
theorem isEmpty_mapAll (f : β → γ) (filters : List (Filter β)) :
    (mapAll f filters).isEmpty = filters.isEmpty := by
  cases filters <;> rfl

mutual

/-- Bodies can be replaced twice at once. -/
theorem map_map (f : β → γ) (g : γ → δ) :
    ∀ filter : Filter β,
    (filter.map f).map g = filter.map fun b => g (f b)
  | compare .. | compareProperties .. | isNull .. | raw .. | misplaced _ =>
    rfl
  | .exists .. | count .. => rfl
  | group filters negate chain => by
      rw [map, map, map, mapAll_mapAll f g filters]

/-- The bodies of filters can be replaced twice at once. -/
theorem mapAll_mapAll (f : β → γ) (g : γ → δ) : ∀ filters : List (Filter β),
    mapAll g (mapAll f filters) = mapAll (fun b => g (f b)) filters
  | [] => rfl
  | filter :: rest => by
      rw [mapAll, mapAll, mapAll, map_map f g filter, mapAll_mapAll f g rest]

end

section

variable (nestedText : γ → Except Fault String) (f : β → γ)

mutual

/-- A filter with other bodies has the text with their texts. -/
theorem text_map : ∀ filter : Filter β, (filter.map f).text nestedText =
    filter.text fun b => nestedText (f b)
  | compare .. | compareProperties .. | isNull .. | raw .. | misplaced _ =>
    rfl
  | .exists .. | count .. => rfl
  | group filters negate chain => by
    rw [map, text, text, listText_mapAll filters, length_mapAll]

/-- The text of filters depends on the nested queries through their texts
alone. -/
theorem listText_mapAll :
    ∀ filters : List (Filter β), listText nestedText (mapAll f filters) =
    listText (fun b => nestedText (f b)) filters
  | [] => rfl
  | first :: rest => by
    rw [mapAll, listText, listText, text_map first, tailText_mapAll rest]

/-- The later filters of a list with other bodies are written with their
texts too. -/
theorem tailText_mapAll :
    ∀ filters : List (Filter β), tailText nestedText (mapAll f filters) =
    tailText (fun b => nestedText (f b)) filters
  | [] => rfl
  | filter :: rest => by
    rw [mapAll, tailText, tailText, text_map filter, tailText_mapAll rest,
      chain_map]

end

end

end Filter

/-- Two queries hold the same, and the queries nested in them compile to the
same wherever a pass asks for them. -/
structure Structure.CompilesLike (s t : Structure Nested) : Prop where
  content : s.toContent = t.toContent
  wheres : Filter.mapAll (Pass.nestedText .predicate) s.wheres =
    Filter.mapAll (Pass.nestedText .predicate) t.wheres
  subQueries : s.subQueries.map (Pass.nestedText .subQuery) =
    t.subQueries.map (Pass.nestedText .subQuery)
  union : (s.union.map fun second => second .full) =
    t.union.map fun second => second .full

namespace Pass

/-- Filters are written with what their bodies compile to as predicates. -/
theorem filtersText_eq (filters : List (Filter Nested)) :
    filtersText filters =
      Filter.listText id (Filter.mapAll (nestedText .predicate) filters) :=
  (Filter.listText_mapAll id (nestedText .predicate) filters).symm

/-- The clauses that call sub-queries of the given texts. -/
def callClauses (texts : List (Except Fault String)) :
    Except Fault (List Clause) :=
  texts.mapM fun text => do return ⟨.call, Filter.braced (← text)⟩

/-- A call is written with what the sub-query compiles to. -/
theorem clauses_calling (s : Structure Nested) :
    calling.clauses s =
      callClauses (s.subQueries.map (nestedText .subQuery)) := by
  rw [callClauses, List.mapM_map]
  rfl

/-- The clauses that unite a query with a second one. -/
def unionClauses : Option (Except Fault (List Clause)) →
    Except Fault (List Clause)
  | none => .ok []
  | some second => do return ⟨.union, ""⟩ :: (← second)

/-- A union is written with what the second query compiles to as a whole. -/
theorem clauses_uniting (s : Structure Nested) :
    uniting.clauses s = unionClauses (s.union.map fun second =>
      second .full) := by
  rw [clauses]
  cases s.union <;> rfl

/-- **A pass sees nothing else of the nested queries.** -/
theorem clauses_congr (pass : Pass) {s t : Structure Nested}
    (h : s.CompilesLike t) :
    pass.clauses s = pass.clauses t := by
  have hcontent := h.content
  cases pass with
  | calling => rw [clauses_calling, clauses_calling, h.subQueries]
  | uniting => rw [clauses_uniting, clauses_uniting, h.union]
  | filtering =>
    have hempty : s.wheres.isEmpty = t.wheres.isEmpty := by
      rw [← Filter.isEmpty_mapAll (nestedText .predicate), h.wheres,
        Filter.isEmpty_mapAll]
    simp only [clauses, filtersText_eq, h.wheres, hempty]
  | matching | importing | creating | merging | setting | removing
  | deleting | returning =>
    simp only [clauses, hcontent]

/-! ### The passes that read -/

/-- Whether a pass reads only. -/
def reads : Pass → Bool
  | matching _ | importing | calling | filtering | returning => true
  | creating | merging | setting | removing | deleting | uniting => false

/-- **A pass that reads does not look at what is written.** -/
theorem clauses_readOnly (pass : Pass) (hreads : pass.reads = true)
    (s : Structure Nested) :
    pass.clauses s.readOnly = pass.clauses s := by
  have hstrict : s.readOnly.pattern.chunk .matchedStrictly =
      s.pattern.chunk .matchedStrictly :=
    s.pattern.chunk_readOnly (by decide)
  have hoptional : s.readOnly.pattern.chunk .matchedOptionally =
      s.pattern.chunk .matchedOptionally :=
    s.pattern.chunk_readOnly (by decide)
  cases pass with
  | matching strict => simp only [clauses, matchClauses, hstrict, hoptional]
  | importing | calling | filtering | returning => rfl
  | creating | merging | setting | removing | deleting | uniting =>
    cases hreads

end Pass

/-- Whether a clause of a kind belongs to reading. -/
def ClauseKind.reads : ClauseKind → Bool
  | match_ | optionalMatch | where_ | with_ | call | return_ | orderBy
  | skip | limit => true
  | unwind | create | merge | onMatchSet | onCreateSet | set | remove
  | delete | detachDelete | union => false

/-- All clauses, if there are any, are of kinds that read. -/
abbrev OnlyReads (outcome : Except Fault (List Clause)) : Prop :=
  Ends (fun clauses => ∀ c ∈ clauses, c.kind.reads = true)
    (fun _ => True) outcome

namespace Pass

/-- A pass that reads makes clauses that read. -/
theorem reads_of_mem_kinds {pass : Pass} (hreads : pass.reads = true) :
    ∀ kind ∈ pass.kinds, kind.reads = true := by
  cases pass with
  | matching strict => exact List.all_eq_true.mp rfl
  | importing | calling | filtering | returning => decide
  | creating | merging | setting | removing | deleting | uniting =>
    cases hreads

/-- A pass that reads makes no other clauses, whatever the query. -/
theorem onlyReads_clauses (pass : Pass) (hreads : pass.reads = true)
    (s : Structure Nested) :
    OnlyReads (pass.clauses s) := by
  have hpass : pass ≠ .uniting := by
    rintro rfl
    cases hreads
  refine (pass.ofKinds_clauses hpass s).mono ?_ fun _ _ => trivial
  exact fun clauses hclauses c hc =>
    reads_of_mem_kinds hreads c.kind (hclauses c hc)

end Pass

namespace Composition

variable {s t : Structure Nested}

/-- Whether a composition consists of passes that read. -/
def reads (composition : Composition) : Bool := composition.all Pass.reads

/-- Queries that compile alike pass by pass do so as a whole. -/
theorem clauses_congr (composition : Composition) (h : s.CompilesLike t) :
    composition.clauses s = composition.clauses t := by
  have hpasses : (fun pass : Pass => pass.clauses s) = fun pass =>
      pass.clauses t := by
    funext pass
    exact pass.clauses_congr h
  rw [clauses, clauses, hpasses]

/-- **A composition that reads does not look at what is written.** -/
theorem clauses_readOnly {composition : Composition}
    (hreads : composition.reads = true) (s : Structure Nested) :
    composition.clauses s.readOnly = composition.clauses s := by
  have hpasses : (composition.mapM fun pass => pass.clauses s.readOnly) =
      composition.mapM fun pass => pass.clauses s := by
    induction composition with
    | nil => rfl
    | cons pass rest ih =>
      rw [reads, List.all_cons, Bool.and_eq_true] at hreads
      rw [List.mapM_cons, List.mapM_cons, pass.clauses_readOnly hreads.1,
        ih hreads.2]
  rw [clauses, clauses, hpasses]

/-- A composition of passes that read makes no other clauses. -/
theorem onlyReads_clauses {composition : Composition}
    (hreads : composition.reads = true) (s : Structure Nested) :
    OnlyReads (composition.clauses s) := by
  have heach : ∀ pass ∈ composition, OnlyReads (pass.clauses s) := by
    intro pass hpass
    exact pass.onlyReads_clauses (List.all_eq_true.mp hreads pass hpass) s
  refine (Ends.mapM heach).bind fun clauses hclauses => ?_
  intro c hc
  obtain ⟨made, hmade, hmem⟩ := List.mem_flatten.mp hc
  exact hclauses made hmade c hmem

end Composition

/-! ### Erasing in the nested queries -/

namespace Query

/-- The text of a query as the body of a predicate. -/
def predicateText (q : Query) : Except Fault String :=
  Pass.nestedText .predicate q.toNested

/-- The text of a query as a called sub-query. -/
def subQueryText (q : Query) : Except Fault String :=
  Pass.nestedText .subQuery q.toNested

/-- Queries that read alike as nested ones can stand for each other in any
query. -/
theorem compilesLike {s t : Structure Query}
    (hcontent : s.toContent = t.toContent)
    (hwheres : Filter.mapAll predicateText s.wheres =
      Filter.mapAll predicateText t.wheres)
    (hsubQueries : s.subQueries.map subQueryText =
      t.subQueries.map subQueryText)
    (hunion : (s.union.map fun second => second.compile .full) =
      t.union.map fun second => second.compile .full) :
    (s.map toNested).CompilesLike (t.map toNested) where
  content := hcontent
  wheres := by
    show Filter.mapAll _ (Filter.mapAll toNested s.wheres) =
      Filter.mapAll _ (Filter.mapAll toNested t.wheres)
    rw [Filter.mapAll_mapAll, Filter.mapAll_mapAll]
    exact hwheres
  subQueries := by
    show (s.subQueries.map toNested).map _ = (t.subQueries.map toNested).map _
    rw [List.map_map, List.map_map]
    exact hsubQueries
  union := by
    show (s.union.map toNested).map _ = (t.union.map toNested).map _
    rw [Option.map_map, Option.map_map]
    exact hunion

mutual

/-- Reading compiles an erased query like the query, by induction on the
nesting: the bodies in filters are compiled by `predicate` and the
sub-queries by `subQuery`, and both compositions read. -/
theorem compile_erased_of_reads (q : Query) {composition : Composition}
    (hreads : composition.reads = true) :
    q.erased.compile composition = q.compile composition := by
  match q with
  | mk content wheres subQueries union =>
    let s := (mk content wheres subQueries union).structure
    have hlike : ((s.readOnly.map erased).map toNested).CompilesLike
        (s.readOnly.map toNested) := by
      apply compilesLike
      · rfl
      · exact (Filter.mapAll_mapAll erased predicateText wheres).trans
          (predicateTexts_erased wheres)
      · exact List.map_map.trans (subQueryTexts_erased subQueries)
      · rfl
    calc (mk content wheres subQueries union).erased.compile composition
        = composition.clauses ((s.readOnly.map erased).map toNested) := by
          rw [compile_eq, structure_erased]
      _ = composition.clauses (s.readOnly.map toNested) :=
        composition.clauses_congr hlike
      _ = composition.clauses (s.map toNested) :=
          Composition.clauses_readOnly hreads (s.map toNested)
      _ = (mk content wheres subQueries union).compile composition :=
          (compile_eq _ composition).symm

/-- A predicate of an erased query has the text it had. -/
theorem predicateText_erased_in (filter : Filter Query) :
    filter.map (fun q => q.erased.predicateText) =
      filter.map predicateText := by
  match filter with
  | .exists body negate chain | .count body operator value chain =>
    have hreads : Composition.reads .predicate = true := rfl
    have hbody : body.erased.predicateText = body.predicateText := by
      simp only [predicateText, Pass.nestedText, toNested,
        compile_erased_of_reads body hreads]
    rw [Filter.map, Filter.map, hbody]
  | .group filters negate chain =>
    rw [Filter.map, Filter.map, predicateTexts_erased filters]
  | .compare .. | .compareProperties .. | .isNull .. | .raw .. | .misplaced
      _ => rfl

/-- The predicates in filters have the texts they had. -/
theorem predicateTexts_erased (filters : List (Filter Query)) :
    Filter.mapAll (fun q => q.erased.predicateText) filters =
      Filter.mapAll predicateText filters := by
  match filters with
  | [] => rfl
  | filter :: rest =>
    rw [Filter.mapAll, Filter.mapAll, predicateText_erased_in filter,
      predicateTexts_erased rest]

/-- Sub-queries have the texts they had. -/
theorem subQueryTexts_erased (queries : List Query) :
    queries.map (fun q => q.erased.subQueryText) =
      queries.map subQueryText := by
  match queries with
  | [] => rfl
  | query :: rest =>
    have hreads : Composition.reads .subQuery = true := rfl
    have hquery : query.erased.subQueryText = query.subQueryText := by
      simp only [subQueryText, Pass.nestedText, toNested,
        compile_erased_of_reads query hreads]
    rw [List.map_cons, List.map_cons, hquery, subQueryTexts_erased rest]

end

mutual

/-- A query whose nested queries are erased compiles as before. -/
theorem compile_nestedErased (q : Query) (composition : Composition) :
    q.nestedErased.compile composition = q.compile composition := by
  match q with
  | mk content wheres subQueries union =>
    rw [compile_eq, compile_eq]
    apply composition.clauses_congr
    apply compilesLike
    · rfl
    · exact (Filter.mapAll_mapAll erased predicateText wheres).trans
        (predicateTexts_erased wheres)
    · exact List.map_map.trans (subQueryTexts_erased subQueries)
    · exact compile_nestedErasedOption union .full

/-- A query that may be missing compiles as before when its nested queries
are erased. -/
theorem compile_nestedErasedOption (query : Option Query)
    (composition : Composition) :
    ((nestedErasedOption query).map fun q => q.compile composition) =
      query.map fun q => q.compile composition := by
  match query with
  | none => rfl
  | some q => exact congrArg some (compile_nestedErased q composition)

end

/-- **Reading compiles no writes.**  A query compiles for reading as if it
wrote nothing at any depth, and fails where that fails.  Whatever a query is
compiled for, what the queries nested in it write does not show.  What is
read is made of reading clauses alone. -/
theorem reading_compiles_no_writes (q : Query) :
    q.erased.compile QueryKind.read.composition =
      q.compile QueryKind.read.composition ∧
      (∀ kind : QueryKind,
        q.nestedErased.compile kind.composition =
          q.compile kind.composition) ∧
      ∀ clauses, q.compile QueryKind.read.composition = .ok clauses →
        ∀ c ∈ clauses, c.kind.reads = true := by
  have hreads : QueryKind.read.composition.reads = true := rfl
  refine ⟨q.compile_erased_of_reads hreads, fun kind =>
    q.compile_nestedErased _, ?_⟩
  intro clauses hclauses
  have honly : OnlyReads (q.compile QueryKind.read.composition) := by
    rw [compile_eq]
    exact Composition.onlyReads_clauses hreads _
  rw [hclauses] at honly
  exact honly

end Query

end GraphQuery
