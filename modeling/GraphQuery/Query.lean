import GraphQuery.Filter
import GraphQuery.Pattern.Store

/-!
# Queries

A query is what a grammar needs to write it: a pattern with an entry,
filters, items to set, remove, delete and return, and the queries nested in
it.  Queries are nested as sub-queries, inside filters and as the second
part of a union.  `Structure β` is one query whose nested queries are given
by something of type `β`; `Query` closes the circle.
-/

namespace GraphQuery

/-- Ascending or descending order. -/
inductive Order where
  | ascending
  | descending
  deriving DecidableEq, Repr, Inhabited

namespace Order

/-- The keyword of an order. -/
def keyword : Order → String
  | ascending => "ASC"
  | descending => "DESC"

/-- The order of a keyword. -/
def ofKeyword? (s : String) : Option Order :=
  [ascending, descending].find? fun order => order.keyword == s

/-- An order is read back from its keyword. -/
theorem ofKeyword?_keyword (o : Order) : ofKeyword? o.keyword = some o := by
  cases o <;> rfl

/-- The order of a spelling, in any case. -/
def ofSpelling (spelling : String) : Except Fault Order :=
  match ofKeyword? (String.ofList (Text.asciiCapital spelling.toList)) with
  | some order => .ok order
  | none => .error (.unknownOrder spelling)

end Order

/-- What a query holds beside the queries nested in it. -/
structure Content where
  pattern : Pattern.Store := {}
  /-- The element that properties without a name belong to. -/
  entry : String
  returns : List Expression := []
  sets : List SetItem := []
  /-- What is set on elements a merge has found. -/
  onMatch : List SetItem := []
  /-- What is set on elements a merge has created. -/
  onCreate : List SetItem := []
  deletes : List Expression := []
  /-- Whether relationships are deleted together with their nodes. -/
  forceDelete : Bool := false
  removes : List RemoveItem := []
  orderBy : List Expression := []
  order : Order := .ascending
  skip : Option Int := none
  limit : Option Int := none
  distinct : Bool := false
  /-- The rows elements are created from, if there is a batch. -/
  batchCreate : Option Parameter := none
  /-- The row a batch is unwound to. -/
  batchVariable : String
  deriving Inhabited

/-- A query whose nested queries are given by something of type `β`. -/
structure Structure (β : Type) extends Content where
  wheres : List (Filter β) := []
  subQueries : List β := []
  union : Option β := none
  deriving Inhabited

/-- A query with all the queries nested in it. -/
inductive Query where
  | mk (content : Content) (wheres : List (Filter Query))
      (subQueries : List Query) (union : Option Query)

/-- The nesting of a query, opened by one level. -/
def Query.structure : Query → Structure Query
  | mk content wheres subQueries union =>
    { content with wheres, subQueries, union }

/-- A query put together from its parts. -/
def Structure.toQuery (s : Structure Query) : Query :=
  .mk s.toContent s.wheres s.subQueries s.union

instance : Inhabited Query := ⟨Structure.toQuery default⟩

namespace Structure

variable {β γ : Type}

/-- Replace what the nested queries are given by. -/
def map (f : β → γ) (s : Structure β) : Structure γ :=
  { s.toContent with
    wheres := Filter.mapAll f s.wheres
    subQueries := s.subQueries.map f
    union := s.union.map f }

end Structure

namespace Query

variable {α : Type}

mutual

/-- Compute something for a query from what is computed for the queries
nested in it. -/
def fold (f : Structure α → α) : Query → α
  | mk content wheres subQueries union =>
    f { content with
        wheres := foldFilters f wheres
        subQueries := foldAll f subQueries
        union := foldOption f union }

/-- `fold` on the query nested in a filter. -/
def foldFilter (f : Structure α → α) : Filter Query → Filter α
  | .compare left operator right chain => .compare left operator right chain
  | .compareProperties left operator right chain =>
    .compareProperties left operator right chain
  | .isNull subject negate chain => .isNull subject negate chain
  | .group filters negate chain => .group (foldFilters f filters) negate chain
  | .raw text chain => .raw text chain
  | .exists body negate chain => .exists (fold f body) negate chain
  | .count body operator value chain =>
    .count (fold f body) operator value chain
  | .misplaced kind => .misplaced kind

/-- `fold` on the queries nested in filters. -/
def foldFilters (f : Structure α → α) : List (Filter Query) → List (Filter α)
  | [] => []
  | filter :: rest => foldFilter f filter :: foldFilters f rest

/-- `fold` on a list of queries. -/
def foldAll (f : Structure α → α) : List Query → List α
  | [] => []
  | query :: rest => fold f query :: foldAll f rest

/-- `fold` on a query that may be missing. -/
def foldOption (f : Structure α → α) : Option Query → Option α
  | none => none
  | some query => some (fold f query)

end

end Query

end GraphQuery
