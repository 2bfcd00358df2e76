import GraphQuery.Clause
import GraphQuery.Filter.Text
import GraphQuery.Query

/-!
# Compiling a query

A pass turns one aspect of a query into clauses, and a composition is a list
of passes.  The queries nested in a query enter it by compositions of their
own: called as a sub-query, as the body of a predicate, or as the second
part of a union.  A pass only ever looks at one query, in which the nested
ones are given by the clauses that a composition makes of them.
-/

namespace GraphQuery

/-- The passes clauses are made by. -/
inductive Pass where
  /-- What is matched; only the strict matches if `strict`. -/
  | matching (strict : Bool)
  /-- The import of the outer scope into a sub-query. -/
  | importing
  | calling
  | filtering
  | creating
  | merging
  | setting
  | removing
  | deleting
  | returning
  | uniting
  deriving DecidableEq, Repr, Inhabited

namespace Pass

/-- The name of a pass. -/
def name : Pass → String
  | matching strict => if strict then "match_strict" else "match"
  | importing => "with_all"
  | calling => "call"
  | filtering => "where"
  | creating => "create"
  | merging => "merge"
  | setting => "set"
  | removing => "remove"
  | deleting => "delete"
  | returning => "return"
  | uniting => "union"

/-- All passes. -/
def all : List Pass :=
  [matching false, matching true, importing, calling, filtering, creating,
    merging, setting, removing,
   deleting, returning, uniting]

/-- The pass of a given name. -/
def ofName? (s : String) : Option Pass := all.find? fun pass => pass.name == s

/-- A pass is read back from its name. -/
theorem ofName?_name (p : Pass) : ofName? p.name = some p := by
  cases p with
  | matching strict => cases strict <;> rfl
  | _ => rfl

end Pass

/-- A list of passes. -/
abbrev Composition := List Pass

namespace Composition

/-- Every aspect of a query, in canonical order. -/
def full : Composition :=
  [.matching false, .calling, .filtering, .merging, .creating, .setting,
    .removing, .deleting,
   .returning, .uniting]

/-- The body of a called sub-query. -/
def subQuery : Composition :=
  [.importing, .matching false, .calling, .filtering, .returning]

/-- The body of a predicate on a nested query. -/
def predicate : Composition :=
  [.matching false, .calling, .filtering, .returning]

end Composition

/-- What a nested query is given by: the clauses that a composition makes of
it.  Nothing is made of a query before a pass asks for it, and nothing that
follows a failure is made at all. -/
abbrev Nested := Composition → Except Fault (List Clause)

namespace Pass

/-- The texts of pattern elements, joined by commas. -/
def joined (elements : List Pattern.Element) : Except Fault String := do
  return ",".intercalate (← elements.mapM Pattern.Element.text)

/-- The texts of items to set, joined by commas. -/
def joinedSets (items : List SetItem) : Except Fault String := do
  return ",".intercalate (← items.mapM SetItem.text)

/-- A clause of a kind with a computed body. -/
def clause (kind : ClauseKind) (body : Except Fault String) :
    Except Fault (List Clause) := do
  return [⟨kind, ← body⟩]

/-- A clause that stands only if a condition holds. -/
def clauseIf (condition : Bool) (kind : ClauseKind)
    (body : Except Fault String) :
    Except Fault (List Clause) :=
  if condition then clause kind body else .ok []

/-- The strict matches together, then each optional match on its own. -/
def matchClauses (strict : Bool) (c : Content) :
    Except Fault (List Clause) := do
  let needed := c.pattern.chunk .matchedStrictly
  let first ← clauseIf (!needed.isEmpty) .match_ (joined needed)
  if strict then return first
  let others ← (c.pattern.chunk .matchedOptionally).mapM fun element => do
    return Clause.mk .optionalMatch (← element.text)
  return first ++ others

/-- The elements created, for each row of a batch if there is one. -/
def createClauses (c : Content) : Except Fault (List Clause) := do
  let created := c.pattern.chunk .created
  if created.isEmpty then return []
  let rows := c.batchCreate.toList.map fun batch =>
    Clause.mk .unwind
      ("$" ++ batch.name ++ " AS " ++ Text.identifier c.batchVariable)
  return rows ++ (← clause .create (joined created))

/-- The elements merged, then what is set on those found and on those
created. -/
def mergeClauses (c : Content) : Except Fault (List Clause) := do
  let merged := c.pattern.chunk .merged
  if merged.isEmpty then return []
  let merge ← clause .merge (joined merged)
  let found ← clauseIf (!c.onMatch.isEmpty) .onMatchSet (joinedSets c.onMatch)
  let created ← clauseIf (!c.onCreate.isEmpty) .onCreateSet
      (joinedSets c.onCreate)
  return merge ++ found ++ created

/-- The number of digits a number is written with at most. -/
def maxDigits : Nat := 4300

/-- A number of rows as the body of a clause. -/
def rowsText (rows : Int) : Except Fault String :=
  if (toString rows.natAbs).length ≤ maxDigits then .ok (toString rows)
  else .error (.tooManyDigits maxDigits)

/-- The projection, the order and the page.  Skipping no rows is not
written, a limit of no rows is. -/
def returnClauses (c : Content) : Except Fault (List Clause) := do
  let projection ← clauseIf (!c.returns.isEmpty) .return_ do
    let items := ", ".intercalate (← Expression.texts c.returns)
    return if c.distinct then "DISTINCT " ++ items else items
  let order ← clauseIf (!c.orderBy.isEmpty) .orderBy do
    let items := ",".intercalate (← Expression.texts c.orderBy)
    return if c.order = .descending then items ++ " DESC" else items
  let skip ← (c.skip.toList.filter fun rows => rows != 0).mapM fun rows => do
    return Clause.mk .skip (← rowsText rows)
  let limit ← c.limit.toList.mapM
      fun rows => do return Clause.mk .limit (← rowsText rows)
  return projection ++ order ++ skip ++ limit

/-- The text of a nested query. -/
def nestedText (composition : Composition) (nested : Nested) :
    Except Fault String := do
  return clausesText (← nested composition)

/-- The text of a list of filters. -/
def filtersText (filters : List (Filter Nested)) : Except Fault String :=
  Filter.listText (nestedText .predicate) filters

/-- The clauses a pass makes of a query. -/
def clauses (pass : Pass) (s : Structure Nested) :
    Except Fault (List Clause) :=
  match pass with
  | matching strict => matchClauses strict s.toContent
  | importing => .ok [⟨.with_, "*"⟩]
  | calling => s.subQueries.mapM fun nested => do
    return ⟨.call, Filter.braced (← nestedText .subQuery nested)⟩
  | filtering => clauseIf (!s.wheres.isEmpty) .where_ (filtersText s.wheres)
  | creating => createClauses s.toContent
  | merging => mergeClauses s.toContent
  | setting => clauseIf (!s.sets.isEmpty) .set (joinedSets s.sets)
  | removing => clauseIf (!s.removes.isEmpty) .remove do
    return ",".intercalate (← s.removes.mapM RemoveItem.text)
  | deleting =>
    clauseIf (!s.deletes.isEmpty)
      (if s.forceDelete then .detachDelete else .delete) do
      return ",".intercalate (← Expression.texts s.deletes)
  | returning => returnClauses s.toContent
  | uniting =>
    match s.union with
    | none => .ok []
    | some second => do return ⟨.union, ""⟩ :: (← second .full)

end Pass

/-- The clauses a composition makes of a query, those of one pass after
those of the other. -/
def Composition.clauses (composition : Composition) (s : Structure Nested) :
    Except Fault (List Clause) := do
  return (← composition.mapM fun pass => pass.clauses s).flatten

/-- A query inside another one. -/
def Nested.ofStructure (s : Structure Nested) : Nested := fun composition =>
    composition.clauses s

namespace Query

/-- The text of a list of filters. -/
def filtersText (filters : List (Filter Query)) : Except Fault String :=
  Pass.filtersText (foldFilters Nested.ofStructure filters)

/-- Compile a query. -/
def compile (q : Query) (composition : Composition := .full) :
    Except Fault (List Clause) :=
  q.fold Nested.ofStructure composition

end Query

/-- The compositions for the operations a query is run for. -/
inductive QueryKind where
  | read
  | create
  | set
  | merge
  | delete
  | remove
  | full
  deriving DecidableEq, Repr, Inhabited

namespace QueryKind

/-- The name of an operation. -/
def name : QueryKind → String
  | read => "read"
  | create => "create"
  | set => "set"
  | merge => "merge"
  | delete => "delete"
  | remove => "remove"
  | full => "full"

/-- All operations. -/
def all : List QueryKind := [read, create, set, merge, delete, remove, full]

/-- The operation of a given name. -/
def ofName? (s : String) : Option QueryKind := all.find? fun kind =>
    kind.name == s

/-- A kind of query is read back from its name. -/
theorem ofName?_name (k : QueryKind) : ofName? k.name = some k := by
  cases k <;> rfl

/-- The passes an operation needs.  Only strict matches are matched for
writing. -/
def composition : QueryKind → Composition
  | read => [.matching false, .calling, .filtering, .returning]
  | create => [.matching true, .calling, .filtering, .creating]
  | set => [.matching true, .calling, .filtering, .setting]
  | merge => [.matching false, .filtering, .calling, .merging]
  | delete => [.matching false, .filtering, .calling, .deleting]
  | remove => [.matching true, .calling, .filtering, .removing]
  | full => .full

end QueryKind

end GraphQuery
