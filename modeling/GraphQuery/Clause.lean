/-!
# Clauses

A compiled query is a list of clauses.  A clause is written as its keyword
and its body, one without a body as its keyword alone, and a query as its
clauses side by side.
-/

namespace GraphQuery

/-- The kinds of clauses. -/
inductive ClauseKind where
  | match_
  | optionalMatch
  | where_
  | with_
  | call
  | unwind
  | create
  | merge
  | onMatchSet
  | onCreateSet
  | set
  | remove
  | delete
  | detachDelete
  | return_
  | orderBy
  | skip
  | limit
  | union
  deriving DecidableEq, Repr, Inhabited

/-- The keyword of a kind of clause. -/
def ClauseKind.keyword : ClauseKind → String
  | match_ => "MATCH"
  | optionalMatch => "OPTIONAL MATCH"
  | where_ => "WHERE"
  | with_ => "WITH"
  | call => "CALL"
  | unwind => "UNWIND"
  | create => "CREATE"
  | merge => "MERGE"
  | onMatchSet => "ON MATCH SET"
  | onCreateSet => "ON CREATE SET"
  | set => "SET"
  | remove => "REMOVE"
  | delete => "DELETE"
  | detachDelete => "DETACH DELETE"
  | return_ => "RETURN"
  | orderBy => "ORDER BY"
  | skip => "SKIP"
  | limit => "LIMIT"
  | union => "UNION"

/-- A clause of a compiled query. -/
structure Clause where
  kind : ClauseKind
  body : String := ""
  deriving DecidableEq, Repr, Inhabited

/-- The text of a clause. -/
def Clause.text (c : Clause) : String :=
  if c.body.isEmpty then c.kind.keyword else c.kind.keyword ++ " " ++ c.body

/-- The text of a compiled query. -/
def clausesText (clauses : List Clause) :
    String := " ".intercalate (clauses.map Clause.text)

end GraphQuery
