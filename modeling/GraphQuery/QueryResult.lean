import GraphQuery.Fault

/-!
# Query results

What the database answers a query with: its records, and counters of what
the query changed.
-/

namespace GraphQuery

/-- The answer to a query. -/
structure QueryResult where
  records : List Record := []
  /-- The counters of the summary, if there is a summary. -/
  summary : Option (List (String × Value)) := none
  deriving Inhabited

namespace QueryResult

/-- A column of a record; null if it has none of that name. -/
def column (record : Record) (key : String) :
    Value := (record.lookup key).getD .null

/-- The first column of a record; null if it has none. -/
def firstColumn (record : Record) : Value :=
  match record with
  | [] => .null
  | entry :: _ => entry.2

/-- The first record. -/
def first (r : QueryResult) : Except Fault Record :=
  match r.records with
  | [] => .error .noRecord
  | record :: _ => .ok record

/-- A column of the first record, the first one if none is named. -/
def value (r : QueryResult) (key : Option String) : Except Fault Value := do
  let record ← r.first
  return match key with
    | some key => column record key
    | none => firstColumn record

/-- A column of every record. -/
def pluck (r : QueryResult) (key : String) : List Value :=
  r.records.map (column · key)

/-- Whether a value is a number other than zero, where true counts as one. -/
def isPositiveCount : Value → Bool
  | .int i => i != 0
  | .bool b => b
  | _ => false

/-- The counters that are not zero. -/
def counters (r : QueryResult) : List (String × Value) :=
  (r.summary.getD []).filter fun entry => isPositiveCount entry.2

end QueryResult

end GraphQuery
