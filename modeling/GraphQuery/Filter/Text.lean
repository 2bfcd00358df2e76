import GraphQuery.Filter

/-!
# The text of a filter

A list of filters is written with the chain operators between the filters.
Comparisons and null checks never need parentheses, a group is put into them
when it holds more than one filter or is negated, and a condition given as
text always is.
-/

namespace GraphQuery.Filter

/-- A nested query between braces. -/
def braced (body : String) : String := "\x7b " ++ body ++ " \x7d"

variable {β : Type}

mutual

/-- The text of a filter, where `nestedText` is that of a nested query. -/
def text (nestedText : β → Except Fault String) :
    Filter β → Except Fault String
  | compare left spelling right _ => do
    let operator ← comparison "where" spelling
    let left ← left.text
    return left ++ " " ++ operator ++ " " ++ (← right.text)
  | compareProperties left spelling right _ => do
    let operator ← comparison "where_properties" spelling
    let left ← left.text
    return left ++ " " ++ operator ++ " " ++ (← right.text)
  | isNull subject negate _ => do
    return (← subject.text) ++ (if negate then " IS NOT NULL" else " IS NULL")
  | group filters negate _ => do
    let inner ← listText nestedText filters
    return if negate then "NOT (" ++ inner ++ ")"
      else if filters.length > 1 then "(" ++ inner ++ ")"
      else inner
  | raw condition _ => .ok ("(" ++ condition ++ ")")
  | .exists body negate _ => do
    return (if negate then "NOT EXISTS " else "EXISTS ") ++
      braced (← nestedText body)
  | count body spelling value _ => do
    let body ← nestedText body
    let operator ← comparison "where_count" spelling
    return "COUNT " ++ braced body ++ " " ++ operator ++ " " ++ (← value.text)
  | misplaced kind => .error (.unsupported .filter kind)

/-- The text of a list of filters. -/
def listText (nestedText : β → Except Fault String) : List (Filter β) →
    Except Fault String
  | [] => .ok ""
  | first :: rest => do
    let head ← text nestedText first
    return head ++ (← tailText nestedText rest)

/-- The text of the filters that follow another one. -/
def tailText (nestedText : β → Except Fault String) : List (Filter β) →
    Except Fault String
  | [] => .ok ""
  | filter :: rest => do
    let head ← text nestedText filter
    return " " ++ filter.chain.keyword ++ " " ++ head ++
      (← tailText nestedText rest)

end

end GraphQuery.Filter
