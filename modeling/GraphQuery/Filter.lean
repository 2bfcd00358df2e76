import GraphQuery.Expression
import GraphQuery.Filter.Operator

/-!
# Filters

The tree of a WHERE condition.  Every filter carries the operator that joins
it to the one before it; that of the first filter of a list is never
written.  `β` is what the filters on nested queries hold in place of the
query.
-/

namespace GraphQuery

/-- A filter. -/
inductive Filter (β : Type) where
  /-- An expression against a value. -/
  | compare (left : Expression) (operator : String) (right : Expression)
      (chain : Chain)
  /-- An expression against another one. -/
  | compareProperties (left : Expression) (operator : String)
      (right : Expression) (chain : Chain)
  /-- Whether an expression is null, or is not. -/
  | isNull (subject : Expression) (negate : Bool) (chain : Chain)
  /-- A list of filters as one operand. -/
  | group (filters : List (Filter β)) (negate : Bool) (chain : Chain)
  /-- A condition as text. -/
  | raw (text : String) (chain : Chain)
  /-- Whether a nested query has an answer, or has none. -/
  | exists (body : β) (negate : Bool) (chain : Chain)
  /-- The number of answers of a nested query against a value. -/
  | count (body : β) (operator : String) (value : Expression) (chain : Chain)
  /-- An element of another kind; it has no text here. -/
  | misplaced (kind : ElementKind)
  deriving Inhabited

namespace Filter

variable {β γ : Type}

/-- The operator that joins a filter to the one before it. -/
def chain : Filter β → Chain
  | compare _ _ _ chain => chain
  | compareProperties _ _ _ chain => chain
  | isNull _ _ chain => chain
  | group _ _ chain => chain
  | raw _ chain => chain
  | .exists _ _ chain => chain
  | count _ _ _ chain => chain
  | misplaced _ => .and

mutual

/-- Replace what nested queries are given by. -/
def map (f : β → γ) : Filter β → Filter γ
  | compare left operator right chain => .compare left operator right chain
  | compareProperties left operator right chain =>
    .compareProperties left operator right chain
  | isNull subject negate chain => .isNull subject negate chain
  | group filters negate chain => .group (mapAll f filters) negate chain
  | raw text chain => .raw text chain
  | .exists body negate chain => .exists (f body) negate chain
  | count body operator value chain => .count (f body) operator value chain
  | misplaced kind => .misplaced kind

/-- Replace what nested queries are given by, in a list of filters. -/
def mapAll (f : β → γ) : List (Filter β) → List (Filter γ)
  | [] => []
  | filter :: rest => map f filter :: mapAll f rest

end

end Filter

end GraphQuery
