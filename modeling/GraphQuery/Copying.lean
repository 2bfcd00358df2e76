import GraphQuery.Query

/-!
# Copying

A query is compiled from a copy of itself, and the copy is deep: of all the
values the query holds and of all queries nested in it.  No pass tells the
copy from the original, so what there is to say of copying is how it fails.
It meets the parts of a query one after the other.  It fails at a value of a
type that has no copies, and where the calls it nests get too many.

Two calls are nested for a list, a mapping or a value that has no parts,
three for a tuple, and four for a record, up to the calls for its parts.
Names, labels and the like never lie deeper than the values beside them and
are not followed; what the query is ordered by, what it removes and what it
deletes hold no values.
-/

namespace GraphQuery

/-- What copying is limited by. -/
structure CopyLimits where
  /-- How many calls may be nested to copy, if there is a limit. -/
  depth : Option Nat := some 980
  /-- The type of a value that has no copies, such as a view of a mapping, an
  iterator or an open file; nothing for a value that can be copied.  The types
  of values are not carried along, so they are asked for here. -/
  uncopyable : Value → Option String := fun _ => none
  deriving Inhabited

/-- What is met when a query is copied, and how many calls are nested to get
there. -/
inductive Holding (β : Type) where
  | value (depth : Nat) (v : Value)
  /-- A nested query. -/
  | query (depth : Nat) (inner : β)
  deriving Inhabited

namespace Copying

/-- The calls nested for a list, a mapping or a value that has no parts. -/
def ofList : Nat := 2

/-- The calls nested for a tuple. -/
def ofTuple : Nat := 3

/-- The calls nested for a record. -/
def ofRecord : Nat := 4

/-- The calls nested to reach the name of a query's entry. -/
def ofEntry : Nat := ofRecord + ofRecord + ofList

end Copying

open Copying

namespace Value

mutual

/-- The parts of a value in the order in which they are copied, the value
first, each with the calls nested to get there. -/
def parts (depth : Nat) : Value → List (Nat × Value)
  | list items => (depth, list items) :: partsOfAll (depth + ofList) items
  | map entries =>
    (depth, map entries) :: partsOfEntries (depth + ofList) entries
  | raw fragment => [(depth, raw fragment), (depth + ofRecord, text fragment)]
  | value => [(depth, value)]

/-- The parts of values. -/
def partsOfAll (depth : Nat) : List Value → List (Nat × Value)
  | [] => []
  | value :: rest => parts depth value ++ partsOfAll depth rest

/-- The parts of the values of a mapping. -/
def partsOfEntries (depth : Nat) : List (String × Value) → List (Nat × Value)
  | [] => []
  | (_, value) :: rest => parts depth value ++ partsOfEntries depth rest

end

end Value

namespace CopyLimits

/-- Nest calls to a depth. -/
def reach (limits : CopyLimits) (depth : Nat) : Except Fault Unit :=
  match limits.depth with
  | some limit => if limit < depth then .error .tooDeep else .ok ()
  | none => .ok ()

/-- Copy one part of a value. -/
def copyPart (limits : CopyLimits) (depth : Nat) (part : Value) :
    Except Fault Unit := do
  limits.reach (depth + ofList)
  match limits.uncopyable part with
  | some type => throw (.uncopyable type)
  | none => return ()

/-- Copy a value. -/
def copyValue (limits : CopyLimits) (depth : Nat) (value : Value) :
    Except Fault Unit :=
  (value.parts depth).forM fun part => limits.copyPart part.1 part.2

/-- Copy what is met under a number of nested calls.  `nested` copies a
query, after those that have been copied before, and adds it to them. -/
def copyHolding {β γ : Type} (limits : CopyLimits) (calls : Nat)
    (nested : Nat → γ → β → Except Fault γ) (copied : γ) :
    Holding β → Except Fault γ
  | .value depth v => do
    limits.copyValue (calls + depth) v
    return copied
  | .query depth inner => nested (calls + depth) copied inner

end CopyLimits

mutual

/-- What is met when an expression is copied. -/
def Expression.holdings {β : Type} (depth : Nat) : Expression →
    List (Holding β)
  | parameter p => [.value (depth + ofRecord) p.value]
  | distinct e => e.holdings (depth + ofRecord)
  | call _ arguments => holdingsOfAll (depth + ofRecord + ofTuple) arguments
  | aliased e _ => e.holdings (depth + ofRecord)
  | _ => []

/-- What is met when expressions are copied. -/
def Expression.holdingsOfAll {β : Type} (depth : Nat) :
    List Expression → List (Holding β)
  | [] => []
  | e :: rest => e.holdings depth ++ holdingsOfAll depth rest

end

section

variable {β : Type}

/-- What is met when an assignment is copied. -/
def Assignment.holdings (depth : Nat) (a : Assignment) : List (Holding β) :=
  a.value.holdings (depth + ofRecord)

/-- What is met when an item of a SET clause is copied. -/
def SetItem.holdings (depth : Nat) : SetItem → List (Holding β)
  | assign a => a.holdings depth
  | _ => []

/-- What is met when a pattern element is copied. -/
def Pattern.Element.holdings (depth : Nat) (e : Element) : List (Holding β) :=
  e.properties.flatMap (Assignment.holdings (depth + ofRecord + ofList))

/-- What is met when a pattern is copied. -/
def Pattern.Store.holdings (depth : Nat) (s : Store) : List (Holding β) :=
  s.entries.flatMap fun entry =>
    entry.element.holdings (depth + ofRecord + ofList + ofRecord)

mutual

/-- What is met when a filter is copied. -/
def Filter.holdings (depth : Nat) : Filter β → List (Holding β)
  | compare left _ right _ | compareProperties left _ right _ =>
    left.holdings (depth + ofRecord) ++ right.holdings (depth + ofRecord)
  | isNull subject _ _ => subject.holdings (depth + ofRecord)
  | group filters _ _ => holdingsOfAll (depth + ofRecord + ofList) filters
  | raw _ _ => []
  | .exists body _ _ => [.query (depth + ofRecord) body]
  | count body _ value _ =>
    .query (depth + ofRecord) body :: value.holdings (depth + ofRecord)
  | misplaced _ => []

/-- What is met when filters are copied. -/
def Filter.holdingsOfAll (depth : Nat) : List (Filter β) → List (Holding β)
  | [] => []
  | filter :: rest => filter.holdings depth ++ holdingsOfAll depth rest

end

/-- What is met when a query is copied, in the order of its parts. -/
def Structure.holdings (s : Structure β) : List (Holding β) :=
  let item := ofRecord + ofList
  s.pattern.holdings ofRecord ++
  Filter.holdingsOfAll item s.wheres ++
  s.subQueries.map (Holding.query item) ++
  s.returns.flatMap (Expression.holdings item) ++
  s.sets.flatMap (SetItem.holdings item) ++
  s.onMatch.flatMap (SetItem.holdings item) ++
  s.onCreate.flatMap (SetItem.holdings item) ++
  s.union.toList.map (Holding.query ofRecord) ++
  s.batchCreate.toList.map fun rows => .value (ofRecord + ofRecord) rows.value

end

end GraphQuery
