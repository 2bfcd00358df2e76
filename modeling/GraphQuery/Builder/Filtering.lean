import GraphQuery.Builder.Workspace

/-!
# Building filters

Every call appends one filter, joined to the filter before it by the chain
operator it is given; a group is only appended if it holds a filter.
Filters can also be given as a mapping: its keys name properties, with an
operator behind two underscores, or groups of further mappings.
-/

namespace GraphQuery

/-- The operators that a key of a filter mapping can end in, behind two
underscores. -/
def filterSuffixes : List (String × String) :=
  [("lt", "<"), ("lte", "<="), ("gt", ">"), ("gte", ">="), ("ne", "<>"),
    ("in", "IN"),
   ("contains", "CONTAINS"), ("startswith", "STARTS WITH"),
   ("endswith", "ENDS WITH")]

/-- The operators that have calls of their own, by the names of these. -/
def namedComparisons : List (String × String) :=
  [("equals", "="), ("contains", "CONTAINS"), ("starts_with", "STARTS WITH"),
   ("ends_with", "ENDS WITH"), ("regex", "=~"), ("less_than", "<"),
   ("less_than_or_equal", "<="), ("greater_than", ">"),
   ("greater_than_or_equal", ">=")]

/-- The operators between two properties that have calls of their own. -/
def namedPropertyComparisons : List (String × String) :=
  ("in", "IN") :: namedComparisons

/-- What follows a given beginning of a name. -/
def nameAfter? (beginning name : String) : Option String :=
  if beginning.toList.isPrefixOf name.toList then
    some (String.ofList (name.toList.drop beginning.length))
  else none

/-- The operator a call compares a property and a value with, if it is named
for one. -/
def comparisonOfCall? (call : String) : Option String :=
  (nameAfter? "where_" call).bind fun name => namedComparisons.lookup name

/-- The operator a call compares two properties with, if it is named for
one. -/
def propertyComparisonOfCall? (call : String) : Option String :=
  (nameAfter? "where_properties_" call).bind fun name =>
    namedPropertyComparisons.lookup name

/-- The call that takes a chain operator, and the operator, if a call is
named for both. -/
def chainOfCall? (call : String) : Option (String × Chain) :=
  [("and_", Chain.and), ("or_", Chain.or), ("xor_", Chain.xor)].findSome?
    fun (beginning, chain) =>
    (nameAfter? beginning call).map fun base => (base, chain)

/-- How the groups under a key of a filter mapping are joined. -/
def groupChain? : String → Option String
  | "$or" => some "OR"
  | "$and" => some "AND"
  | _ => none

/-- The property and the operator a key with two underscores is made of. -/
def keySuffix? (key : String) : Option (String × String) :=
  (Text.cutAtLast ['_', '_'] key.toList).map fun cut =>
    (String.ofList cut.1, String.ofList cut.2)

namespace Building

/-- Append a filter. -/
def addFilter (b : BuilderId) (filter : Filter BuilderId) : Building Unit :=
  edit b fun body => { body with wheres := body.wheres ++ [filter] }

/-- Compare a property with a value. -/
def whereCompare (b : BuilderId) (property spelling : String) (value : Value)
    (chain : String) :
    Building Unit := do
  let operator ← comparison "where" spelling
  let left := writtenProperty (← entry b) property
  let right ← bind b value
  addFilter b (.compare left operator right (← Chain.ofSpelling chain))

/-- Compare a property with a list of values. -/
def whereIn (b : BuilderId) (property : String) (values : Value)
    (chain : String) :
    Building Unit := do
  match values.items? with
  | some items => whereCompare b property "IN" (.list items) chain
  | none => throw (.notASequence values)

/-- Compare two properties. -/
def whereProperties (b : BuilderId) (left spelling right chain : String) :
    Building Unit := do
  let operator ← comparison "where_properties" spelling
  let entry ← entry b
  let chain ← Chain.ofSpelling chain
  addFilter b
    (.compareProperties (writtenProperty entry left) operator
      (writtenProperty entry right) chain)

/-- Check whether a property is null, or is not. -/
def whereNull (b : BuilderId) (property : String) (negate : Bool)
    (chain : String) :
    Building Unit := do
  let subject := writtenProperty (← entry b) property
  addFilter b (.isNull subject negate (← Chain.ofSpelling chain))

/-- A condition given as text. -/
def whereRaw (b : BuilderId) (text chain : String) : Building Unit := do
  addFilter b (.raw text (← Chain.ofSpelling chain))

/-- Keep in mind that a builder took filters over from another one. -/
def noteTaking (b inner : BuilderId) : Building Unit :=
  modify fun w => { w with takings := w.takings ++ [(b, inner)] }

/-- Append the filters of another builder as a group, if there are any. -/
def whereGroup (b inner : BuilderId) (negate : Bool) (chain : String) :
    Building Unit := do
  let filters := (← builder inner).body.wheres
  if !filters.isEmpty then
    let chain ← Chain.ofSpelling chain
    noteTaking b inner
    addFilter b (.group filters negate chain)

/-- Require a nested query to have an answer, or to have none. -/
def whereExists (b inner : BuilderId) (negate : Bool) (chain : String) :
    Building Unit := do
  addFilter b (.exists inner negate (← Chain.ofSpelling chain))

/-- Compare the number of answers of a nested query with a value. -/
def whereCount (b inner : BuilderId) (operator : String) (count : Value)
    (chain : String) :
    Building Unit := do
  let value ← bind b count
  addFilter b (.count inner operator value (← Chain.ofSpelling chain))

mutual

/-- Append the filters a mapping describes.  The chain operator given joins
the first entry, the others are joined by AND. -/
def whereFilters (b : BuilderId) : (chain : String) → List (String × Value) →
    Building Unit
  | _, [] => return ()
  | chain, (key, value) :: rest => do
    match groupChain? key with
    | some groupChain =>
      let inner ← newSubQuery b
      whereGroups inner key groupChain value
      whereGroup b inner false chain
    | none =>
      match keySuffix? key with
      | some (property, suffix) =>
        match filterSuffixes.lookup suffix with
        | some operator => whereCompare b property operator value chain
        | none =>
          throw (.unknownFilterSuffix suffix key value
            (filterSuffixes.map Prod.fst))
      | none =>
        if value.isNull then whereNull b key false chain
        else whereCompare b key "=" value chain
    whereFilters b "AND" rest

/-- Append a group for each mapping of a list. -/
def whereGroups (b : BuilderId) (key groupChain : String) :
    Value → Building Unit
  | .list groups =>
    if groups.all Value.isMap then whereEachGroup b groupChain groups
    else throw (.malformedGroups key (.list groups))
  | .text "" => return ()
  | .text s => throw (.malformedGroups key (.text s))
  | .map entries => throw (.malformedGroups key (.map entries))
  | value => throw (.notASequence value)

/-- Append a group for each of some mappings. -/
def whereEachGroup (b : BuilderId) (groupChain : String) : List Value →
    Building Unit
  | [] => return ()
  | group :: rest => do
    let inner ← newSubQuery b
    whereMapping inner group
    whereGroup b inner false groupChain
    whereEachGroup b groupChain rest

/-- Append the filters of a mapping. -/
def whereMapping (b : BuilderId) : Value → Building Unit
  | .map entries => whereFilters b "AND" entries
  | _ => return ()

end

end Building

end GraphQuery
