import GraphQuery.Builder.Filtering

/-!
# Changing a query under construction

The calls of a builder that need nothing but the builder itself: they
declare pattern elements, bind values and collect filters, items and
projections.  Each call is a value, so that what is done with a builder can
be reasoned about.
-/

namespace GraphQuery

/-- A call that changes a query under construction. -/
inductive Change where
  | matchNode (given : Pattern.LabelArgument) (name : Option String)
      (optional : Bool)
  | matchRelationship (left : Option String) (given : Pattern.LabelArgument)
      (right name : Option String) (direction : Option Pattern.Direction)
        (optional : Bool)
  | matchRaw (text : String) (optional : Bool)
  | writeNode (writing : Pattern.Writing) (given : Pattern.LabelArgument)
      (name : Option String)
      (values : List (String × Value))
  | writeRelationship (writing : Pattern.Writing) (left : Option String)
      (given : Pattern.LabelArgument) (right name : Option String)
      (values : List (String × Value)) (direction : Option Pattern.Direction)
  | writeRaw (writing : Pattern.Writing) (text : String)
  /-- Write the declared elements with the given values. -/
  | write (writing : Pattern.Writing) (values : List (String × Value))
  /-- Write the declared elements once for each row. -/
  | writeBatch (rows : List (List (String × Value)))
  | setOnMatch (values : List (String × Value))
  | setOnCreate (values : List (String × Value))
  | set (property : String) (value : Value)
  | setMany (values : List (String × Value))
  | setLabels (labels : List String)
  | setLabel (name : String) (given : Pattern.LabelArgument)
  | setRaw (texts : List String)
  | remove (items : List String)
  | removeLabel (name : String) (labels : List String)
  | delete (names : List String)
  /-- Delete elements together with their relationships. -/
  | detachDelete (names : List String)
  | return_ (projections : List String)
  | returnAll
  | returnRaw (texts : List String)
  | returnVariables (names : List String)
  | returnCall (function name : String) (arguments : List PropertyArgument)
  | distinct (wanted : Bool)
  | skip (rows : Option Int)
  | limit (rows : Option Int)
  | paginate (page size : Int)
  | orderBy (direction : String) (properties : List PropertyArgument)
  | compare (property operator : String) (value : Value) (chain : String)
  | compareProperties (left operator right chain : String)
  | compareIn (property : String) (values : Value) (chain : String)
  | isNull (property : String) (negate : Bool) (chain : String)
  | rawFilter (text chain : String)
  | filters (entries : List (String × Value)) (chain : String)
  /-- Run on the given connection, or on the default one. -/
  | useConnection (connection : Option String)
  deriving Inhabited

/-- Whether a call is open to sub-queries: these match, filter and return,
but do not write. -/
def Change.reads : Change → Bool
  | writeNode _ _ _ _ | writeRelationship _ _ _ _ _ _ _ | writeRaw
      _ _ | write _ _ | writeBatch _
  | setOnMatch _ | setOnCreate _ | set _ _ | setMany _ | setLabels
      _ | setLabel _ _ | setRaw _
  | remove _ | removeLabel _ _ | delete _ | detachDelete _ | useConnection
      _ => false
  | _ => true

namespace Building

/-- Bind values and pair them with the properties their keys name. -/
def assignments (b : BuilderId) (values : List (String × Value)) :
    Building (List Assignment) := do
  let entry ← entry b
  values.mapM fun (written, value) => do
    let (owner, key) := propertyReference entry written
    return ⟨owner, key, ← bind b value⟩

/-- Bind values and pair them with properties of one element. -/
def assignmentsOn (b : BuilderId) (owner : String)
    (values : List (String × Value)) :
    Building (List Assignment) :=
  values.mapM fun (key, value) => do return ⟨owner, key, ← bind b value⟩

/-- Register an element to be written, then give it values if there are any. -/
def writeElement (b : BuilderId) (writing : Pattern.Writing)
    (values : List (String × Value))
    (registration : Pattern.Registration Pattern.Element) :
    Building Unit := do
  let element ← register b registration
  let name := element.name?.getD ""
  if !values.isEmpty then
    let properties ← assignmentsOn b name values
    let _ ← register b
        (Pattern.Registration.assign name properties writing.intent)

/-- Give declared elements values to be written with. -/
def write (b : BuilderId) (writing : Pattern.Writing)
    (values : List (String × Value)) :
    Building Unit := do
  if writing = .creating then edit b fun body =>
      { body with batchCreate := none }
  (← assignments b values).forM fun assignment => do
    let _ ← register b
      (Pattern.Registration.assign assignment.owner
        [assignment] writing.intent)

/-- Create the declared elements once for each row.  The rows are bound as
one parameter; the keys of the first row say which properties read their
values from the row at hand. -/
def writeBatch (b : BuilderId) (rows : List (List (String × Value))) :
    Building Unit := do
  match rows with
  | [] => edit b fun body => { body with batchCreate := none }
  | first :: _ =>
    match ← bind b (.list (rows.map Value.map)) with
    | .parameter batch => edit b fun body =>
      { body with batchCreate := some batch }
    | _ => pure ()
    let body := (← builder b).body
    first.forM fun (written, _) => do
      let (owner, key) := propertyReference body.entry written
      let assignment : Assignment :=
        ⟨owner, key, .column body.batchVariable written⟩
      let _ ← register b
          (Pattern.Registration.assign owner [assignment] .toCreate)

/-- Set a property. -/
def set (b : BuilderId) (property : String) (value : Value) :
    Building Unit := do
  let (owner, key) := propertyReference (← entry b) property
  let assignment : Assignment := ⟨owner, key, ← bind b value⟩
  edit b fun body => { body with sets := body.sets ++ [.assign assignment] }

/-- Append items to set. -/
def addSets (b : BuilderId) (items : List SetItem) : Building Unit :=
  edit b fun body => { body with sets := body.sets ++ items }

/-- Append projections. -/
def addReturns (b : BuilderId) (projections : List Expression) :
    Building Unit :=
  edit b fun body => { body with returns := body.returns ++ projections }

/-- Append elements to delete. -/
def addDeletes (b : BuilderId) (names : List String) : Building Unit :=
  edit b fun body =>
    { body with deletes := body.deletes ++ names.map Expression.var }

/-- Skip to a page and limit the rows to its size.  Pages are numbered from
1. -/
def paginate (b : BuilderId) (page size : Int) : Building Unit := do
  if page < 1 then throw (.pageOutOfRange page)
  if size < 1 then throw (.pageSizeOutOfRange size)
  edit b fun body =>
    { body with skip := some ((page - 1) * size), limit := some size }

/-- Order the rows; the direction applies to all properties. -/
def orderBy (b : BuilderId) (direction : String)
    (properties : List PropertyArgument) :
    Building Unit := do
  let order ← Order.ofSpelling direction
  edit b fun body => { body with
    order, orderBy :=
  body.orderBy ++ properties.map (PropertyArgument.expression body.entry) }

end Building

/-- Carry out a call on a builder. -/
def Change.perform (b : BuilderId) : Change → Building Unit
  | matchNode given name optional => do
    let _ ← Building.register b
        (Pattern.Registration.node given name (.matching optional))
  | matchRelationship left given right name direction optional => do
    let _ ← Building.register b
      (Pattern.Registration.relationship left right given name direction
        (.matching optional))
  | matchRaw text optional => do
    let _ ← Building.register b
        (Pattern.Registration.raw text (.matching optional))
  | writeNode writing given name values =>
    Building.writeElement b writing values
      (Pattern.Registration.writtenNode writing given name)
  | writeRelationship writing left given right name values direction =>
    Building.writeElement b writing values
      (Pattern.Registration.writtenRelationship writing left right given
        name direction)
  | writeRaw writing text => do
    let _ ← Building.register b (Pattern.Registration.raw text writing.intent)
  | write writing values => Building.write b writing values
  | writeBatch rows => Building.writeBatch b rows
  | setOnMatch values => do
    let items := (← Building.assignments b values).map SetItem.assign
    Building.edit b fun body => { body with onMatch := body.onMatch ++ items }
  | setOnCreate values => do
    let items := (← Building.assignments b values).map SetItem.assign
    Building.edit b fun body =>
      { body with onCreate := body.onCreate ++ items }
  | set property value => Building.set b property value
  | setMany values => values.forM fun (property, value) =>
    Building.set b property value
  | setLabels labels => do
    let entry ← Building.entry b
    Building.addSets b (labels.map (writtenLabelItem entry))
  | setLabel name given => Building.addSets b [.labels name given.labels]
  | setRaw texts => Building.addSets b (texts.map SetItem.raw)
  | remove items =>
    Building.edit b fun body => { body with
      removes := body.removes ++ items.map (writtenRemoval body.entry) }
  | removeLabel name labels =>
    let cleaned := (Pattern.LabelArgument.many labels).labels
    if cleaned.isEmpty then return ()
    else Building.edit b fun body =>
      { body with removes := body.removes ++ [.labels name cleaned] }
  | delete names => Building.addDeletes b names
  | detachDelete names => do
    Building.edit b fun body => { body with forceDelete := true }
    Building.addDeletes b names
  | return_ projections => do
    let entry ← Building.entry b
    Building.addReturns b (projections.map (writtenProjection entry))
  | returnAll => Building.edit b fun body =>
    { body with returns := [.raw "*"] }
  | returnRaw texts => Building.addReturns b (texts.map Expression.raw)
  | returnVariables names => Building.addReturns b (names.map Expression.var)
  | returnCall function name arguments => do
    let entry ← Building.entry b
    let call := Expression.call function
      (arguments.map (PropertyArgument.expression entry))
    Building.addReturns b [.aliased call name]
  | distinct wanted => Building.edit b fun body =>
    { body with distinct := wanted }
  | skip rows => Building.edit b fun body => { body with skip := rows }
  | limit rows => Building.edit b fun body => { body with limit := rows }
  | paginate page size => Building.paginate b page size
  | orderBy direction properties => Building.orderBy b direction properties
  | compare property operator value chain =>
    Building.whereCompare b property operator value chain
  | compareProperties left operator right chain =>
    Building.whereProperties b left operator right chain
  | compareIn property values chain =>
    Building.whereIn b property values chain
  | isNull property negate chain => Building.whereNull b property negate chain
  | rawFilter text chain => Building.whereRaw b text chain
  | filters entries chain => Building.whereFilters b chain entries
  | useConnection connection => Building.amend b fun builder =>
    { builder with connection }

end GraphQuery
