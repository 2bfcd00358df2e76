import GraphQuery.ParameterStack
import GraphQuery.Query
import GraphQuery.Settings

/-!
# Drafts

A query can be put together by hand, from elements of any kind in any place.
A draft describes one: it is a list of edits, and the elements in them are
trees.  Making a query of a draft gives every element its type; an element
that does not belong where it stands is kept as such, and only compiling the
query fails.  All queries nested in a draft share one parameter stack and
one sequence of anonymous names.
-/

namespace GraphQuery

mutual

/-- An element of any kind. -/
inductive Tree where
  | var (name : String)
  | property (owner key : String)
  | parameter (name : String)
  | raw (text : String)
  | column (row key : String)
  | distinct (t : Tree)
  | call (function : String) (arguments : List Tree)
  | aliased (t : Tree) (name : String)
  | assignment (owner key : String) (value : Tree)
  | labels (owner : String) (names : List String)
  | node (name : String) (labels : List String) (properties : List Tree)
  | relationship (name left right : String) (types : List String)
      (properties : List Tree)
      (direction : Pattern.Direction)
  | compare (left : Tree) (operator : String) (right : Tree) (chain : Chain)
  | compareProperties (left : Tree) (operator : String) (right : Tree)
      (chain : Chain)
  | isNull (subject : Tree) (negate : Bool) (chain : Chain)
  | group (filters : List Tree) (negate : Bool) (chain : Chain)
  | rawFilter (text : String) (chain : Chain)
  | exists (body : List Edit) (negate : Bool) (chain : Chain)
  | count (body : List Edit) (operator : String) (value : Tree)
      (chain : Chain)

/-- A change of a query. -/
inductive Edit where
  /-- A call of the pattern store with the given properties. -/
  | pattern (call : Pattern.StoreCall Unit) (properties : List Tree)
  /-- A value bound to a parameter. -/
  | bind (value : Value)
  | filter (t : Tree)
  | returning (t : Tree)
  | setting (t : Tree)
  | settingOnMatch (t : Tree)
  | settingOnCreate (t : Tree)
  | deleting (t : Tree)
  | removing (t : Tree)
  | orderingBy (t : Tree)
  | subQuery (draft : List Edit)
  | forceDelete (force : Bool)
  | skip (rows : Option Int)
  | limit (rows : Option Int)
  | distinct (distinct : Bool)
  | order (order : Order)
  | union (entry : String) (draft : List Edit)
  | batchCreate (parameter : String)
  | batchVariable (name : String)

end

instance : Inhabited Tree := ⟨.var ""⟩

instance : Inhabited Edit := ⟨.batchVariable ""⟩

/-- A description of a query. -/
abbrev Draft := List Edit

/-- The kind of an expression. -/
def Expression.kind : Expression → ElementKind
  | var _ => .var
  | property _ _ => .property
  | parameter _ => .parameter
  | raw _ => .raw
  | column _ _ => .column
  | distinct _ => .distinct
  | call _ _ => .call
  | aliased _ _ => .aliased
  | misplaced kind => kind
  | absent kind _ => kind

/-- What an expression refers to, a property or a column of a row, given a
value. -/
def Expression.assigned : (subject value : Expression) → Assignment
  | property owner key, value | column owner key, value => ⟨owner, key, value⟩
  | subject, _ => ⟨"", "", .absent subject.kind "key"⟩

/-- The kind of a filter. -/
def Filter.kind {β : Type} : Filter β → ElementKind
  | compare _ _ _ _ => .comparison
  | compareProperties _ _ _ _ => .propertyComparison
  | isNull _ _ _ => .nullCheck
  | group _ _ _ => .group
  | raw _ _ => .rawFilter
  | .exists _ _ _ => .existence
  | count _ _ _ _ => .count
  | misplaced kind => kind

/-- The kind of a pattern element. -/
def Pattern.Element.kind : Pattern.Element → ElementKind
  | node _ => .node
  | relationship _ => .relationship
  | raw _ => .raw
  | misplaced kind => kind

/-- An element of a query, of whatever kind, with its type. -/
inductive Item where
  | expression (e : Expression)
  | assignment (a : Assignment)
  | labels (owner : String) (names : List String)
  | element (e : Pattern.Element)
  | filter (f : Filter Query)
  deriving Inhabited

namespace Item

/-- The kind of an element. -/
def kind : Item → ElementKind
  | expression e => e.kind
  | assignment _ => .assignment
  | labels _ _ => .labels
  | element e => e.kind
  | filter f => f.kind

/-- An element where an expression belongs. -/
def toExpression : Item → Expression
  | expression e => e
  | item => .misplaced item.kind

/-- An element where an item of a SET clause belongs. -/
def toSetItem : Item → SetItem
  | assignment a => .assign a
  | labels owner names => .labels owner names
  | expression (.raw text) => .raw text
  | item => .misplaced item.kind

/-- An element where an item of a REMOVE clause belongs. -/
def toRemoveItem : Item → RemoveItem
  | expression (.property owner key) => .property owner key
  | labels owner names => .labels owner names
  | item => .misplaced item.kind

/-- An element where an element of a pattern belongs. -/
def toElement : Item → Pattern.Element
  | element e => e
  | expression (.raw text) => .raw text
  | item => .misplaced item.kind

/-- An element where a filter belongs. -/
def toFilter : Item → Filter Query
  | filter f => f
  | item => .misplaced item.kind

/-- An element where a property is given its value.  A comparison gives the
property it is about the value this is compared with; a null check is about
a property, but has no value for it. -/
def toAssignment : Item → Assignment
  | assignment a => a
  | filter (.compare subject _ value _) => subject.assigned value
  | filter (.isNull subject _ _) =>
    subject.assigned (.absent .nullCheck "value")
  | item => ⟨"", "", .absent item.kind "property"⟩

end Item

/-- What all queries of a draft share. -/
structure Desk where
  parameters : ParameterStack
  names : Pattern.NameSequence := {}
  /-- The row variable new queries start with. -/
  batchVariable : String
  deriving Inhabited

/-- The desk a draft is worked on at under given settings. -/
def Desk.ofSettings (settings : Settings) : Desk :=
  { parameters := .empty settings, batchVariable := settings.batchVariable }

/-- A query that is being filled, on the desk it shares with the queries
nested in it. -/
structure Sheet where
  query : Structure Query
  desk : Desk
  deriving Inhabited

/-- A sheet with a query that holds nothing yet. -/
def Desk.sheet (desk : Desk) (entry : String) : Sheet :=
  { query := { entry, batchVariable := desk.batchVariable }, desk }

/-- A step of filling a query, which keeps what was done before a failure. -/
abbrev Filling (α : Type) := ExceptT Fault (StateM Sheet) α

namespace Filling

/-- Change the query. -/
def edit (change : Structure Query → Structure Query) : Filling Unit :=
  modify fun sheet => { sheet with query := change sheet.query }

/-- The entry of the query. -/
def entry : Filling String := do return (← get).query.entry

/-- Bind a value. -/
def bind (value : Value) : Filling Unit :=
  modify fun sheet =>
    { sheet with desk.parameters := (sheet.desk.parameters.add value).2 }

/-- Carry out a call of the store of the query.  The store keeps what a
failing call registered. -/
def register (call : Pattern.StoreCall Assignment) : Filling Unit := do
  let sheet ← get
  let (outcome, registry) :=
    call.perform.run.run
      { store := sheet.query.pattern, names := sheet.desk.names }
  set { sheet with query.pattern := registry.store, desk.names :=
    registry.names }
  let _ ← outcome

/-- Fill a query of its own on the same desk.  Of one that fails, only what
it did to the desk stays. -/
def nested (entry : String) (fill : Filling Unit) : Filling Query := do
  let outer ← get
  let (outcome, inner) := fill.run.run (outer.desk.sheet entry)
  set { outer with desk := inner.desk }
  outcome
  return inner.query.toQuery

end Filling

mutual

/-- The element a tree describes inside the query being filled. -/
def Tree.item : Tree → Filling Item
  | .var name => return .expression (.var name)
  | .property owner key => return .expression (.property owner key)
  | .parameter name => return .expression (.parameter ⟨name, .null⟩)
  | .raw text => return .expression (.raw text)
  | .column row key => return .expression (.column row key)
  | .distinct t => do return .expression (.distinct (← t.item).toExpression)
  | .call function arguments => do
    return .expression
      (.call function ((← Tree.items arguments).map Item.toExpression))
  | .aliased t
      name => do return .expression (.aliased (← t.item).toExpression name)
  | .assignment owner key value => do
    return .assignment ⟨owner, key, (← value.item).toExpression⟩
  | .labels owner names => return .labels owner names
  | .node name labels properties => do
    return .element
      (.node ⟨name, labels, (← Tree.items properties).map Item.toAssignment⟩)
  | .relationship name left right types properties direction => do
    let properties := (← Tree.items properties).map Item.toAssignment
    return .element (.relationship ⟨name, left, right, types, properties,
      direction⟩)
  | .compare left operator right chain => do
    let left ← left.item
    let right ← right.item
    return .filter
      (.compare left.toExpression operator right.toExpression chain)
  | .compareProperties left operator right chain => do
    let left ← left.item
    let right ← right.item
    return .filter
      (.compareProperties left.toExpression operator right.toExpression chain)
  | .isNull subject negate chain => do
    return .filter (.isNull (← subject.item).toExpression negate chain)
  | .group filters negate chain => do
    return .filter (.group ((← Tree.items filters).map Item.toFilter)
      negate chain)
  | .rawFilter text chain => return .filter (.raw text chain)
  | .exists body negate chain => do
    let body ← Filling.nested (← Filling.entry) (Edit.applyAll body)
    return .filter (.exists body negate chain)
  | .count body operator value chain => do
    let body ← Filling.nested (← Filling.entry) (Edit.applyAll body)
    return .filter (.count body operator (← value.item).toExpression chain)

/-- The elements a list of trees describes. -/
def Tree.items : List Tree → Filling (List Item)
  | [] => return []
  | t :: rest => do
    let item ← t.item
    return item :: (← Tree.items rest)

/-- Make a change of the query being filled.  Elements are appended, all
else is overwritten. -/
def Edit.apply : Edit → Filling Unit
  | .pattern call properties => do
    let properties := (← Tree.items properties).map Item.toAssignment
    Filling.register (call.withProperties properties)
  | .bind value => Filling.bind value
  | .filter t => do
    let filter := (← t.item).toFilter
    Filling.edit fun s => { s with wheres := s.wheres ++ [filter] }
  | .returning t => do
    let e := (← t.item).toExpression
    Filling.edit fun s => { s with returns := s.returns ++ [e] }
  | .setting t => do
    let item := (← t.item).toSetItem
    Filling.edit fun s => { s with sets := s.sets ++ [item] }
  | .settingOnMatch t => do
    let item := (← t.item).toSetItem
    Filling.edit fun s => { s with onMatch := s.onMatch ++ [item] }
  | .settingOnCreate t => do
    let item := (← t.item).toSetItem
    Filling.edit fun s => { s with onCreate := s.onCreate ++ [item] }
  | .deleting t => do
    let e := (← t.item).toExpression
    Filling.edit fun s => { s with deletes := s.deletes ++ [e] }
  | .removing t => do
    let item := (← t.item).toRemoveItem
    Filling.edit fun s => { s with removes := s.removes ++ [item] }
  | .orderingBy t => do
    let e := (← t.item).toExpression
    Filling.edit fun s => { s with orderBy := s.orderBy ++ [e] }
  | .subQuery draft => do
    let query ← Filling.nested (← Filling.entry) (Edit.applyAll draft)
    Filling.edit fun s => { s with subQueries := s.subQueries ++ [query] }
  | .forceDelete force => Filling.edit fun s =>
    { s with forceDelete := force }
  | .skip rows => Filling.edit fun s => { s with skip := rows }
  | .limit rows => Filling.edit fun s => { s with limit := rows }
  | .distinct distinct => Filling.edit fun s => { s with distinct }
  | .order order => Filling.edit fun s => { s with order }
  | .union entry draft => do
    let second ← Filling.nested entry (Edit.applyAll draft)
    Filling.edit fun s => { s with union := some second }
  | .batchCreate parameter =>
    Filling.edit fun s => { s with batchCreate := some ⟨parameter, .null⟩ }
  | .batchVariable name => Filling.edit fun s =>
    { s with batchVariable := name }

/-- Make changes one after the other. -/
def Edit.applyAll : List Edit → Filling Unit
  | [] => return ()
  | edit :: rest => do
    edit.apply
    Edit.applyAll rest

end

/-- Make the changes of a draft one after the other until one fails. -/
def Draft.fill (draft : Draft) (sheet : Sheet) : Except Fault Unit × Sheet :=
  (Edit.applyAll draft).run.run sheet

/-- The element a tree describes outside any query. -/
def Tree.alone (t : Tree) : Except Fault Item :=
  (t.item.run.run ((Desk.ofSettings {}).sheet "")).1

/-- A call of a store with the properties its trees describe outside any
query. -/
def Tree.properties (call : Pattern.StoreCall Tree) :
    Except Fault (Pattern.StoreCall Assignment) := do
  return call.withProperties
    ((← call.properties.mapM Tree.alone).map Item.toAssignment)

end GraphQuery
