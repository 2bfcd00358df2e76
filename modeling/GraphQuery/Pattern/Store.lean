import GraphQuery.Entries
import GraphQuery.Log
import GraphQuery.Pattern.Element

/-!
# The pattern store

The nodes and relationships a query declares, each with the intent it was
declared for last.  A name stands for one element: declaring it again
extends the element in its place.  Declaring a relationship first declares
those of its ends that carry labels; an end without a name gets an anonymous
one.

A registration works on a `Registry`: the store, the anonymous names left
and the log.  What it did before it failed stays done.
-/

namespace GraphQuery.Pattern

/-- What an element is declared for. -/
inductive Intent where
  | toMatch
  | toMatchOptionally
  | toMerge
  | toCreate
  deriving DecidableEq, Repr, Inhabited

namespace Intent

/-- The name of an intent. -/
def name : Intent → String
  | toMatch => "match"
  | toMatchOptionally => "optional-match"
  | toMerge => "merge"
  | toCreate => "create"

/-- The intent of a given name. -/
def ofName? (s : String) : Option Intent :=
  [toMatch, toMatchOptionally, toMerge, toCreate].find? fun intent =>
    intent.name == s

/-- An intent is read back from its name. -/
theorem ofName?_name (i : Intent) : ofName? i.name = some i := by
  cases i <;> rfl

/-- The intent to match, optionally or not. -/
def matching (optional : Bool) :
    Intent := if optional then toMatchOptionally else toMatch

end Intent

/-- The views of a store that clauses are made of. -/
inductive Chunk where
  | matched
  | matchedStrictly
  | matchedOptionally
  | merged
  | created
  deriving DecidableEq, Repr, Inhabited

namespace Chunk

/-- The name of a view. -/
def name : Chunk → String
  | matched => "match"
  | matchedStrictly => "match-strict"
  | matchedOptionally => "match-optional"
  | merged => "merge"
  | created => "create"

/-- The view of a given name. -/
def ofName? (s : String) : Option Chunk :=
  [matched, matchedStrictly, matchedOptionally, merged, created].find?
    fun chunk => chunk.name == s

/-- A view is read back from its name. -/
theorem ofName?_name (c : Chunk) : ofName? c.name = some c := by
  cases c <;> rfl

/-- The intents a view covers. -/
def intents : Chunk → List Intent
  | matched => [.toMatch, .toMatchOptionally]
  | matchedStrictly => [.toMatch]
  | matchedOptionally => [.toMatchOptionally]
  | merged => [.toMerge]
  | created => [.toCreate]

end Chunk

/-- A declared element with the intent it was declared for last. -/
structure Entry where
  element : Element
  intent : Intent
  deriving Inhabited

/-- The declared elements, in the order of their first declaration, and
where the named ones stand. -/
structure Store where
  entries : List Entry := []
  /-- The position of the entry of every name. -/
  positions : List (String × Nat) := []
  deriving Inhabited

namespace Store

/-- The number of declared elements. -/
def size (s : Store) : Nat := s.entries.length

/-- The entry of a name. -/
def find? (s : Store) (name : String) : Option Entry :=
  (s.positions.lookup name).bind fun i => s.entries[i]?

/-- The element of a name; raw fragments have none. -/
def get? (s : Store) (name : String) : Option Element :=
  match s.find? name with
  | some ⟨.raw _, _⟩ => none
  | some ⟨element, _⟩ => some element
  | none => none

/-- The intent the element of a name was declared for last. -/
def intentOf? (s : Store) (name : String) : Option Intent :=
  (s.find? name).map Entry.intent

/-- Append an entry without a name. -/
def push (s : Store) (entry : Entry) :
    Store := { s with entries := s.entries ++ [entry] }

/-- Append the entry of a new name. -/
def pushNamed (s : Store) (name : String) (entry : Entry) : Store :=
  { entries := s.entries ++ [entry],
    positions := putEntry name s.entries.length s.positions }

/-- Replace the entry of a name. -/
def replace (s : Store) (name : String) (entry : Entry) : Store :=
  match s.positions.lookup name with
  | some i => { s with entries := s.entries.set i entry }
  | none => s

/-- The elements of a view: raw fragments, then nodes, then relationships,
and the elements of each sort in the order of their declaration. -/
def chunk (s : Store) (view : Chunk) : List Element :=
  let elements :=
    (s.entries.filter fun entry => view.intents.contains entry.intent).map
    Entry.element
  elements.filter (fun e => e.rank == 0) ++
    elements.filter (fun e => e.rank == 1) ++
    elements.filter (fun e => e.rank == 2)

/-- Declare a node.  A known node takes the labels it does not have yet, the
properties and the intent. -/
def declareNode (s : Store) (name : String) (labels : List String)
    (properties : List Assignment) (intent : Intent) :
    Except Fault (Element × Store) :=
  match s.find? name with
  | none =>
    let element := .node { name, labels, properties }
    .ok (element, s.pushNamed name ⟨element, intent⟩)
  | some ⟨.node known, _⟩ =>
    let element := .node { known with
      labels := extendLabels known.labels labels
      properties := known.properties ++ properties }
    .ok (element, s.replace name ⟨element, intent⟩)
  | some _ => .error (.notANode name)

/-- Declare a relationship.  A known relationship takes the types it does
not have yet, the properties and the intent, and keeps its ends and its
direction. -/
def declareRelationship (s : Store) (new : Relationship) (intent : Intent) :
    Except Fault (Element × Store) :=
  match s.find? new.name with
  | none =>
    .ok (.relationship new, s.pushNamed new.name ⟨.relationship new, intent⟩)
  | some ⟨.relationship known, _⟩ =>
    let element := .relationship { known with
      types := extendLabels known.types new.types
      properties := known.properties ++ new.properties }
    .ok (element, s.replace new.name ⟨element, intent⟩)
  | some _ => .error (.notARelationship new.name)

/-- Append properties to a declared element and change its intent. -/
def assign (s : Store) (name : String) (properties : List Assignment)
    (intent : Intent) :
    Except Fault (Element × Store) :=
  match s.find? name with
  | none => .error (.undeclared name)
  | some entry =>
    let element := entry.element.assign properties
    .ok (element, s.replace name ⟨element, intent⟩)

end Store

/-- What registrations work on: a store, the anonymous names left and the
log. -/
structure Registry where
  store : Store := {}
  names : NameSequence := {}
  log : List LogEvent := []
  deriving Inhabited

/-- A step on a registry, which keeps what was done before a failure. -/
abbrev Registration (α : Type) := ExceptT Fault (StateM Registry) α

namespace Registration

/-- Draw an anonymous name. -/
def drawName : Registration String :=
  modifyGet fun r => let (name, names) := r.names.draw;
  (name, { r with names })

/-- Resolve the name and the labels of an element. -/
def resolve (sort : ElementSort) (given : LabelArgument)
    (name : Option String) :
    Registration (String × List String) :=
  modifyGet fun r => let (resolved, names) := decode sort given name r.names
    (resolved, { r with names })

/-- Replace the store by the outcome of a declaration.  A new entry is
logged. -/
def declare (kind name : String) (intent : Intent) (declaration : Store →
    Except Fault (Element × Store)) : Registration Element := do
  let r ← get
  let (element, store) ← declaration r.store
  let event : LogEvent :=
    { level := .debug
      event := "Registered pattern element"
      fields := [("name", .text name), ("kind", .text kind),
        ("mode", .text intent.name)] }
  set { r with store, log := if r.store.size < store.size then r.log ++
    [event] else r.log }
  return element

/-- Register a node. -/
def node (given : LabelArgument) (name : Option String) (intent : Intent)
    (properties : List Assignment := []) : Registration Element := do
  let (resolved, labels) ← resolve .node given name
  declare ElementKind.node.name resolved intent fun s =>
    s.declareNode resolved labels properties intent

/-- The name of an end of a relationship.  An end with labels is registered
as a node. -/
def endpoint (given : Option String) (intent : Intent) :
    Registration String := do
  match given.filter fun text => !Text.isBlankText text with
  | none => drawName
  | some text =>
    let (name, labels) ← resolve .node .none (some text)
    if !labels.isEmpty then
      let _ ← node (.many labels) (some name) intent
    return name

/-- Register a relationship, its ends first.  The direction is the given
one, else the one its first type marks, else from left to right. -/
def relationship (left right : Option String) (given : LabelArgument)
    (name : Option String) (direction : Option Direction) (intent : Intent)
    (properties : List Assignment := []) :
    Registration Element := do
  let (types, marked) := extractDirection given.labels
  let left ← endpoint left intent
  let right ← endpoint right intent
  let (resolved, types) ← resolve .relationship (.many types) name
  let new : Relationship :=
    { name := resolved, left, right, types, properties
      direction := (direction <|> marked).getD .leftToRight }
  declare ElementKind.relationship.name resolved intent fun s =>
    s.declareRelationship new intent

/-- Register a raw fragment. -/
def raw (text : String) (intent : Intent) : Registration Element := do
  modify fun r => { r with store := r.store.push ⟨.raw text, intent⟩ }
  return .raw text

/-- Append properties to a registered element and change its intent. -/
def assign (name : String) (properties : List Assignment) (intent : Intent) :
    Registration Element := do
  let r ← get
  let (element, store) ← r.store.assign name properties intent
  set { r with store }
  return element

end Registration

/-- Whether elements are written by a MERGE or by a CREATE clause. -/
inductive Writing where
  | merging
  | creating
  deriving DecidableEq, Repr, Inhabited

namespace Writing

/-- The intent to write. -/
def intent : Writing → Intent
  | merging => .toMerge
  | creating => .toCreate

/-- The name of the call that writes a node. -/
def nodeCall : Writing → String
  | merging => "merging_node"
  | creating => "creating_node"

/-- The name of the call that writes a relationship. -/
def relationshipCall : Writing → String
  | merging => "merging_relationship"
  | creating => "creating_relationship"

end Writing

namespace Registration

/-- Register a node to be written; it needs a label. -/
def writtenNode (writing : Writing) (given : LabelArgument)
    (name : Option String) (properties : List Assignment := []) :
    Registration Element := do
  let labels ← given.labelsFor writing.nodeCall
  node (.many labels) name writing.intent properties

/-- Register a relationship to be written; it needs a type. -/
def writtenRelationship (writing : Writing) (left right : Option String)
    (given : LabelArgument) (name : Option String)
    (direction : Option Direction) (properties : List Assignment := []) :
    Registration Element := do
  let types ← given.labelsFor writing.relationshipCall
  relationship left right (.many types) name direction writing.intent
    properties

end Registration

/-- A call of a store; the properties it is given are of type `α`. -/
inductive StoreCall (α : Type) where
  | matchNode (given : LabelArgument) (name : Option String) (optional : Bool)
  | matchRelationship (left right : Option String) (given : LabelArgument)
      (name : Option String)
      (direction : Option Direction) (optional : Bool)
  | matchRaw (text : String) (optional : Bool)
  | writeNode (writing : Writing) (given : LabelArgument)
      (name : Option String) (properties : List α)
  | writeRelationship (writing : Writing) (left right : Option String)
      (given : LabelArgument)
      (name : Option String) (properties : List α)
        (direction : Option Direction)
  | writeRaw (writing : Writing) (text : String)
  | assign (name : String) (properties : List α) (intent : Intent)
  | get (name : String)
  | intentOf (name : String)
  | chunk (view : Chunk)
  | size
  deriving Inhabited

/-- The properties a call of a store is given. -/
def StoreCall.properties {α : Type} : StoreCall α → List α
  | writeNode _ _ _ properties => properties
  | writeRelationship _ _ _ _ _ properties _ => properties
  | assign _ properties _ => properties
  | _ => []

/-- A call of a store with other properties. -/
def StoreCall.withProperties {α β : Type} (properties : List β) :
    StoreCall α → StoreCall β
  | matchNode given name optional => matchNode given name optional
  | matchRelationship left right given name direction optional =>
    matchRelationship left right given name direction optional
  | matchRaw text optional => matchRaw text optional
  | writeNode writing given name _ => writeNode writing given name properties
  | writeRelationship writing left right given name _ direction =>
    writeRelationship writing left right given name properties direction
  | writeRaw writing text => writeRaw writing text
  | assign name _ intent => assign name properties intent
  | get name => get name
  | intentOf name => intentOf name
  | chunk view => chunk view
  | size => size

/-- What a call of a store is answered with. -/
inductive StoreAnswer where
  | nothing
  | element (e : Element)
  | intent (i : Intent)
  | elements (es : List Element)
  | size (n : Nat)
  deriving Inhabited

/-- Carry out a call of a store. -/
def StoreCall.perform : StoreCall Assignment → Registration StoreAnswer
  | matchNode given name optional => do
    return .element (← Registration.node given name (.matching optional))
  | matchRelationship left right given name direction optional => do
    return .element
      (← Registration.relationship left right given name direction
        (.matching optional))
  | matchRaw text optional => do
    return .element (← Registration.raw text (.matching optional))
  | writeNode writing given name properties => do
    return .element (← Registration.writtenNode writing given name properties)
  | writeRelationship writing left right given name properties direction => do
    return .element
      (← Registration.writtenRelationship writing left right given name
        direction properties)
  | writeRaw writing
      text => do return .element (← Registration.raw text writing.intent)
  | assign name properties intent => do
    return .element (← Registration.assign name properties intent)
  | get name => do
    return match (← MonadState.get).store.get? name with
    | some element => .element element
    | none => .nothing
  | intentOf name => do
    return match (← MonadState.get).store.intentOf? name with
    | some intent => .intent intent
    | none => .nothing
  | chunk view => do return .elements ((← MonadState.get).store.chunk view)
  | size => do return .size (← MonadState.get).store.size

/-- Stores that draw their anonymous names from one sequence. -/
structure Shelf where
  stores : Array Store := #[{}]
  names : NameSequence := {}
  deriving Inhabited

namespace Shelf

/-- The store of a number. -/
def store (s : Shelf) (i : Nat) : Store := s.stores[i]?.getD {}

/-- Add an empty store and answer with its number. -/
def fork (s : Shelf) : Nat × Shelf :=
  (s.stores.size, { s with stores := s.stores.push {} })

/-- Carry out a call of a store. -/
def perform (s : Shelf) (i : Nat) (call : StoreCall Assignment) :
    Except Fault StoreAnswer × Shelf :=
  let (outcome, registry) :=
    call.perform.run.run { store := s.store i, names := s.names }
  (outcome,
    { stores := s.stores.setIfInBounds i registry.store,
      names := registry.names })

/-- What is done to a shelf: a store is added to it, or a call of one of its
stores is made. -/
inductive Step where
  | fork
  | call (store : Nat) (made : StoreCall Assignment)
  deriving Inhabited

/-- Take a step. -/
def step (s : Shelf) : Step → Shelf
  | .fork => s.fork.2
  | .call i made => (s.perform i made).2

/-- The shelf a run of steps leads to. -/
def after (s : Shelf) (steps : List Step) : Shelf := steps.foldl step s

end Shelf

end GraphQuery.Pattern
