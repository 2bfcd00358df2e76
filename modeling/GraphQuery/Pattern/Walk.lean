import GraphQuery.Pattern.Store

/-!
# Walks over a pattern

A pattern can be described by walking over it.  A walk is always in one of
its contexts: at a node, from where relationships are opened, or on a
relationship, where the nodes at its far end are collected.  Ascending from
a relationship registers it, once for each node collected, and leads back to
the node it was opened from; an anonymous node in the middle of a chain is
passed through.
-/

namespace GraphQuery.Pattern

/-- The number of a context in its walk. -/
abbrev ContextId := Nat

/-- Where a context stands. -/
inductive Place where
  /-- At a registered node.  A walk passes through a skipped one on its way
  up. -/
  | node (parent : Option ContextId) (name : String) (skipped : Bool)
  /-- On a relationship leaving the node of the context it was opened from. -/
  | relationship (origin : ContextId) (types : LabelArgument)
      (name : Option String) (direction : Option Direction)
  deriving Inhabited

/-- A position in the tree of a walk. -/
structure Context where
  place : Place
  /-- Whether what is registered here is matched optionally. -/
  optional : Bool
  /-- The names of the nodes collected below, in order. -/
  children : List String := []
  deriving Inhabited

namespace Context

/-- The context this one was opened from. -/
def parent (c : Context) : Option ContextId :=
  match c.place with
  | .node parent _ _ => parent
  | .relationship origin _ _ _ => some origin

/-- The name a context was given: of a node the registered one, of a
relationship the argument. -/
def name? (c : Context) : Option String :=
  match c.place with
  | .node _ name _ => some name
  | .relationship _ _ name _ => name

end Context

/-- The contexts a walk has opened so far and the registry it fills. -/
structure Walk where
  contexts : Array Context := #[]
  registry : Registry := {}
  deriving Inhabited

/-- A step on a walk, which keeps what was done before a failure. -/
abbrev Walking (α : Type) := ExceptT Fault (StateM Walk) α

namespace Walking

/-- Register an element. -/
def register {α : Type} (registration : Registration α) : Walking α := do
  let w ← get
  let (outcome, registry) := registration.run.run w.registry
  set { w with registry }
  outcome

/-- Register a node to be matched and answer with its name. -/
def matchNode (given : LabelArgument) (name : Option String)
    (optional : Bool) :
    Walking String := do
  return (← register
    (Registration.node given name (.matching optional))).name?.getD ""

/-- Open a context. -/
def enter (context : Context) : Walking ContextId :=
  modifyGet fun w =>
    (w.contexts.size, { w with contexts := w.contexts.push context })

/-- The context of a number. -/
def context (c : ContextId) : Walking Context := do
  match (← get).contexts[c]? with
  | some context => return context
  | none => throw (.noSuchContext "context")

/-- Note a node collected below a context. -/
def addChild (c : ContextId) (name : String) : Walking Unit :=
  modify fun w => { w with
    contexts := w.contexts.modify c fun context =>
      { context with children := context.children ++ [name] } }

/-- Register a node below a context and descend to it. -/
def addChildNode (c : ContextId) (given : LabelArgument)
    (name : Option String) (optional : Bool) : Walking ContextId := do
  let here ← context c
  let optional := here.optional || optional
  let name ← matchNode given name optional
  let child ← enter { place := .node (some c) name false, optional }
  addChild c name
  return child

/-- Open a relationship.  On a relationship this goes on from an anonymous
node at its far end. -/
def addRelationship (c : ContextId) (types : LabelArgument)
    (name : Option String) (direction : Option Direction) (optional : Bool) :
    Walking ContextId := do
  let here ← context c
  let optional := here.optional || optional
  match here.place with
  | .node _ _ _ =>
    enter { place := .relationship c types name direction, optional }
  | .relationship _ _ _ _ =>
    let between ← matchNode .none none optional
    let middle ← enter { place := .node (some c) between true, optional }
    addChild c between
    enter { place := .relationship middle types name direction, optional }

/-- Ascend from a node to the context above it. -/
def leave (c : ContextId) : Walking ContextId := do
  match (← context c).parent with
  | some parent => return parent
  | none => throw .rootEnded

/-- Register a relationship to be matched and answer with its name. -/
def matchRelationship (left : String) (right : Option String)
    (types : LabelArgument) (name : Option String)
    (direction : Option Direction) (optional : Bool) : Walking String := do
  let element ← register
    (Registration.relationship (some left) right types name direction
      (.matching optional))
  return element.name?.getD ""

/-- Register the relationships to further far ends, numbered after the first
one. -/
def matchFan (left base : String) (types : LabelArgument)
    (direction : Option Direction) (optional : Bool) : Nat → List String →
    Walking Unit
  | _, [] => return ()
  | i, right :: rest => do
    let _ ← matchRelationship left (some right) types
        (some (base ++ toString i)) direction optional
    matchFan left base types direction optional (i + 1) rest

/-- Ascend.  A relationship is registered to each node collected, and to an
anonymous one if there is none. -/
def ascend (c : ContextId) : Walking ContextId := do
  let here ← context c
  match here.place with
  | .node _ _ _ => leave c
  | .relationship origin types name direction =>
    let start ← context origin
    let left := start.name?.getD ""
    match here.children with
    | [] =>
      let _ ← matchRelationship left none types name direction here.optional
    | first :: rest =>
      let base ← matchRelationship left (some first) types name direction
          here.optional
      matchFan left base types direction here.optional 1 rest
    match start.place with
    | .node (some _) _ true => leave origin
    | _ => return origin

/-- Start at a node. -/
def startAtNode (given : LabelArgument) (name : Option String)
    (optional : Bool) :
    Walking ContextId := do
  let name ← matchNode given name optional
  enter { place := .node none name false, optional }

/-- Start on a relationship that leaves an anonymous node. -/
def startOnRelationship (types : LabelArgument) (name : Option String)
    (direction : Option Direction) (optional : Bool) : Walking ContextId := do
  let root ← matchNode .none none optional
  let origin ← enter { place := .node none root true, optional }
  addRelationship origin types name direction optional

/-- Start on a relationship if the one token given marks a direction, else
at a node. -/
def start (given : LabelArgument) (name : Option String) (optional : Bool) :
    Walking ContextId :=
  match given with
  | .one token =>
    if hasDirectionMarker token then startOnRelationship given name none
        optional
    else startAtNode given name optional
  | _ => startAtNode given name optional

end Walking

/-- A step of a walk; the properties it gives are of type `α`. -/
inductive WalkStep (α : Type) where
  | start (given : LabelArgument) (name : Option String) (optional : Bool)
  | startAtNode (given : LabelArgument) (name : Option String)
      (optional : Bool)
  | startOnRelationship (given : LabelArgument) (name : Option String)
      (direction : Option Direction) (optional : Bool)
  | addChildNode (given : LabelArgument) (name : Option String)
      (optional : Bool)
  | addRelationship (given : LabelArgument) (name : Option String)
      (direction : Option Direction) (optional : Bool)
  | ascend
  /-- A call of the store of the walk, which stays where it is. -/
  | store (call : StoreCall α)
  /-- A step there is not. -/
  | unknown (method : String)
  deriving Inhabited

namespace WalkStep

/-- The name of a step. -/
def method {α : Type} : WalkStep α → String
  | start _ _ _ => "from_"
  | startAtNode _ _ _ => "from_node"
  | startOnRelationship _ _ _ _ => "from_relationship"
  | addChildNode _ _ _ => "add_child_node"
  | addRelationship _ _ _ _ => "add_relationship"
  | ascend => "end"
  | store _ => "store"
  | unknown method => method

/-- How a step that starts a new walk starts it. -/
def starting? {α : Type} : WalkStep α → Option (Walking ContextId)
  | start given name optional => some (Walking.start given name optional)
  | startAtNode given name optional =>
    some (Walking.startAtNode given name optional)
  | startOnRelationship given name direction optional =>
    some (Walking.startOnRelationship given name direction optional)
  | _ => none

/-- How a step leads from one context to another. -/
def move (c : ContextId) : WalkStep Assignment → Walking ContextId
  | addChildNode given name optional =>
    Walking.addChildNode c given name optional
  | addRelationship given name direction optional =>
    Walking.addRelationship c given name direction optional
  | ascend => Walking.ascend c
  | store call => do
    let _ ← Walking.register call.perform
    return c
  | step => throw (.noSuchMethod step.method)

end WalkStep

/-- A walk together with the context it is in. -/
structure Position where
  walk : Walk
  context : ContextId
  deriving Inhabited

/-- Take a step from a position.  A failing step leaves the walk in its
context, with what it did before it failed. -/
def Position.step (here : Option Position) (step : WalkStep Assignment) :
    Except Fault Unit × Option Position :=
  match step.starting?, here with
  | some starting, _ =>
    let log := match here with
      | some p => p.walk.registry.log
      | none => []
    match starting.run.run { registry := { log } } with
    | (.ok context, walk) => (.ok (), some { walk, context })
    | (.error fault, _) => (.error fault, here)
  | none, none => (.error (.noSuchContext step.method), none)
  | none, some p =>
    match (step.move p.context).run.run p.walk with
    | (.ok context, walk) => (.ok (), some { walk, context })
    | (.error fault, walk) => (.error fault, some { p with walk })

/-- Take steps until one fails. -/
def Position.run (here : Option Position) :
    List (WalkStep Assignment) → Except Fault Unit × Option Position
  | [] => (.ok (), here)
  | step :: rest =>
    match Position.step here step with
    | (.ok (), there) => Position.run there rest
    | (.error fault, there) => (.error fault, there)

end GraphQuery.Pattern
