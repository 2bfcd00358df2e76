import GraphQuery.Builder.Property
import GraphQuery.Composition
import GraphQuery.Copying
import GraphQuery.ParameterStack
import GraphQuery.Pattern.Walk
import GraphQuery.Settings

/-!
# The workspace of builders

Queries under construction refer to each other: a query calls its
sub-queries and ends in the query it is united with, and each of them can
still be worked on.  A workspace holds all builders in the order they were
made; they refer to each other, to their parameter stack and to their
sequence of anonymous names by number.  A builder that contains itself fails
only where the text of the inner one is needed.
-/

namespace GraphQuery

/-- The number of a builder in its workspace. -/
abbrev BuilderId := Nat

/-- What can be attached to a query for running it. -/
inductive Runner where
  | connections
  /-- A builder, which runs no queries. -/
  | builder
  deriving DecidableEq, Repr, Inhabited

/-- A query under construction. -/
structure Builder where
  /-- Whether this builds a whole query; a sub-query only matches, filters,
  calls and returns. -/
  whole : Bool
  /-- The stack its values are bound in. -/
  stack : Nat
  /-- The sequence its anonymous names are drawn from. -/
  sequence : Nat
  body : Structure BuilderId
  /-- What is attached for running it. -/
  runner : Option Runner := none
  /-- The connection it is run on. -/
  connection : Option String := none
  deriving Inhabited

/-- All builders with what they share. -/
structure Workspace where
  settings : Settings := {}
  limits : CopyLimits := {}
  parameterStacks : Array ParameterStack := #[]
  sequences : Array Pattern.NameSequence := #[]
  builders : Array Builder := #[]
  /-- The builders that took filters over as a group, each with the builder it
  took them from.  Nothing that is built depends on them. -/
  takings : List (BuilderId × BuilderId) := []
  log : List LogEvent := []
  deriving Inhabited

namespace Workspace

/-- The parameter stack of a number. -/
def stack (w : Workspace) (n : Nat) : ParameterStack :=
  w.parameterStacks[n]?.getD { stem := "" }

/-- The parameter stack of a builder. -/
def stackOf (w : Workspace) (b : BuilderId) : ParameterStack :=
  match w.builders[b]? with
  | some builder => w.stack builder.stack
  | none => { stem := "" }

/-- What a builder has built; nothing for a number no builder has. -/
def body (w : Workspace) (b : BuilderId) : Structure BuilderId :=
  (w.builders[b]?.getD default).body

/-- The clauses of a nested builder.  `outer` are the builders it is nested
in, each with the composition it is compiled by; to need one of them again
is endless.  As these are all different, there cannot be more of them than
`depth` was in the beginning: the builders by three compositions. -/
def nested (w : Workspace) : (depth : Nat) →
    (outer : List (BuilderId × Composition)) →
    BuilderId → Nested
  | 0, _, _, _ => .error .endless
  | depth + 1, outer, b, composition =>
    if outer.contains (b, composition) then .error .endless
    else composition.clauses
      ((w.body b).map (nested w depth ((b, composition) :: outer)))

/-- What a builder has built, with the nested builders given by their
clauses. -/
def opened (w : Workspace) (b : BuilderId) : Structure Nested :=
  (w.body b).map (w.nested (3 * w.builders.size) [])

/-- A workspace in which what a builder holds is changed. -/
def changed (w : Workspace) (b : BuilderId) (change : Content → Content) :
    Workspace :=
  { w with builders := w.builders.modify b fun builder =>
      { builder with body :=
        { builder.body with toContent := change builder.body.toContent } } }

/-- Copy what a builder has built, to be found under a number of nested
calls, with all that is nested in it; answers with the builders copied by
then.  What has been copied before, or is being copied, is not copied again.
So there are never more builders nested in each other on the way than there
are builders, which is what `depth` is in the beginning. -/
def copyBody (w : Workspace) : (depth : Nat) → (calls : Nat) →
    (copied : List BuilderId) → BuilderId → Except Fault (List BuilderId)
  | 0, _, copied, _ => .ok copied
  | depth + 1, calls, copied, b =>
    if copied.contains b then .ok copied
    else do
      w.limits.reach (calls + Copying.ofEntry)
      (w.body b).holdings.foldlM
        (w.limits.copyHolding calls (copyBody w depth)) (b :: copied)

/-- Copy a builder, which fails at what cannot be copied. -/
def copying (w : Workspace) (b : BuilderId) : Except Fault Unit := do
  let _ ← w.copyBody w.builders.size 0 [] b
  return ()

/-- The clauses that the composition of a kind makes of a builder. -/
def composed (w : Workspace) (b : BuilderId) (kind : QueryKind := .full) :
    Except Fault (List Clause) :=
  kind.composition.clauses (w.opened b)

/-- The clauses a builder compiles to.  They are made of a copy of it. -/
def clauses (w : Workspace) (b : BuilderId) (kind : QueryKind := .full) :
    Except Fault (List Clause) := do
  w.copying b
  w.composed b kind

/-- The text a builder compiles to. -/
def text (w : Workspace) (b : BuilderId) (kind : QueryKind := .full) :
    Except Fault String := do
  return clausesText (← w.clauses b kind)

end Workspace

/-- A step in a workspace, which keeps what was done before a failure. -/
abbrev Building (α : Type) := ExceptT Fault (StateM Workspace) α

namespace Building

/-- The builder of a number. -/
def builder (b : BuilderId) : Building Builder := do
  match (← get).builders[b]? with
  | some builder => return builder
  | none => throw .endless

/-- Change a builder. -/
def amend (b : BuilderId) (change : Builder → Builder) : Building Unit :=
  modify fun w => { w with builders := w.builders.modify b change }

/-- Change what a builder has built. -/
def edit (b : BuilderId)
    (change : Structure BuilderId → Structure BuilderId) : Building Unit :=
  amend b fun builder => { builder with body := change builder.body }

/-- The entry of a builder. -/
def entry (b : BuilderId) : Building String := do
  return (← builder b).body.entry

/-- Log an event. -/
def log (event : LogEvent) : Building Unit :=
  modify fun w => { w with log := w.log ++ [event] }

/-- Bind a value in the stack of a builder. -/
def bind (b : BuilderId) (value : Value) : Building Expression := do
  let n := (← builder b).stack
  let w ← get
  let (expression, stack) := (w.stack n).add value
  set { w with parameterStacks := w.parameterStacks.setIfInBounds n stack }
  return expression

/-- Register something in a store, drawing names from a sequence, and answer
with the outcome and the store. -/
def registerIn {α : Type} (store : Pattern.Store) (sequence : Nat)
    (registration : Pattern.Registration α) :
    Building (Except Fault α × Pattern.Store) :=
  modifyGet fun w =>
    let (outcome, registry) :=
      registration.run.run
        { store, names := w.sequences[sequence]?.getD {}, log := w.log }
    ((outcome, registry.store),
     { w with sequences :=
       w.sequences.setIfInBounds sequence registry.names, log :=
         registry.log })

/-- Register something in the pattern of a builder. -/
def register {α : Type} (b : BuilderId)
    (registration : Pattern.Registration α) :
    Building α := do
  let builder ← builder b
  let (outcome, pattern) ← registerIn builder.body.pattern builder.sequence
      registration
  edit b fun body => { body with pattern }
  outcome

/-- Add a builder to the workspace. -/
def add (builder : Builder) : Building BuilderId :=
  modifyGet fun w =>
    (w.builders.size, { w with builders := w.builders.push builder })

/-- A new parameter stack. -/
def newStack : Building Nat :=
  modifyGet fun w =>
    (w.parameterStacks.size,
      { w with
        parameterStacks := w.parameterStacks.push (.empty w.settings) })

/-- A new sequence of anonymous names. -/
def newSequence (names : Pattern.NameSequence := {}) : Building Nat :=
  modifyGet fun w =>
    (w.sequences.size, { w with sequences := w.sequences.push names })

/-- A builder of a whole query that starts from a pattern with the given
entry. -/
def newQuery (stack sequence : Nat) (pattern : Pattern.Store)
    (entry : String) : Building BuilderId := do
  let batchVariable := (← get).settings.batchVariable
  add
    { whole := true, stack, sequence
      body := { pattern, entry, batchVariable } }

/-- A builder of a sub-query, which shares the parameters, the anonymous
names and the entry of the query it is made from. -/
def newSubQuery (b : BuilderId) : Building BuilderId := do
  let outer ← builder b
  let batchVariable := (← get).settings.batchVariable
  add { whole := false, stack := outer.stack, sequence := outer.sequence
        body := { entry := outer.body.entry, batchVariable } }

/-- Copy a builder. -/
def copy (b : BuilderId) : Building Unit := do (← get).copying b

/-- Compile a query after a change of what it holds, which the builder does
not keep, logging the outcome. -/
def compile (b : BuilderId) (kind : QueryKind)
    (change : Content → Content := id) : Building (List Clause) := do
  let w ← get
  match (w.changed b change).clauses b kind with
  | .ok clauses =>
    log { level := .debug
          event := "Compiled Cypher query"
          fields :=
            [("kind", .text kind.name),
             ("query", .text (clausesText clauses)),
             ("parameter_names", .texts (w.stackOf b).sortedNames)] }
    return clauses
  | .error fault => do
    log (LogEvent.failure "compile" .error fault.report)
    throw fault

end Building

/-- How a query starts. -/
inductive QueryStart where
  /-- From a relationship if the first token marks a direction, else from a
  node. -/
  | any (given : Pattern.LabelArgument) (name : Option String)
      (optional : Bool)
  | node (given : Pattern.LabelArgument) (name : Option String)
      (optional : Bool)
  | relationship (given : Pattern.LabelArgument) (name : Option String)
      (direction : Option Pattern.Direction) (optional : Bool)
  deriving Inhabited

/-- Whether the first token given marks a direction. -/
def startsOnRelationship (given : Pattern.LabelArgument) : Bool :=
  match given.tokens with
  | first :: _ => Pattern.hasDirectionMarker first
  | [] => false

/-- The registration of the element a query starts from. -/
def QueryStart.registration : QueryStart →
    Pattern.Registration Pattern.Element
  | any given name optional =>
    if startsOnRelationship given then
      Pattern.Registration.relationship none none given name none
        (.matching optional)
    else Pattern.Registration.node given name (.matching optional)
  | node given name optional =>
    Pattern.Registration.node given name (.matching optional)
  | relationship given name direction optional =>
    Pattern.Registration.relationship none none given name direction
      (.matching optional)

namespace Building

/-- Start a query with the given stack and sequence; its first element is
the entry. -/
def startWith (stack sequence : Nat) (start : QueryStart) :
    Building BuilderId := do
  let (outcome, pattern) ← registerIn {} sequence start.registration
  let element ← outcome
  newQuery stack sequence pattern (element.name?.getD "")

/-- Start a query, on a stack, a sequence of names and a pattern of its own.
A stack or a pattern that another query already has cannot be handed over:
only the second query of a union is started on the stack and the sequence of
the first. -/
def start (start : QueryStart) : Building BuilderId := do
  startWith (← newStack) (← newSequence) start

/-- Start a query from the pattern of a walk; its first named matched
element is the entry.  The walk is over then: the query gets the pattern and
the sequence of names as the walk leaves them, and no other query is started
from them. -/
def startFromWalk (steps : List (Pattern.WalkStep Assignment)) :
    Building BuilderId := do
  let (outcome, there) := Pattern.Position.run none steps
  let left := there.map fun position => position.walk.registry
  modify fun w =>
    { w with log := w.log ++ (left.map Pattern.Registry.log).getD [] }
  outcome
  match left with
  | none => throw .patternMissing
  | some registry =>
    match (registry.store.chunk .matched).findSome? Pattern.Element.name? with
    | some entry =>
      newQuery (← newStack) (← newSequence registry.names) registry.store
        entry
    | none => throw .patternUnnamed

end Building

end GraphQuery
