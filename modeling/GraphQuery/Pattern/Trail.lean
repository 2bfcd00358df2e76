import GraphQuery.Pattern.Walk

/-!
# Trails

A trail is made of several walks, one begun after the other, each with a
registry of its own.  Every step reaches a context, and a later step may set
out from any context reached before.
-/

namespace GraphQuery.Pattern

/-- A context of one of several walks. -/
structure Spot where
  walk : Nat
  context : ContextId
  deriving DecidableEq, Repr, Inhabited

/-- Several walks, the spot one is at and the spots the steps so far have
reached; a failing step reaches none. -/
structure Trail where
  walks : Array Walk := #[]
  here : Option Spot := none
  reached : Array (Option Spot) := #[]
  deriving Inhabited

namespace Trail

/-- The walk one is on. -/
def walk? (t : Trail) : Option Walk := t.here.bind fun spot =>
    t.walks[spot.walk]?

/-- Where one is on that walk. -/
def position? (t : Trail) : Option Position :=
  t.here.bind fun spot => t.walks[spot.walk]?.map fun walk =>
    ⟨walk, spot.context⟩

/-- The context one is in. -/
def context? (t : Trail) : Option Context := do
  let spot ← t.here
  (← t.walk?).contexts[spot.context]?

/-- The context above. -/
def parent? (t : Trail) : Option Context := do
  let parent ← (← t.context?).parent
  (← t.walk?).contexts[parent]?

/-- Go back to where a step led. -/
def backTo (t : Trail) (step : Nat) :
    Trail := { t with here := (t.reached[step]?).join }

/-- Take a step.  One that starts a walk adds it; a failing step stays where
it is. -/
def step (t : Trail) (step : WalkStep Assignment) :
    Except Fault Unit × Trail :=
  match Position.step t.position? step with
  | (.ok (), some there) =>
    let t := match step.starting?, t.here with
      | none, some spot =>
        { t with
          walks := t.walks.setIfInBounds spot.walk there.walk
          here := some { spot with context := there.context } }
      | _, _ =>
        { t with
          walks := t.walks.push there.walk
          here := some ⟨t.walks.size, there.context⟩ }
    (.ok (), { t with reached := t.reached.push t.here })
  | (outcome, there) =>
    let walks := match there, t.here with
      | some there, some spot => t.walks.setIfInBounds spot.walk there.walk
      | _, _ => t.walks
    (outcome, { t with walks, reached := t.reached.push none })

end Trail

end GraphQuery.Pattern
