import GraphQuery.Expression
import GraphQuery.Settings
import Std.Data.HashSet

/-!
# The parameter stack

The values bound by a query, by name and in the order of their first
binding.  A value bound without a name gets one made of the stem of the
stack and the first number, counting from the size of the stack, that makes
it a new name.
-/

namespace GraphQuery

/-- Bound values in order, and the stem of the names made for them. -/
structure ParameterStack where
  stem : String
  parameters : List Parameter := []
  deriving Inhabited

namespace ParameterStack

/-- An empty stack with the given stem, or with that of the settings if none
is given. -/
def empty (settings : Settings) (stem : Option String := none) :
    ParameterStack :=
  match stem with
  | some stem =>
    { stem := if stem.isEmpty then settings.parameterStem else stem }
  | none => { stem := settings.parameterStem }

/-- The number of bound values. -/
def size (s : ParameterStack) : Nat := s.parameters.length

/-- The names of the bound values, in order. -/
def names (s : ParameterStack) : List String :=
  s.parameters.map Parameter.name

/-- Whether a name is bound. -/
def contains (s : ParameterStack) (name : String) :
    Bool := s.names.contains name

/-- The bound values by name, in order. -/
def entries (s : ParameterStack) : List (String × Value) :=
  s.parameters.map fun p => (p.name, p.value)

/-- The names of the bound values in alphabetical order. -/
def sortedNames (s : ParameterStack) : List String :=
  s.names.mergeSort fun a b => decide (a ≤ b)

/-- The name made for a number. -/
def numbered (s : ParameterStack) (i : Nat) : String := s.stem ++ toString i

/-- The first of the numbers `i, i + 1, …, i + tries` that is not taken; the
last one if all are. -/
def firstFree (isTaken : Nat → Bool) (i : Nat) : Nat → Nat
  | 0 => i
  | tries + 1 => if isTaken i then firstFree isTaken (i + 1) tries else i

/-- The number of the next value bound without a name: the first one,
counting from the size of the stack, whose name is not bound.  Of `size + 1`
different names one is free. -/
def freshNumber (s : ParameterStack) : Nat :=
  if s.contains (s.numbered s.size) then
    let bound := Std.HashSet.ofList s.names
    firstFree (fun i => bound.contains (s.numbered i)) s.size s.size
  else s.size

/-- The name for the next value bound without one. -/
def freshName (s : ParameterStack) : String := s.numbered s.freshNumber

/-- Bind a parameter: in its place if its name is bound, else at the end. -/
def bind (p : Parameter) : List Parameter → List Parameter
  | [] => [p]
  | q :: rest => if q.name = p.name then p :: rest else q :: bind p rest

/-- Bind a value, under the given name or a new one, and answer with the
expression that refers to it.  A fragment of query text is not bound: it is
the expression itself. -/
def add (s : ParameterStack) (value : Value) (name : Option String := none) :
    Expression × ParameterStack :=
  match value with
  | .raw fragment => (.raw fragment, s)
  | value =>
    let p : Parameter := ⟨name.getD s.freshName, value⟩
    (.parameter p, { s with parameters := bind p s.parameters })

end ParameterStack

end GraphQuery
