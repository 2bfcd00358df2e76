import GraphQuery.Entries
import GraphQuery.Expression
import GraphQuery.Pattern.Direction

/-!
# Pattern elements

Nodes, relationships and raw fragments, and their texts.  A node is written
`(name:Label \x7bkey: value\x7d)`, a relationship as an arrow between the
names of its ends.  The map of properties holds every key once, at its first
place and with its last value.
-/

namespace GraphQuery.Pattern

/-- A named node. -/
structure Node where
  name : String
  labels : List String := []
  properties : List Assignment := []
  deriving Inhabited

/-- A named relationship between two named ends. -/
structure Relationship where
  name : String
  left : String
  right : String
  types : List String := []
  properties : List Assignment := []
  direction : Direction := .leftToRight
  deriving Inhabited

/-- An element of a pattern. -/
inductive Element where
  | node (n : Node)
  | relationship (r : Relationship)
  /-- A fragment of query text. -/
  | raw (text : String)
  /-- An element of another kind; it has no text here. -/
  | misplaced (kind : ElementKind)
  deriving Inhabited

/-- The map of properties inside a pattern; nothing if there are none. -/
def propertyMapText (properties : List (String × String)) : String :=
  if properties.isEmpty then ""
  else " \x7b" ++
    ", ".intercalate (properties.map fun (key, value) =>
      Text.identifier key ++ ": " ++ value) ++
    "\x7d"

/-- The properties a list of assignments amounts to, with the texts of their
values. -/
def propertyTexts (assignments : List Assignment) :
    Except Fault (List (String × String)) := do
  return putEntries (← assignments.mapM Assignment.entry) []

/-- The text of a node; its name may be empty. -/
def nodeText (name : String) (labels : List String := [])
    (properties : List (String × String) := []) : String :=
  "(" ++ (if name.isEmpty then "" else Text.identifier name) ++
    labelsText labels ++
    propertyMapText properties ++ ")"

/-- The text of a relationship without its ends; its name may be empty. -/
def relationshipText (name : String) (types : List String)
    (properties : List (String × String)) :
    String :=
  "[" ++ (if name.isEmpty then "" else Text.identifier name) ++
    (if types.isEmpty then "" else ":" ++
      "|".intercalate (types.map Text.identifier)) ++
    propertyMapText properties ++ "]"

/-- A relationship drawn as an arrow between the texts of its ends. -/
def Direction.connect (direction : Direction)
    (relationship left right : String) : String :=
  match direction with
  | leftToRight => left ++ "-" ++ relationship ++ "->" ++ right
  | rightToLeft => left ++ "<-" ++ relationship ++ "-" ++ right
  | any => left ++ "-" ++ relationship ++ "-" ++ right

/-- The text of a node. -/
def Node.text (n : Node) : Except Fault String := do
  return nodeText n.name n.labels (← propertyTexts n.properties)

/-- The text of a relationship. -/
def Relationship.text (r : Relationship) : Except Fault String := do
  let relationship :=
    relationshipText r.name r.types (← propertyTexts r.properties)
  return r.direction.connect relationship (nodeText r.left) (nodeText r.right)

namespace Element

/-- The text of an element. -/
def text : Element → Except Fault String
  | node n => n.text
  | relationship r => r.text
  | raw fragment => .ok fragment
  | misplaced kind => .error (.unsupported .pattern kind)

/-- The name of an element that has one. -/
def name? : Element → Option String
  | node n => some n.name
  | relationship r => some r.name
  | _ => none

/-- The properties given to an element. -/
def properties : Element → List Assignment
  | node n => n.properties
  | relationship r => r.properties
  | _ => []

/-- Append properties to an element that can have some. -/
def assign (assignments : List Assignment) : Element → Element
  | node n => node { n with properties := n.properties ++ assignments }
  | relationship r =>
    relationship { r with properties := r.properties ++ assignments }
  | other => other

/-- The place of an element in a clause: raw fragments stand before nodes,
nodes before relationships. -/
def rank : Element → Nat
  | raw _ => 0
  | node _ => 1
  | _ => 2

end Element

/-- Labels extended by those of `more` that are not there yet. -/
def extendLabels (labels more : List String) : List String :=
  more.foldl (fun known label =>
    if known.contains label then known else known ++ [label]) labels

end GraphQuery.Pattern
