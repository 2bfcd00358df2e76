import GraphQuery.Fault
import GraphQuery.Text.Quoted

/-!
# Expressions

The terms queries are written with, and their texts.  A bound value never
appears in a text: a parameter is written as its name behind a dollar sign.
Names of variables, properties and labels are quoted where needed, texts of
raw fragments are written verbatim.
-/

namespace GraphQuery

/-- A value bound under a name. -/
structure Parameter where
  name : String
  value : Value
  deriving Inhabited

/-- A term of a query. -/
inductive Expression where
  /-- A named element. -/
  | var (name : String)
  /-- A property of a named element. -/
  | property (owner key : String)
  | parameter (p : Parameter)
  /-- A fragment of query text. -/
  | raw (text : String)
  /-- A column of the row a batch is unwound to. -/
  | column (row key : String)
  /-- The different values of an expression, inside an aggregation. -/
  | distinct (e : Expression)
  | call (function : String) (arguments : List Expression)
  /-- An expression under a new name. -/
  | aliased (e : Expression) (name : String)
  /-- An element of another kind where an expression belongs; it has no text. -/
  | misplaced (kind : ElementKind)
  /-- A value no property is given: the element in the place of an assignment,
  of the given kind, has no such part.  It has no text. -/
  | absent (kind : ElementKind) (part : String)
  deriving Inhabited

/-- The labels behind an element, each behind a colon. -/
def labelsText (labels : List String) : String :=
  String.join (labels.map fun label => ":" ++ Text.identifier label)

/-- The text of a property. -/
def propertyText (owner key : String) : String :=
  Text.identifier owner ++ "." ++ Text.identifier key

namespace Expression

/-- Whether an expression is an alias. -/
def isAlias : Expression → Bool
  | aliased _ _ => true
  | _ => false

mutual

/-- The text of an expression.  An alias of an alias keeps the inner name. -/
def text : Expression → Except Fault String
  | var name => .ok (Text.identifier name)
  | property owner key => .ok (propertyText owner key)
  | parameter p => .ok ("$" ++ p.name)
  | raw fragment => .ok fragment
  | column row key =>
    .ok (Text.identifier row ++ "[" ++ Text.stringLiteral key ++ "]")
  | distinct e => do return "DISTINCT " ++ (← text e)
  | call function arguments => do
    return function ++ "(" ++ ",".intercalate (← texts arguments) ++ ")"
  | aliased e name => do
    let inner ← text e
    return if e.isAlias then inner else inner ++ " AS " ++
      Text.identifier name
  | misplaced kind => .error (.unsupported .expression kind)
  | absent kind part => .error (.notAnAssignment kind part)

/-- The texts of a list of expressions. -/
def texts : List Expression → Except Fault (List String)
  | [] => .ok []
  | e :: rest => do return (← text e) :: (← texts rest)

end

end Expression

/-- A value given to a property. -/
structure Assignment where
  owner : String
  key : String
  value : Expression
  deriving Inhabited

namespace Assignment

/-- The text of an assignment among the items of a SET clause. -/
def text (a : Assignment) : Except Fault String := do
  return propertyText a.owner a.key ++ " = " ++ (← a.value.text)

/-- The key of an assignment with the text of its value. -/
def entry (a : Assignment) : Except Fault (String × String) := do
  return (a.key, ← a.value.text)

end Assignment

/-- An item of a SET clause. -/
inductive SetItem where
  | assign (a : Assignment)
  /-- Labels given to a named element. -/
  | labels (owner : String) (names : List String)
  | raw (text : String)
  /-- An element of another kind; it has no text here. -/
  | misplaced (kind : ElementKind)
  deriving Inhabited

/-- The text of an item of a SET clause. -/
def SetItem.text : SetItem → Except Fault String
  | assign a => a.text
  | labels owner names => .ok (Text.identifier owner ++ labelsText names)
  | raw text => .ok text
  | misplaced kind => .error (.unsupported .setItem kind)

/-- An item of a REMOVE clause. -/
inductive RemoveItem where
  | property (owner key : String)
  /-- Labels taken from a named element. -/
  | labels (owner : String) (names : List String)
  /-- An element of another kind; it has no text here. -/
  | misplaced (kind : ElementKind)
  deriving Inhabited

/-- The text of an item of a REMOVE clause. -/
def RemoveItem.text : RemoveItem → Except Fault String
  | property owner key => .ok (propertyText owner key)
  | labels owner names => .ok (Text.identifier owner ++ labelsText names)
  | misplaced kind => .error (.unsupported .removeItem kind)

end GraphQuery
