import GraphQuery.Fault
import GraphQuery.Text.Blank
import GraphQuery.Text.LetterCase
import GraphQuery.Text.Quoted
import GraphQuery.Text.Split

/-!
# Names and labels

Where the name and the labels of a pattern element come from.  A token
`name:Label1:Label2` carries both; a name argument may carry labels too.  An
element without a name is named after its first label, and one without
labels gets the next name of an anonymous sequence.
-/

namespace GraphQuery.Pattern

/-- The labels, or types, an element is given: none, one token or several. -/
inductive LabelArgument where
  | none
  | one (label : String)
  | many (labels : List String)
  deriving DecidableEq, Repr, Inhabited

namespace LabelArgument

/-- The tokens given. -/
def tokens : LabelArgument → List String
  | none => []
  | one label => [label]
  | many labels => labels

/-- The argument as a value. -/
def toValue : LabelArgument → Value
  | none => .null
  | one label => .text label
  | many labels => .texts labels

/-- The tokens trimmed, without blank ones. -/
def labels (given : LabelArgument) : List String :=
  (given.tokens.filter fun label => !Text.isBlankText label).map Text.trimmed

/-- The labels where at least one is needed. -/
def labelsFor (operation : String) (given : LabelArgument) :
    Except Fault (List String) :=
  if given.labels.isEmpty then .error (.labelRequired operation given.toValue)
  else .ok given.labels

end LabelArgument

/-- The anonymous names: a stem followed by a number that grows with every
name drawn. -/
structure NameSequence where
  stem : String := "anon"
  drawn : Nat := 0
  deriving DecidableEq, Repr, Inhabited

/-- Draw the next name. -/
def NameSequence.draw (names : NameSequence) : String × NameSequence :=
  (names.stem ++ toString names.drawn,
    { names with drawn := names.drawn + 1 })

/-- The two sorts of named elements, which are named after their labels in
different ways. -/
inductive ElementSort where
  | node
  | relationship
  deriving DecidableEq, Repr, Inhabited

/-- The name made of a node label: its first letter in lower case. -/
def defaultNodeName (label : String) :
    String := String.ofList (Text.lowerFirst label.toList)

/-- Whether a type consists of capitals, digits and underscores, where one
final line break does not count. -/
def isScreaming (type : List Char) : Bool :=
  let word := Text.dropFinalNewline type
  !word.isEmpty && word.all fun c => c.isUpper || c.isDigit || c == '_'

/-- The words of a type joined, each but the first with a capital. -/
def camelCased : List (List Char) → List Char
  | [] => []
  | first :: others => first ++ others.flatMap Text.capitalized

/-- The name made of a relationship type.  The words of a type in capitals
are joined in camel case; any other type just gets its first letter in lower
case. -/
def defaultRelationshipName (type : String) : String :=
  let chars := type.toList
  if isScreaming chars then
    let small := chars.map Char.toLower
    match (Text.pieces '_' small).filter fun word => !word.isEmpty with
    | [] => String.ofList small
    | words => String.ofList (camelCased words)
  else String.ofList (Text.lowerFirst chars)

/-- The name made of the first label of an element. -/
def ElementSort.defaultName : ElementSort → String → String
  | .node => defaultNodeName
  | .relationship => defaultRelationshipName

/-- The name and the labels a token with a colon carries. -/
def embedded (token : String) : Option (String × List String) :=
  (Text.cutAtFirst ':' token.toList).map fun (name, rest) =>
    (String.ofList (Text.trim name),
     ((Text.pieces ':' rest).map Text.trim).filterMap fun label =>
       if label.isEmpty then none else some (String.ofList label))

/-- The name an element is given by itself or in its first label, and its
labels.  The name is empty if there is none. -/
def explicitName (labels : List String) (name : Option String) :
    String × List String :=
  let given := Text.trimmed (name.getD "")
  if given.isEmpty then
    match labels with
    | [] => ("", [])
    | first :: others =>
      match embedded first with
      | some (name, own) => (name, own ++ others)
      | none => ("", labels)
  else
    match embedded given with
    | some (name, own) => (name, own ++ labels)
    | none => (given, labels)

/-- The name and labels of an element, and the anonymous names that are
left.  Only an element with neither a name nor a label draws one. -/
def decode (sort : ElementSort) (given : LabelArgument)
    (name : Option String) (names : NameSequence) :
    (String × List String) × NameSequence :=
  let (own, labels) := explicitName given.labels name
  if !own.isEmpty then ((own, labels), names)
  else
    match labels with
    | first :: _ => ((sort.defaultName first, labels), names)
    | [] =>
      let (drawn, names) := names.draw
      ((drawn, []), names)

end GraphQuery.Pattern
