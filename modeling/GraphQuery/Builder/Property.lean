import GraphQuery.Expression
import GraphQuery.Text.Blank
import GraphQuery.Text.Split

/-!
# Written properties and labels

Builders are given properties, projections and labels as short texts.
`name` is a property of the entry and `n.name` one of `n`; `n.name AS alias`
is a property under a new name; `n:Label1:Label2` names labels of `n` and
`Label` one of the entry.
-/

namespace GraphQuery

/-- The owner and the key of a written property: what stands before and
after the first point. -/
def propertyReference (entry written : String) : String × String :=
  match Text.cutAtFirst '.' written.toList with
  | some (owner, key) => (String.ofList owner, String.ofList key)
  | none => (entry, written)

/-- A written property as an expression. -/
def writtenProperty (entry written : String) : Expression :=
  let (owner, key) := propertyReference entry written
  .property owner key

/-- A property as an argument: written, or a fragment of query text. -/
inductive PropertyArgument where
  | written (property : String)
  | raw (text : String)
  deriving DecidableEq, Repr, Inhabited

/-- A property argument as an expression. -/
def PropertyArgument.expression (entry : String) : PropertyArgument →
    Expression
  | written property => writtenProperty entry property
  | raw text => .raw text

/-- Whether two characters spell the word "as", in any case; the long s is
an s too. -/
def spellsAs (a s : Char) : Bool :=
  (a == 'a' || a == 'A') && (s == 's' || s == 'S' || s == Char.ofNat 0x17F)

/-- What follows the word "as" between two plain spaces, if a text begins
with it and goes on. -/
def afterAs : List Char → Option (List Char)
  | ' ' :: a :: s :: ' ' :: c :: rest =>
    if spellsAs a s then some (c :: rest) else none
  | _ => none

/-- What stands before and after the first "as" between two plain spaces. -/
def cutAtAs : List Char → Option (List Char × List Char)
  | [] => none
  | c :: rest =>
    match afterAs (c :: rest) with
    | some name => some ([], name)
    | none => (cutAtAs rest).map fun cut => (c :: cut.1, cut.2)

/-- The key and the alias of a written key; the key has at least one
character. -/
def keyAndAlias : List Char → Option (List Char × List Char)
  | [] => none
  | c :: rest => (cutAtAs rest).map fun cut => (c :: cut.1, cut.2)

/-- A written projection.  A bare property keeps its key as alias. -/
def writtenProjection (entry written : String) : Expression :=
  let (owner, key) := propertyReference entry written
  match keyAndAlias key.toList with
  | some (key, name) =>
    .aliased (.property owner (String.ofList (Text.trim key)))
      (String.ofList (Text.trim name))
  | none =>
    if written.toList.contains '.' then .property owner key
    else .aliased (.property owner key) written

/-- The owner and the labels of written labels. -/
def writtenLabels (entry written : String) : String × List String :=
  match Text.cutAtFirst ':' written.toList with
  | none => (entry, [Text.trimmed written])
  | some (owner, labels) =>
    let owner := Text.trim owner
    (if owner.isEmpty then entry else String.ofList owner,
     ((Text.pieces ':' labels).map Text.trim).filterMap fun label =>
       if label.isEmpty then none else some (String.ofList label))

/-- A written item to set that names labels. -/
def writtenLabelItem (entry written : String) : SetItem :=
  let (owner, names) := writtenLabels entry written
  .labels owner names

/-- A written item to remove: labels if there is a colon, else a property. -/
def writtenRemoval (entry written : String) : RemoveItem :=
  if written.toList.contains ':' then
    let (owner, names) := writtenLabels entry written
    .labels owner names
  else
    let (owner, key) := propertyReference entry written
    .property owner key

end GraphQuery
