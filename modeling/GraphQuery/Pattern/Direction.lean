import GraphQuery.Pattern.Naming

/-!
# Directions

The arrow between the ends of a relationship, and how a type token marks it:
`<` in front of the type points left, `>` behind it points right, both leave
the direction open.  The markers belong to the type, so the one in front may
also stand before a name that the token carries.
-/

namespace GraphQuery.Pattern

/-- The arrow between the ends of a relationship. -/
inductive Direction where
  | leftToRight
  | rightToLeft
  | any
  deriving DecidableEq, Repr, Inhabited

namespace Direction

/-- The sign of a direction. -/
def sign : Direction → String
  | leftToRight => "->"
  | rightToLeft => "<-"
  | any => "-"

/-- The direction of a sign. -/
def ofSign? (s : String) : Option Direction :=
  [leftToRight, rightToLeft, any].find? fun d => d.sign == s

/-- A direction is read back from its sign. -/
theorem ofSign?_sign (d : Direction) : ofSign? d.sign = some d := by
  cases d <;> rfl

/-- The direction a pair of markers stands for. -/
def ofMarkers (leading trailing : Bool) : Option Direction :=
  match leading, trailing with
  | true, true => some any
  | true, false => some rightToLeft
  | false, true => some leftToRight
  | false, false => none

end Direction

/-- A type token taken apart. -/
structure MarkedToken where
  /-- The name in front of the colon, without a marker. -/
  name : List Char
  /-- Whether there is a colon. -/
  colon : Bool
  /-- The type, with its markers. -/
  type : List Char
  /-- Whether there is a marker in front. -/
  leading : Bool
  /-- Whether there is a marker behind. -/
  trailing : Bool

/-- Take a type token apart. -/
def MarkedToken.ofToken (token : List Char) : MarkedToken :=
  let token := Text.trim token
  let (name, colon, type) := match Text.cutAtFirst ':' token with
    | some (name, type) => (name, true, type)
    | none => ([], false, token)
  { name := Text.trim (Text.dropLeading '<' name)
    colon
    type := Text.trim type
    leading := token.head? == some '<' || (Text.trimLeft type).head? ==
      some '<'
    trailing := token.getLast? == some '>' }

namespace MarkedToken

/-- The direction a token marks. -/
def direction (t : MarkedToken) : Option Direction :=
  Direction.ofMarkers t.leading t.trailing

/-- The token without its markers; empty when it holds nothing else. -/
def cleaned (t : MarkedToken) : List Char :=
  let type := Text.trim (Text.dropTrailing '>' (Text.dropLeading '<' t.type))
  if type.isEmpty && t.name.isEmpty then []
  else t.name ++ (if t.colon then [':'] else []) ++ type

end MarkedToken

/-- Whether a token marks a direction. -/
def hasDirectionMarker (token : String) : Bool :=
  (MarkedToken.ofToken token.toList).direction.isSome

/-- The types without the markers of the first one, and the direction these
stand for. -/
def extractDirection : List String → List String × Option Direction
  | [] => ([], none)
  | first :: others =>
    let token := MarkedToken.ofToken first.toList
    match token.direction with
    | none => (first :: others, none)
    | some direction =>
      let cleaned := token.cleaned
      (if cleaned.isEmpty then others else String.ofList cleaned :: others,
        some direction)

end GraphQuery.Pattern
