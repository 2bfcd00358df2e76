/-!
# Values

The data a query is given: what is bound to its parameters, what the rows of
a batch hold and what the database answers with.  A value is only carried
along; the one distinction made is that a fragment of query text among the
values is written into the query instead of being bound.
-/

namespace GraphQuery

/-- A value as callers pass it and the database returns it. -/
inductive Value where
  | null
  | bool (b : Bool)
  | int (i : Int)
  /-- A floating point number, in the spelling it came with. -/
  | float (spelling : String)
  | text (s : String)
  | list (items : List Value)
  /-- An ordered mapping. -/
  | map (entries : List (String × Value))
  /-- A fragment of query text, to be written verbatim. -/
  | raw (fragment : String)
  deriving Inhabited

/-- One record of an answer: its columns in order. -/
abbrev Record := List (String × Value)

namespace Value

/-- Whether a value is the null value. -/
def isNull : Value → Bool
  | null => true
  | _ => false

/-- Whether a value is a mapping. -/
def isMap : Value → Bool
  | map _ => true
  | _ => false

/-- The name of the type of a value, as log events give it. -/
def typeName : Value → String
  | null => "NoneType"
  | bool _ => "bool"
  | int _ => "int"
  | float _ => "float"
  | text _ => "str"
  | list _ => "list"
  | map _ => "dict"
  | raw _ => "RawFragment"

/-- The items a value is made of when it is taken as a sequence: those of a
list, the characters of a text, the keys of a mapping. -/
def items? : Value → Option (List Value)
  | list items => some items
  | text s => some (s.toList.map fun c => text (String.singleton c))
  | map entries => some (entries.map fun entry => text entry.1)
  | _ => none

mutual

/-- A value as the details of an error are logged: a fragment of query text
is described by its text. -/
def described : Value → Value
  | list items => list (describedAll items)
  | map entries => map (describedEntries entries)
  | raw fragment => map [("text", text fragment)]
  | value => value

/-- Values as the details of an error are logged. -/
def describedAll : List Value → List Value
  | [] => []
  | value :: rest => described value :: describedAll rest

/-- The entries of a mapping as the details of an error are logged. -/
def describedEntries : List (String × Value) → List (String × Value)
  | [] => []
  | (key, value) :: rest => (key, described value) :: describedEntries rest

end

/-- A list of texts as a value. -/
def texts (items : List String) : Value := list (items.map text)

/-- A text that may be missing as a value. -/
def ofText? : Option String → Value
  | some s => text s
  | none => null

end Value

end GraphQuery
