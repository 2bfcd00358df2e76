import GraphQuery.Fault
import GraphQuery.Text.Blank
import GraphQuery.Text.LetterCase

/-!
# Operators of filters

The comparisons and the chain operators, and the spellings they are accepted
in.  Neither case nor the white space between the words of a comparison
matters.
-/

namespace GraphQuery

/-- The accepted spellings of comparisons, each with the operator it stands
for. -/
def comparisonSpellings : List (String × String) :=
  [("<", "<"), ("<=", "<="), ("=", "="), ("==", "="), ("===", "="),
    (">", ">"), (">=", ">="),
   ("=~", "=~"), ("LIKE", "=~"), ("!=", "<>"), ("!==", "<>"), ("<>", "<>"),
   ("STARTS WITH", "STARTS WITH"), ("ENDS WITH", "ENDS WITH"),
   ("CONTAINS", "CONTAINS"),
   ("IN", "IN")]

/-- The operator a spelling stands for. -/
def comparison? (spelling : String) : Option String :=
  comparisonSpellings.lookup
    (String.ofList (Text.asciiCapital (Text.singleSpaced spelling.toList)))

/-- The operator a spelling stands for, where there has to be one. -/
def comparison (operation spelling : String) : Except Fault String :=
  match comparison? spelling with
  | some operator => .ok operator
  | none => .error (.unknownComparison spelling operation
      (comparisonSpellings.map Prod.fst))

/-- How a filter is joined to the one before it. -/
inductive Chain where
  | and
  | or
  | xor
  deriving DecidableEq, Repr, Inhabited

namespace Chain

/-- The keyword of a chain operator. -/
def keyword : Chain → String
  | and => "AND"
  | or => "OR"
  | xor => "XOR"

/-- The chain operator of a keyword. -/
def ofKeyword? (s : String) : Option Chain :=
  [and, or, xor].find? fun chain => chain.keyword == s

/-- A chain operator is read back from its keyword. -/
theorem ofKeyword?_keyword (c : Chain) : ofKeyword? c.keyword = some c := by
  cases c <;> rfl

/-- The chain operator of a spelling, in any case and with blanks around it. -/
def ofSpelling (spelling : String) : Except Fault Chain :=
  let word := Text.asciiCapital (Text.trim spelling.toList)
  match ofKeyword? (String.ofList word) with
  | some chain => .ok chain
  | none => .error (.unknownChain spelling)

end Chain

end GraphQuery
