/-!
# Quoting

An identifier stands bare when it is a plain word and between backticks
otherwise, with every backtick in it doubled.  A string stands between
single quotes, with a backslash in front of every single quote and every
backslash in it.
-/

namespace GraphQuery.Text

/-- The backtick, which quotes identifiers. -/
def backtick : Char := Char.ofNat 96

/-- The single quote, which quotes strings. -/
def singleQuote : Char := Char.ofNat 39

/-- The backslash, which escapes inside a quoted string. -/
def backslash : Char := Char.ofNat 92

/-- A letter a plain word may begin with. -/
def isWordStart (c : Char) : Bool := c.isAlpha || c == '_'

/-- A character a plain word may go on with. -/
def isWordPart (c : Char) : Bool := isWordStart c || c.isDigit

/-- A text without one final line break. -/
def dropFinalNewline (s : List Char) : List Char :=
  match s.reverse with
  | c :: rest => if c = Char.ofNat 10 then rest.reverse else s
  | [] => s

/-- Whether a text is an ASCII letter or underscore followed by ASCII
letters, digits and underscores. -/
def isWord : List Char → Bool
  | [] => false
  | c :: rest => isWordStart c && rest.all isWordPart

/-- Whether an identifier stands bare: it is a plain word, where one final
line break does not count. -/
def isPlainIdentifier (s : List Char) : Bool := isWord (dropFinalNewline s)

/-- Every `c` written twice. -/
def doubled (c : Char) (s : List Char) : List Char :=
  s.flatMap fun d => if d = c then [c, c] else [d]

/-- An identifier as it stands in a query. -/
def quoteIdentifier (s : List Char) : List Char :=
  if isPlainIdentifier s then s else backtick :: doubled backtick s ++
      [backtick]

/-- A string literal as it stands in a query. -/
def quoteString (s : List Char) : List Char :=
  singleQuote ::
    (s.flatMap fun c => if c = backslash || c = singleQuote then [backslash,
      c] else [c]) ++
    [singleQuote]

/-- An identifier as it stands in a query. -/
def identifier (name : String) :
    String := String.ofList (quoteIdentifier name.toList)

/-- A string literal as it stands in a query. -/
def stringLiteral (text : String) :
    String := String.ofList (quoteString text.toList)

end GraphQuery.Text
