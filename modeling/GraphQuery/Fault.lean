import GraphQuery.Report

/-!
# Causes of errors

Everything that can go wrong while a query is built, compiled or run, as
data: one constructor for each cause, with what is needed to describe it.
`Fault.report` is the only place where the causes are put into words.
-/

namespace GraphQuery

/-- The kinds of elements a query is put together from. -/
inductive ElementKind where
  | var
  | property
  | parameter
  | raw
  | column
  | distinct
  | call
  | aliased
  | assignment
  | labels
  | node
  | relationship
  | comparison
  | propertyComparison
  | nullCheck
  | group
  | rawFilter
  | existence
  | count
  deriving DecidableEq, Repr, Inhabited

/-- The name an element kind has in error messages. -/
def ElementKind.name : ElementKind → String
  | .var => "Variable"
  | .property => "PropertyRef"
  | .parameter => "Parameter"
  | .raw => "RawFragment"
  | .column => "MapValue"
  | .distinct => "Distinct"
  | .call => "FunctionCall"
  | .aliased => "Alias"
  | .assignment => "PropertyAssignment"
  | .labels => "LabelAssignment"
  | .node => "Node"
  | .relationship => "Relationship"
  | .comparison => "Binary"
  | .propertyComparison => "BinaryProperty"
  | .nullCheck => "IsNull"
  | .group => "Inner"
  | .rawFilter => "Raw"
  | .existence => "SubQueryExists"
  | .count => "SubQueryCount"

/-- The grammars elements are rendered by. -/
inductive Grammar where
  | expression
  | setItem
  | removeItem
  | pattern
  | filter
  deriving DecidableEq, Repr, Inhabited

/-- The name a grammar has in error messages. -/
def Grammar.name : Grammar → String
  | expression => "expression"
  | setItem => "set"
  | removeItem => "remove"
  | pattern => "pattern"
  | filter => "where"

/-- A failure of a database driver. -/
inductive DriverFailure where
  /-- The database cannot be reached or rejects the query. -/
  | service (message : String)
  /-- The driver refuses what it was given. -/
  | value (message : String)
  deriving DecidableEq, Repr, Inhabited

/-- The message a driver failure comes with. -/
def DriverFailure.message : DriverFailure → String
  | service m => m
  | value m => m

/-- A cause of failure. -/
inductive Fault where
  /-- A created or merged element was given no label or type. -/
  | labelRequired (operation : String) (given : Value)
  /-- Values for an element nobody declared. -/
  | undeclared (name : String)
  /-- A relationship's name was used for a node. -/
  | notANode (name : String)
  /-- A node's name was used for a relationship. -/
  | notARelationship (name : String)
  /-- A walk was ended at its root. -/
  | rootEnded
  /-- A walk went on before it started. -/
  | noSuchContext (step : String)
  | unknownComparison (operator operation : String) (choices : List String)
  | unknownChain (chain : String)
  | unknownFilterSuffix (suffix key : String) (value : Value)
      (choices : List String)
  /-- A group of filters that is not a list of mappings. -/
  | malformedGroups (key : String) (groups : Value)
  /-- A group of filters that is no sequence at all. -/
  | notASequence (groups : Value)
  | pageOutOfRange (page : Int)
  | pageSizeOutOfRange (size : Int)
  | unknownOrder (direction : String)
  /-- A sub-query was called by a query it was not created from. -/
  | foreignSubQuery
  /-- Something else was called as a sub-query. -/
  | notASubQuery
  /-- Something else was given as the second query of a union. -/
  | notAQuery
  /-- The second query of a union is missing. -/
  | unionMissing
  /-- The second query of a union has parameters of its own. -/
  | unionSeparate
  /-- A pattern without a named matched element cannot start a query. -/
  | patternUnnamed
  /-- A walk without a step leads to no pattern. -/
  | patternMissing
  /-- A query is to be run, but nothing to run it on is attached. -/
  | notAttached (operation : String)
  /-- What is attached runs no queries. -/
  | notARunner
  | unknownConnection (connection : String) (known : List String)
  /-- An element stands where its kind has no text. -/
  | unsupported (grammar : Grammar) (kind : ElementKind)
  /-- An element stands among properties, but it or what it is about lacks a
  part of an assignment. -/
  | notAnAssignment (kind : ElementKind) (part : String)
  /-- A number of rows has more digits than are written. -/
  | tooManyDigits (limit : Nat)
  | transactionBound (connection : String)
  | noTransaction (connection operation : String)
  | queryFailed (connection query : String) (parameterNames : List String)
      (message : String)
  | noRecord
  | missingColumn (column : String)
  | driver (failure : DriverFailure)
  | noSuchBuilder (register : String)
  | noSuchMethod (method : String)
  /-- A query contains itself. -/
  | endless
  /-- A value of a type that has no copies. -/
  | uncopyable (type : String)
  /-- What is copied is nested too deep. -/
  | tooDeep
  deriving Inhabited

namespace Fault

/-- A list of choices, as error details give them. -/
def oneOf (choices : List String) :
    String := "one of " ++ ", ".intercalate choices

/-- Details about a call of the database. -/
def databaseDetails (operation : String) (connection : Option String := none)
    (query : Option String := none) (parameterNames : List String := []) :
    Details :=
  ⟨"execution", operation, .database connection query parameterNames⟩

/-- A cause put into words. -/
def report : Fault → Report
  | labelRequired operation given =>
    .ofArgument (operation ++ " requires at least one label or type")
      operation
      (some "label_or_type") given (some "non-empty")
  | undeclared name =>
    .ofArgument ("No node or relationship named '" ++ name ++
      "' has been declared") "assign"
      (some "name") (.text name)
  | notANode name =>
    .ofKind .patternConflict
      ("'" ++ name ++
        "' is already declared as a relationship and cannot be used as a node")
      ⟨"pattern", "register_node", .none⟩
  | notARelationship name =>
    .ofKind .patternConflict
      ("'" ++ name ++
        "' is already declared as a node and cannot be used as a relationship")
      ⟨"pattern", "register_relationship", .none⟩
  | rootEnded =>
    .ofArgument "Cannot end the root of a pattern" "end" none .null
      (some "context must have a parent")
  | noSuchContext step => ⟨.noSuchContext, step, none⟩
  | unknownComparison operator operation choices =>
    .ofArgument ("Unsupported comparison operator '" ++ operator ++ "'")
      operation
      (some "operator") (.text operator) (some (oneOf choices))
  | unknownChain chain =>
    .ofArgument ("Unsupported chain operator '" ++ chain ++ "'") "where"
      (some "chain")
      (.text chain) (some "one of AND, OR, XOR")
  | unknownFilterSuffix suffix key value choices =>
    .ofArgument ("Unsupported filter operator '" ++ suffix ++ "' in '" ++
      key ++ "'")
      "where_filters" (some key) value (some (oneOf choices))
  | malformedGroups key groups =>
    .ofArgument ("'" ++ key ++ "' expects a list of filter dictionaries")
      "where_filters"
      (some key) groups (some "list of dict")
  | notASequence groups =>
    ⟨.type, "'" ++ groups.typeName ++ "' object is not iterable", none⟩
  | pageOutOfRange page =>
    .ofArgument "Page number must be greater than or equal to 1" "paginate"
      (some "page")
      (.int page) (some ">= 1")
  | pageSizeOutOfRange size =>
    .ofArgument "Page size must be greater than or equal to 1" "paginate"
      (some "page_size")
      (.int size) (some ">= 1")
  | unknownOrder direction =>
    .ofArgument ("Invalid order direction '" ++ direction ++ "'")
      "ordering_by"
      (some "direction") (.text direction) (some "ASC or DESC")
  | foreignSubQuery =>
    .ofArgument
      "A sub-query builder must be created from the query calling it"
        "calling"
      (some "sub_query") .null
        (some "shares the parameters of the calling query")
  | notASubQuery => ⟨.type, "'QueryBuilder' object is not callable", none⟩
  | notAQuery => ⟨.incomplete, "a query is missing", none⟩
  | unionMissing =>
    .ofArgument "The union callback must return the query it started"
      "unioning" (some "query")
  | unionSeparate =>
    .ofArgument "The union query binds parameters in a separate stack"
      "unioning" (some "query")
      .null (some "start it from the union callback")
  | patternUnnamed =>
    .ofArgument
      "A pattern builder needs a named match element to start a query from"
      "from_pattern_builder" (some "context") .null
      (some "at least one matched node or relationship")
  | notAttached operation =>
    .ofArgument "No execution context is attached to this builder" operation
      none .null
      (some "call using_context() first")
  | notARunner => ⟨.incomplete, "a database is missing", none⟩
  | patternMissing => ⟨.incomplete, "a pattern is missing", none⟩
  | unknownConnection connection known =>
    .ofArgument
      ("No driver is registered for connection '" ++ connection ++ "'")
      "driver" (some "connection") (.text connection)
      (some (if (", ".intercalate known).isEmpty then "one of no connections"
        else oneOf known))
  | unsupported grammar kind => .ofElement grammar.name kind.name
  | notAnAssignment kind part =>
    ⟨.incomplete, "'" ++ kind.name ++ "' object has no attribute '" ++
      part ++ "'", none⟩
  | tooManyDigits limit =>
    ⟨.value, "Exceeds the limit (" ++ toString limit ++
      " digits) for integer string conversion; " ++
      "use sys.set_int_max_str_digits() to increase the limit", none⟩
  | transactionBound connection =>
    .ofKind .transaction ("A transaction is already bound to connection '" ++
      connection ++ "'")
      (databaseDetails "begin_transaction" (some connection))
  | noTransaction connection operation =>
    .ofKind .transaction ("No transaction is bound to connection '" ++
      connection ++ "'")
      (databaseDetails operation (some connection))
  | queryFailed connection query parameterNames message =>
    .ofKind .execution ("Query failed on connection '" ++ connection ++
      "': " ++ message)
      (databaseDetails "run" (some connection) (some query) parameterNames)
  | noRecord => .ofKind .noResult "The query returned no records"
      (databaseDetails "first")
  | missingColumn column => ⟨.key, "'" ++ column ++ "'", none⟩
  | driver (.service message) => ⟨.serviceUnavailable, message, none⟩
  | driver (.value message) => ⟨.value, message, none⟩
  | noSuchBuilder register => ⟨.noSuchBuilder, register, none⟩
  | noSuchMethod method => ⟨.noSuchMethod, method, none⟩
  | endless | tooDeep => ⟨.recursion, "maximum recursion depth exceeded",
      none⟩
  | uncopyable type => ⟨.type, "cannot pickle '" ++ type ++ "' object", none⟩

end Fault

end GraphQuery
