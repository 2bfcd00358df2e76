import GraphQuery.Timestamp

/-!
# Error reports

An error as it is shown: its kind, its message and, for the errors of this
library, a code, a level of severity and structured details.  What goes
wrong while a query is built, compiled or run is described by its cause
elsewhere; a report is the form every cause takes when it is answered or
logged.
-/

namespace GraphQuery

/-- How severe an error is. -/
inductive Severity where
  | debug
  | info
  | warning
  | error
  | critical
  deriving DecidableEq, Repr, Inhabited

namespace Severity

/-- The name of a level of severity. -/
def name : Severity → String
  | debug => "debug"
  | info => "info"
  | warning => "warning"
  | error => "error"
  | critical => "critical"

/-- All levels, the mildest first. -/
def all : List Severity := [debug, info, warning, error, critical]

/-- The level of a given name. -/
def ofName? (s : String) : Option Severity := all.find? fun level =>
    level.name == s

/-- A severity is read back from its name. -/
theorem ofName?_name (s : Severity) : ofName? s.name = some s := by
  cases s <;> rfl

/-- The number a level is filtered by: ten more for each step up. -/
def rank : Severity → Nat
  | debug => 10
  | info => 20
  | warning => 30
  | error => 40
  | critical => 50

end Severity

/-- The numbered causes of errors. -/
inductive ErrorCode where
  | unknown
  | invalidArgument
  | patternConflict
  | compilationFailed
  | queryFailed
  | recordNotFound
  | transactionMisuse
  deriving DecidableEq, Repr, Inhabited

namespace ErrorCode

/-- The digits of a code: thousands group general, pattern, compilation and
database errors. -/
def digits : ErrorCode → String
  | unknown => "1000"
  | invalidArgument => "1005"
  | patternConflict => "2001"
  | compilationFailed => "3001"
  | queryFailed => "4002"
  | recordNotFound => "4004"
  | transactionMisuse => "4005"

/-- All codes, in ascending order. -/
def all : List ErrorCode :=
  [unknown, invalidArgument, patternConflict, compilationFailed, queryFailed,
    recordNotFound,
   transactionMisuse]

/-- The code of the given digits. -/
def ofDigits? (s : String) : Option ErrorCode := all.find? fun code =>
    code.digits == s

/-- A code is read back from its digits. -/
theorem ofDigits?_digits (c : ErrorCode) : ofDigits? c.digits = some c := by
  cases c <;> rfl

end ErrorCode

/-- What the details of an error say beyond where it occurred. -/
inductive DetailFields where
  | none
  /-- About a rejected argument. -/
  | argument (field : Option String) (actual : Value)
      (expectedType constraint : Option String)
  /-- About an element that could not be rendered. -/
  | element (grammar elementType : Option String)
  /-- About a call of the database. -/
  | database (connection query : Option String) (parameterNames : List String)
  deriving Inhabited

/-- Structured details of an error. -/
structure Details where
  source : String
  operation : String
  fields : DetailFields := .none
  deriving Inhabited

namespace Details

/-- The details of an error raised without any. -/
def unknown : Details := ⟨"unknown", "unknown", .none⟩

/-- The fields of the details in their fixed order, each with its value; a
missing one is null. -/
def entries (d : Details) : List (String × Value) :=
  [("source", .text d.source), ("operation", .text d.operation)] ++
  match d.fields with
  | .none => []
  | .argument field actual expectedType constraint =>
    [("field", .ofText? field), ("actual_value", actual),
     ("expected_type", .ofText? expectedType),
     ("constraint", .ofText? constraint)]
  | .element grammar elementType =>
    [("grammar", .ofText? grammar), ("element_type", .ofText? elementType)]
  | .database connection query parameterNames =>
    [("connection", .ofText? connection), ("query", .ofText? query),
     ("parameter_names", .texts parameterNames)]

end Details

/-- What an error of this library carries beside its message. -/
structure Diagnosis where
  code : ErrorCode
  level : Severity
  details : Details
  deriving Inhabited

/-- The kinds of errors. -/
inductive ErrorKind where
  /-- Invalid input to a builder. -/
  | configuration
  /-- A name used both for a node and for a relationship; an invalid input
  too. -/
  | patternConflict
  /-- An element without a text where it stands. -/
  | compilation
  /-- A query rejected by the database. -/
  | execution
  /-- A transaction begun twice, or ended without having begun. -/
  | transaction
  /-- No record where one is needed. -/
  | noResult
  /-- An error of this library of no closer kind. -/
  | application
  /-- A value a driver refuses. -/
  | value
  /-- A database that cannot be reached. -/
  | serviceUnavailable
  /-- A missing column. -/
  | key
  /-- A setting of the wrong form. -/
  | validation
  /-- An argument of the wrong type. -/
  | type
  /-- An argument that lacks what is looked up in it. -/
  | incomplete
  /-- A query that contains itself. -/
  | recursion
  /-- A step on a builder nobody made. -/
  | noSuchBuilder
  /-- A step a builder cannot take. -/
  | noSuchMethod
  /-- A step of a walk that has not started. -/
  | noSuchContext
  deriving DecidableEq, Repr, Inhabited

namespace ErrorKind

/-- The name an error kind is answered and logged under. -/
def name : ErrorKind → String
  | configuration => "ConfigurationError"
  | patternConflict => "PatternConflictError"
  | compilation => "CompilationError"
  | execution => "ExecutionError"
  | transaction => "TransactionError"
  | noResult => "NoResultError"
  | application => "ApplicationError"
  | value => "ValueError"
  | serviceUnavailable => "ServiceUnavailable"
  | key => "KeyError"
  | validation => "ValidationError"
  | type => "TypeError"
  | incomplete => "AttributeError"
  | recursion => "RecursionError"
  | noSuchBuilder => "NoSuchBuilder"
  | noSuchMethod => "NoSuchMethod"
  | noSuchContext => "NoSuchContext"

/-- All kinds of errors. -/
def all : List ErrorKind :=
  [configuration, patternConflict, compilation, execution, transaction,
    noResult, application, value,
   serviceUnavailable, key, validation, type, incomplete, recursion,
   noSuchBuilder, noSuchMethod,
   noSuchContext]

/-- The kind of a given name. -/
def ofName? (s : String) : Option ErrorKind := all.find? fun kind =>
    kind.name == s

/-- A kind of error is read back from its name. -/
theorem ofName?_name (k : ErrorKind) : ofName? k.name = some k := by
  cases k <;> rfl

/-- Whether errors of a kind say that an input of a builder is invalid. -/
def isConfiguration : ErrorKind → Bool
  | configuration | patternConflict => true
  | _ => false

/-- Whether errors of a kind are answered without their message. -/
def isShownBare : ErrorKind → Bool
  | validation | type | incomplete | recursion => true
  | _ => false

/-- The code and level of the library's own kinds of errors, which have a
fixed one. -/
def standard? : ErrorKind → Option (ErrorCode × Severity)
  | configuration => some (.invalidArgument, .error)
  | patternConflict => some (.patternConflict, .error)
  | compilation => some (.compilationFailed, .error)
  | execution => some (.queryFailed, .error)
  | transaction => some (.transactionMisuse, .error)
  | noResult => some (.recordNotFound, .warning)
  | _ => none

end ErrorKind

/-- An error as it is shown. -/
structure Report where
  kind : ErrorKind
  message : String
  diagnosis : Option Diagnosis := none
  deriving Inhabited

/-- What is not of the form it has to be. -/
def Report.invalid : Report := ⟨.validation, "", none⟩

/-- An argument a function does not take, or lacks. -/
def Report.misfit : Report := ⟨.type, "missing or unexpected argument", none⟩

/-- A value that has to be a text. -/
def Value.asText : Value → Except Report String
  | .text s => .ok s
  | _ => .error .invalid

/-- A value that has to be a text or null. -/
def Value.asText? : Value → Except Report (Option String)
  | .null => .ok none
  | value => do return some (← value.asText)

/-- The details given as a mapping.  Only the source and the operation
count, and both may be missing; a time that is given along with them has to
be one. -/
def Details.ofFields (fields : List (String × Value)) :
    Except Report Details := do
  if !((fields.lookup "timestamp").map Value.isTimestamp).getD true then
    throw .invalid
  let source ← ((fields.lookup "source").getD (.text "unknown")).asText
  let operation ← ((fields.lookup "operation").getD (.text "unknown")).asText
  return ⟨source, operation, .none⟩

namespace Report

/-- A report of a kind with a fixed code and level, with the given details. -/
def ofKind (kind : ErrorKind) (message : String)
    (details : Details := .unknown) : Report :=
  { kind, message
    diagnosis := kind.standard?.map fun (code, level) =>
      ⟨code, level, details⟩ }

/-- A report of no closer kind, with a code and a level of its own. -/
def ofApplication (message : String) (code : ErrorCode) (level : Severity)
    (details : Details) :
    Report :=
  { kind := .application, message, diagnosis := some ⟨code, level, details⟩ }

/-- A report about a rejected argument of a builder call. -/
def ofArgument (message operation : String) (field : Option String := none)
    (actual : Value := .null) (constraint : Option String := none) : Report :=
  ofKind .configuration message ⟨"builder", operation,
    .argument field actual none constraint⟩

/-- The names of what a report about a rejected argument can be given. -/
def argumentFields : List String :=
  ["operation", "field", "actual_value", "constraint"]

/-- A report about a rejected argument that is described by a mapping.  Only
the operation has to be there. -/
def ofArgumentFields (message : String) (fields : List (String × Value)) :
    Except Report Report := do
  if !fields.all fun field => argumentFields.contains field.1 then throw misfit
  let value (name : String) : Value := (fields.lookup name).getD .null
  match fields.lookup "operation" with
  | none => throw misfit
  | some operation =>
    let operation ← operation.asText
    let field ← (value "field").asText?
    let constraint ← (value "constraint").asText?
    return ofArgument message operation field (value "actual_value")
      constraint

/-- A report about an element of the given type that a grammar cannot
render. -/
def ofElement (grammar elementType : String) : Report :=
  ofKind .compilation (grammar ++ " cannot render element of type " ++
    elementType)
    ⟨"grammar", "compile", .element (some grammar) (some elementType)⟩

/-- The level a report is logged at: its own, else the given one. -/
def levelOr (r : Report) (otherwise : Severity) : Severity :=
  match r.diagnosis with
  | some d => d.level
  | none => otherwise

/-- What is known about an error, as the ordered fields of a log event: the
details follow the kind, the message, the code and the level. -/
def context (r : Report) : List (String × Value) :=
  [("error_type", .text r.kind.name), ("error_message", .text r.message)] ++
  match r.diagnosis with
  | none => []
  | some d =>
    [("error_code", .text d.code.digits),
      ("error_level", .text d.level.name)] ++
    d.details.entries.map fun (key, value) =>
      ("details." ++ key, value.described)

/-- The names a context has for what it is made of. -/
def reservedNames : List String := ["self", "error", "trace_id"]

/-- What is known about an error and about where it was handled: the trace,
and fields of its own. -/
def tracedContext (r : Report) (trace : String)
    (given : List (String × Value)) :
    Except Report (List (String × Value)) := do
  if given.any fun field => reservedNames.contains field.1 then throw misfit
  return r.context ++ [("trace_id", .text trace)] ++
    given.map fun (key, value) => ("context." ++ key, value)

end Report

end GraphQuery
