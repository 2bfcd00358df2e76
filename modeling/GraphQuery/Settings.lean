import GraphQuery.Report
import GraphQuery.Text.LetterCase

/-!
# Settings

The settings of the library and where they come from: what a caller gives
wins over the environment, and the environment over the defaults.  Both give
the names of settings in any case.
-/

namespace GraphQuery

/-- The settings of the library. -/
structure Settings where
  uri : String := "bolt://localhost:7687"
  user : String := "neo4j"
  password : String := "password"
  /-- The database to open sessions on; that of the server if missing. -/
  database : Option String := none
  /-- The connection used when none is named. -/
  defaultConnection : String := "default"
  /-- The stem of the names made for parameters. -/
  parameterStem : String := "param"
  /-- The row variable of a batch. -/
  batchVariable : String := "toCreate"
  logLevel : String := "INFO"
  debug : Bool := false
  deriving Inhabited

namespace Settings

/-- The settings by name. -/
def entries (s : Settings) : List (String × Value) :=
  [("neo4j_uri", .text s.uri), ("neo4j_user", .text s.user),
    ("neo4j_password", .text s.password),
   ("neo4j_database", .ofText? s.database),
   ("default_connection", .text s.defaultConnection),
   ("parameter_prefix", .text s.parameterStem),
   ("batch_variable", .text s.batchVariable),
   ("log_level", .text s.logLevel), ("debug", .bool s.debug)]

/-- The names of the settings. -/
def names : List String := (entries {}).map Prod.fst

/-- A truth value as it is written in the environment, in any case. -/
def readBool? (s : String) : Option Bool :=
  let word := String.ofList (s.toList.map Char.toLower)
  if ["true", "1", "yes", "on", "y", "t"].contains word then some true
  else if ["false", "0", "no", "off", "n", "f"].contains word then some false
  else none

/-- A setting that is a truth value. -/
def asBool : Value → Except Report Bool
  | .bool b => .ok b
  | .int 0 => .ok false
  | .int 1 => .ok true
  | .text s =>
    match readBool? s with
    | some b => .ok b
    | none => .error .invalid
  | _ => .error .invalid

/-- Change the setting of a name; other names are ignored. -/
def put (s : Settings) (name : String) (value : Value) :
    Except Report Settings :=
  match name with
  | "neo4j_uri" => do return { s with uri := ← value.asText }
  | "neo4j_user" => do return { s with user := ← value.asText }
  | "neo4j_password" => do return { s with password := ← value.asText }
  | "neo4j_database" => do return { s with database := ← value.asText? }
  | "default_connection" => do
    return { s with defaultConnection := ← value.asText }
  | "parameter_prefix" => do return { s with parameterStem := ← value.asText }
  | "batch_variable" => do return { s with batchVariable := ← value.asText }
  | "log_level" => do return { s with logLevel := ← value.asText }
  | "debug" => do return { s with debug := ← asBool value }
  | _ => .ok s

/-- What stands in front of the name of a setting in the environment. -/
def environmentMark : String := "cypher_builder_"

/-- A name in lower case. -/
def lowered (name : String) :
    String := String.ofList (name.toList.flatMap Text.lower)

/-- The value of a name in any case; of several spellings of it the first
one counts. -/
def spelled? {α : Type} (entries : List (String × α)) (name : String) :
    Option α :=
  (entries.find? fun entry => lowered entry.1 == name).map Prod.snd

/-- The settings given by the environment and by a caller.  Of several
spellings of a name the last one counts in the environment, the first one in
what the caller gives. -/
def load (environment : List (String × String))
    (given : List (String × Value)) :
    Except Report Settings :=
  names.foldlM (fun s name =>
    let inherited :=
      (spelled? environment.reverse (environmentMark ++ name)).map Value.text
    match spelled? given name <|> inherited with
    | some value => s.put name value
    | none => .ok s) {}

/-- Settings overridden one by one. -/
def override (s : Settings) (given : List (String × Value)) :
    Except Report Settings :=
  given.foldlM (fun s entry => s.put entry.1 entry.2) s

/-- The password as it is shown. -/
def maskedPassword (s : Settings) :
    String := if s.password.isEmpty then "" else "**********"

/-- The names of log levels and their numbers. -/
def logLevels : List (String × Nat) :=
  [("CRITICAL", 50), ("FATAL", 50), ("ERROR", 40), ("WARN", 30),
    ("WARNING", 30), ("INFO", 20),
   ("DEBUG", 10), ("NOTSET", 0)]

/-- The number of the level to log at.  Debugging logs everything from the
level of debug events on, an unknown level counts as that of informative
events. -/
def logRank (s : Settings) : Nat :=
  if s.debug then 10
  else (logLevels.lookup
    (String.ofList (Text.asciiCapital s.logLevel.toList))).getD 20

end Settings

/-- How logging is set up. -/
structure LogSetup where
  /-- The names of the processors an event passes, the renderer last. -/
  chain : List String
  /-- Whether a logger is kept after its first use. -/
  cached : Bool
  rank : Nat
  handlers : Nat
  formatter : String
  deriving DecidableEq, Repr, Inhabited

/-- The logging the settings ask for.  A debugging session is rendered for
the console and may be set up again at any time. -/
def Settings.logSetup (s : Settings) : LogSetup :=
  { chain :=
      ["merge_contextvars", "add_log_level", "TimeStamper",
        "CallsiteParameterAdder",
       "add_logfire_context", "StackInfoRenderer", "set_exc_info",
       "LogfireProcessor",
       if s.debug then "ConsoleRenderer" else "JSONRenderer"]
    cached := !s.debug
    rank := s.logRank
    handlers := 1
    formatter := "ProcessorFormatter" }

end GraphQuery
