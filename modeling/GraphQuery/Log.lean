import GraphQuery.Entries
import GraphQuery.Report

/-!
# Log events

What the library logs, and how errors are logged on their way out: an error
that leaves a guarded function is logged once, at its own level if it has
one, and an error that leaves the handling of another error is logged as
such.
-/

namespace GraphQuery

/-- One event of the log: a level, a text and named fields. -/
structure LogEvent where
  level : Severity
  event : String
  fields : List (String × Value) := []
  deriving Inhabited

namespace LogEvent

/-- The event of an error leaving a function. -/
def failure (function : String) (otherwise : Severity) (r : Report) :
    LogEvent :=
  { level := r.levelOr otherwise
    event := "Error in " ++ function ++ ": " ++ r.message
    fields :=
      [("function", .text function), ("error_context", .map r.context)] }

/-- The event of an error that leaves the handling of another one. -/
def handlingFailure (r : Report) : LogEvent :=
  { level := .error
    event := "Exception during error context handling"
    fields := [("error", .text r.message)] }

end LogEvent

/-- Outcome and log of a function whose errors are logged.  An error of no
level of its own is logged at the level `otherwise`; unless errors are
passed on, a failing function answers with nothing. -/
def guarded {α : Type} (function : String) (otherwise : Severity)
    (passOn : Bool) :
    Except Report α → Except Report (Option α) × List LogEvent
  | .ok a => (.ok (some a), [])
  | .error r =>
    (if passOn then .error r else .ok none,
      [LogEvent.failure function otherwise r])

/-- How the handling of a captured error ends. -/
inductive HandlingEnd where
  /-- Normally. -/
  | normal
  /-- By passing the captured error on. -/
  | passedOn
  /-- By another error. -/
  | failed (other : Report)

/-- Outcome and log of the handling of a captured error.  A normal end gives
the message that was captured; only an error other than the captured one is
logged. -/
def handling (captured : Report) : HandlingEnd →
    Except Report String × List LogEvent
  | .normal => (.ok captured.message, [])
  | .passedOn => (.error captured, [])
  | .failed other => (.error other, [LogEvent.handlingFailure other])

/-- Beside the field `error` of an event, its type is given as `error_type`.
An error that is passed along with the event becomes that field and is given
by its message. -/
def withErrorType (fields : List (String × Value)) (error : Option Report) :
    List (String × Value) :=
  match error with
  | some r =>
    putEntry "error_type" (.text r.kind.name)
      (putEntry "error" (.text r.message) fields)
  | none =>
    match fields.lookup "error" with
    | some value => putEntry "error_type" (.text value.typeName) fields
    | none => fields

end GraphQuery
