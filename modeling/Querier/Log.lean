/-!
# Log events

What the engine tells its operator: a level, a sentence, and named values as text.
-/

namespace Querier

/-- How urgent a log event is. -/
inductive LogLevel where
  | error
  | warn
  | info
  | debug
  | trace
  deriving DecidableEq, Repr

/-- A log event. -/
structure LogEvent where
  level : LogLevel
  message : String
  fields : List (String × String) := []
  deriving DecidableEq, Repr

end Querier
