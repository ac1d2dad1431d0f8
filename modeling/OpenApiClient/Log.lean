/-!
# Log records

What a run notes about its own work, in order.  Each record names its level and the part of
the program that made it.
-/

namespace OpenApiClient

/-- Levels of log records. -/
inductive Level where
  | debug
  | info
  | warning
  deriving DecidableEq, Repr

/-- The name of a level. -/
def Level.name : Level → String
  | .debug => "DEBUG"
  | .info => "INFO"
  | .warning => "WARNING"

/-- A log record. -/
structure Record where
  level : Level
  origin : String
  message : String
  deriving DecidableEq, Repr

/-- The line of a record: level, the program's name and the part of it, and the message. -/
def Record.line (r : Record) : String :=
  r.level.name ++ " phpclientgen." ++ r.origin ++ ": " ++ r.message

end OpenApiClient
