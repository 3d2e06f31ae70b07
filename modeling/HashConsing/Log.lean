/-!
# Logs

Some operations write lines to a log next to their results. A line has a level,
so that whoever reads the log can leave out what matters less.
-/

namespace HashConsing

/-- How much a line of a log matters. -/
inductive Level where
  | debug
  | info
  | warning
  | error
  deriving DecidableEq, Repr

namespace Level

/-- The name of a level. -/
def name : Level → String
  | debug => "DEBUG"
  | info => "INFO"
  | warning => "WARNING"
  | error => "ERROR"

/-- The place of a level in the order of levels. -/
def severity : Level → Nat
  | debug => 10
  | info => 20
  | warning => 30
  | error => 40

end Level

/-- **A line of a log.** -/
structure LogLine where
  level : Level
  message : String
  deriving DecidableEq, Repr

/-- The lines of a log that matter at least as much as a level. -/
def LogLine.atLeast (level : Level) (log : List LogLine) : List LogLine :=
  log.filter fun line => level.severity ≤ line.level.severity

end HashConsing
