import StLint.Text.Basic
import StLint.Time.Timestamp

/-!
# Logs of a running controller

What a controller reported while the units of a project ran: messages of several levels, and
samples of the time that one scan took.
-/

namespace StLint

open Text

/-- The level of a log entry. -/
inductive LogLevel where
  | error
  | warning
  | info
  | trace
  deriving DecidableEq, Repr, Inhabited

/-- One entry of a log. -/
structure LogEntry where
  unitName : String
  level : LogLevel
  message : String
  timestamp : Option Timestamp
  /-- The duration of a scan in milliseconds. -/
  cycleTimeMs : Option Float
  deriving Repr, Inhabited

/-- The log of a run. -/
structure RuntimeLog where
  entries : List LogEntry
  deriving Repr, Inhabited

namespace RuntimeLog

/-- The entries of a unit, whose name may be spelled in any case. -/
def forUnit (log : RuntimeLog) (name : String) : List LogEntry :=
  log.entries.filter fun e => eqIgnoreCase e.unitName.toList name.toList

end RuntimeLog

end StLint
