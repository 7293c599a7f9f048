import StLint.Json.Decode
import StLint.Json.Reader
import StLint.Log.Basic

/-!
# Logs as data
-/

namespace StLint

open Json

namespace Timestamp

/-- Writes an instant. -/
def toJson (t : Timestamp) : Json := .str t.text

/-- Reads an instant. -/
def ofJson? (v : Json) : Option Timestamp := (string? v).bind read?

end Timestamp

namespace LogLevel

/-- Names in data. -/
def names : List (String × LogLevel) :=
  [("Error", error), ("Warning", warning), ("Info", info), ("Trace", trace)]

/-- The name of a level in data. -/
def name (l : LogLevel) : String := ((names.find? fun n => n.2 = l).map Prod.fst).getD ""

end LogLevel

namespace LogEntry

/-- Keys in order. -/
def keys : List String := ["unitName", "level", "message", "timestamp", "cycleTimeMs"]

/-- Writes an entry. -/
def toJson (e : LogEntry) : Json :=
  .ofMembers [
    field "unitName" (.str e.unitName),
    field "level" (.str e.level.name),
    field "message" (.str e.message),
    field? "timestamp" Timestamp.toJson e.timestamp,
    field? "cycleTimeMs" .ofFloat e.cycleTimeMs]

/-- Reads an entry. -/
def ofJson? (v : Json) : Option LogEntry := do
  let r ← record? keys v
  return {
    unitName := ← (r "unitName").required string?
    level := ← (r "level").required (variant? LogLevel.names)
    message := ← (r "message").orDefault "" string?
    timestamp := ← (r "timestamp").orDefault none (nullable? Timestamp.ofJson?)
    cycleTimeMs := ← (r "cycleTimeMs").orDefault none (nullable? float?) }

end LogEntry

namespace RuntimeLog

/-- Writes a log. -/
def toJson (log : RuntimeLog) : Json := .obj [("entries", .ofList LogEntry.toJson log.entries)]

/-- Reads a log. -/
def ofJson? (v : Json) : Option RuntimeLog := do
  let r ← record? ["entries"] v
  return { entries := ← (r "entries").orDefault [] (list? LogEntry.ofJson?) }

/-- Reads the text of a log. -/
def ofText? (s : String) : Option RuntimeLog := (Json.parse? s).bind ofJson?

end RuntimeLog

end StLint
