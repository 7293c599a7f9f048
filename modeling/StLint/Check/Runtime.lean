import StLint.Check.Basic
import StLint.Decimal.Spelling
import StLint.Collection.Basic

/-!
# What the log says about units

Entries belong to a unit by its name in any case. A unit is reported when it logged **more errors
than are tolerated**, and when its scans take longer on average than they should.
-/

namespace StLint.Check

open Text Decimal

namespace Runtime

/-- The key of an entry: the name of its unit in lower case. -/
def unitKey (e : LogEntry) : String := String.ofList (lower e.unitName.toList)

/-- The log of one unit. -/
structure UnitLog where
  /-- The name as the project spells it, or else as the first entry does. -/
  name : String
  entries : List LogEntry
  deriving Repr

/-- The keys of a log in order, each once. -/
def unitKeys (log : RuntimeLog) : List String :=
  sortOnce (fun a b => a < b) (log.entries.map unitKey)

/-- The log of the unit with a key. -/
def unitLog (p : Project) (log : RuntimeLog) (key : String) : UnitLog :=
  let entries := log.entries.filter fun e => unitKey e = key
  let spelled := (entries.head?.map LogEntry.unitName).getD key
  ⟨((p.unit? spelled).map Pou.name).getD spelled, entries⟩

namespace UnitLog

/-- The number of errors. -/
def errors (l : UnitLog) : Nat := l.entries.countP fun e => e.level = .error

/-- The durations of scans in milliseconds. -/
def samples (l : UnitLog) : List Float :=
  (l.entries.filter fun e => e.level = .trace).filterMap fun e =>
    e.cycleTimeMs.filter Float.isFinite

/-- The mean duration of a scan, unless there are no samples. The sum starts at negative zero, to
    which any number may be added without a change. -/
def meanSample? (l : UnitLog) : Option Float :=
  if l.samples.isEmpty then none
  else some (l.samples.foldl (fun sum x => sum + x) (-0.0) / l.samples.length.toFloat)

end UnitLog

/-- The finding about too many errors. -/
def frequentErrors (t : Thresholds) (l : UnitLog) : Issue :=
  .found .safetyConcern .error "Frequent runtime errors"
    (l.name ++ " logged " ++ toString l.errors ++ " errors at runtime (threshold " ++
      toString t.runtimeErrors ++ ")")
    [l.name] none "Review the runtime log messages and add error handling for the failing paths" 0.9

/-- The finding about slow scans. -/
def slowScans (t : Thresholds) (l : UnitLog) (mean : Float) : Issue :=
  .found .performanceIssue .warning "Slow scan cycle"
    (l.name ++ " averages " ++ String.ofList (fixed 1 mean) ++ " ms per scan over " ++
      toString l.samples.length ++ " samples (limit " ++
      String.ofList (plain t.cycleTimeMs) ++ " ms)")
    [l.name] none "Move heavy computation out of the cyclic task or split it across scans" 0.7

/-- The findings about the log of one unit. -/
def ofUnitLog (t : Thresholds) (l : UnitLog) : List Issue :=
  (if t.runtimeErrors < l.errors then [frequentErrors t l] else []) ++
  ((l.meanSample?.filter fun mean => mean > t.cycleTimeMs).map (slowScans t l)).toList

end Runtime

/-- The findings about the log of a project, if there is one. -/
def runtime (p : Project) : List Issue :=
  match p.log with
  | none => []
  | some log =>
    (Runtime.unitKeys log).flatMap fun key =>
      Runtime.ofUnitLog p.thresholds (Runtime.unitLog p log key)

end StLint.Check
