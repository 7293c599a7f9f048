import StLint.Number.Machine
import StLint.Pou.Basic
import StLint.Source.Declaration

/-!
# The units of a file

A file is cut after the line that closes each unit, so the comment above a declaration stays with
the unit it describes. A declaration inside an open unit closes that unit first.

A unit that was read from a part of a file has its lines counted from the start of that part. Moving
it down adds the number of lines before the part to every line it holds, also to those inside scope
labels.

* `splitUnits` — the parts of a file that hold one unit each.
* `Pou.shift` — a unit, moved down.
-/

/-! ## Parts of a file -/

namespace StLint

open Text Source

/-- The part of a file that holds one unit. -/
structure UnitSegment where
  /-- The number of lines before the part. -/
  lineOffset : Nat
  text : List Char
  deriving DecidableEq, Repr

/-- The segment of lines that are given last line first. -/
def UnitSegment.ofLines (lineOffset : Nat) (collected : List (List Char)) : UnitSegment :=
  ⟨lineOffset, unlines collected.reverse⟩

/-- The segments from the line with index `index` on. Each line is given without and with its
    comments; `collected` are the lines since `start`, last first, and `open?` is the kind of the
    unit that they open. -/
def segmentsFrom (index start : Nat) (open? : Option UnitKind) (collected : List (List Char)) :
    List (List Char × List Char) → List UnitSegment
  | [] => if open?.isSome then [.ofLines start collected] else []
  | (code, raw) :: rest =>
    match open? with
    | none =>
      segmentsFrom (index + 1) start ((Declaration.ofLine? code).map (·.kind)) (raw :: collected)
        rest
    | some kind =>
      if startsWithKeyword kind.endKeyword code then
        .ofLines start (raw :: collected) :: segmentsFrom (index + 1) (index + 1) none [] rest
      else match Declaration.ofLine? code with
        | some next =>
          .ofLines start collected :: segmentsFrom (index + 1) index (some next.kind) [raw] rest
        | none => segmentsFrom (index + 1) start (some kind) (raw :: collected) rest

/-- The parts of a source that hold one unit each. Lines after the last unit belong to none. -/
def splitUnits (source : List Char) : List UnitSegment :=
  let raw := normalizeLineEndings source
  segmentsFrom 0 0 none [] ((lines (stripComments raw)).zip (lines raw))

end StLint

/-! ## Moving a unit down -/

namespace StLint

open Text

/-- The number that a text of ASCII digits spells, within 64 bits. -/
def lineNumber? (s : List Char) : Option Nat :=
  let ds := (dropPrefix? ['+'] s).getD s
  if ds.isEmpty || !ds.all isDigit then none
  else
    let n := ds.foldl (fun n c => 10 * n + (c.toNat - '0'.toNat)) 0
    if n < limit64 then some n else none

/-- The part of a scope label for one block, moved down. -/
def shiftLabel (offset : Nat) (part : List Char) : List Char :=
  match part.dropWhile (· ≠ '@') with
  | [] => part
  | _ :: line => match lineNumber? line with
    | some n => part.takeWhile (· ≠ '@') ++ '@' :: (toString (n + offset)).toList
    | none => part

/-- A scope label, moved down. -/
def shiftScope (offset : Nat) (scope : List Char) : List Char :=
  ['/'].intercalate ((splitOn '/' scope).map (shiftLabel offset))

mutual

/-- A tree, moved down; a root has no line. -/
def Node.shift (offset : Nat) : Node → Node
  | ⟨kind, name, value, children, line, scope⟩ =>
    { kind, name, value
      children := Node.shiftAll offset children
      line := if line = 0 then 0 else line + offset
      scope :=
        if scope.toList.contains '@' then String.ofList (shiftScope offset scope.toList)
        else scope }

/-- Several trees, moved down. -/
def Node.shiftAll (offset : Nat) : List Node → List Node
  | [] => []
  | n :: ns => Node.shift offset n :: Node.shiftAll offset ns

end

/-- A unit, moved down by a number of lines. -/
def Pou.shift (offset : Nat) (u : Pou) : Pou :=
  if offset = 0 then u
  else
    { u with
      body := u.body.shift offset
      vars := u.vars.map fun v => { v with line := v.line + offset }
      diagnostics := u.diagnostics.map fun d => { d with line := d.line + offset } }

end StLint
