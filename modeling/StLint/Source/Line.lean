import StLint.Source.Comment

/-!
# Lines of code

The code of a source is its text without comments, cut into lines that remember their number. A run
of blank lines becomes one blank line, and no line ends in white space.
-/

namespace StLint.Source

open Text

/-- A line of code with its number in the source, counted from 1. -/
structure CodeLine where
  number : Nat
  text : List Char
  deriving DecidableEq, Repr, Inhabited

/-- The lines that are kept, where the first one has number `n`: of several blank lines in a row
    only the first. -/
def collapse (previousBlank : Bool) (n : Nat) : List (List Char) → List CodeLine
  | [] => []
  | l :: ls =>
    match trimEnd l with
    | [] => if previousBlank then collapse true (n + 1) ls else ⟨n, []⟩ :: collapse true (n + 1) ls
    | t => ⟨n, t⟩ :: collapse false (n + 1) ls

/-- The lines of code of a source. -/
def codeLines (source : List Char) : List CodeLine :=
  collapse false 1 (lines (stripComments source))

/-- The number of the line at an index; beyond the end lines are numbered as if none were left
    out. -/
def numberAt (ls : List CodeLine) (index : Nat) : Nat :=
  (ls[index]?.map CodeLine.number).getD (index + 1)

/-- The lines with indices from `start` up to but not including `stop`. -/
def slice (ls : List α) (start stop : Nat) : List α := (ls.take stop).drop start

end StLint.Source
