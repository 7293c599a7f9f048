import StLint.Pou.Dependencies
import StLint.Pou.Segment
import StLint.Section.Table
import StLint.Source.Declaration
import StLint.Statement.Body

/-!
# Reading units

A unit is read in one pass over its lines of code: the declaration, the sections up to the last
`END_VAR`, and the body up to the `END_` line. Two things are refused: a source without a declaration,
and a declaration whose line is not among the lines of code.

* `Pou.parse` — the first unit of a source.
* `Pou.parseFile` — all units of a file, with the line numbers of the file.
-/

namespace StLint

open Text Source

/-- Why a source holds no unit. -/
inductive ParseError where
  /-- No declaration in the source with this label. -/
  | noUnitDeclaration (label : String)
  /-- A fault of the reader itself. -/
  | internal (message : String)
  deriving DecidableEq, Repr

/-- The text of an error. -/
def ParseError.message : ParseError → String
  | noUnitDeclaration label =>
    "no PROGRAM, FUNCTION_BLOCK or FUNCTION declaration found in '" ++ label ++ "'"
  | internal message => "internal parser error: " ++ message

/-- The declaration has an index that none of `count` lines of code has. -/
def ParseError.headerOutside (index count : Nat) : ParseError :=
  .internal ("header line " ++ toString index ++ " outside " ++ toString count ++
    " preprocessed lines")

namespace Pou

/-- The file name extensions of the language. -/
def extensions : List String := ["st", "stx", "iecst"]

/-- A file name extension of the language, in any case. -/
def supportsExtension (extension : List Char) : Bool :=
  extensions.any fun e => eqIgnoreCase e.toList extension

/-- Index of the first line from `start` on that closes a unit, or the number of lines. -/
def endIndex (kind : UnitKind) (ls : List CodeLine) (start : Nat) : Nat :=
  start + (ls.drop start).findIdx fun l => startsWithKeyword kind.endKeyword l.text

/-- The unit declared at an index of the lines of code. -/
def ofDeclaration (label : String) (source raw : List Char) (ls : List CodeLine) (index : Nat)
    (d : Declaration) : Pou :=
  let start := index + 1
  let stop := endIndex d.kind ls start
  let table := Section.Table.ofLines (lines raw) ls start stop
  let name := String.ofList d.name
  let body := Statement.Body.ofLines name ls ((table.lastEnd.map (· + 1)).getD start) stop
  let dependencies := Dependencies.ofBody table.vars body.root
  { kind := d.kind
    name
    source := String.ofList source
    vars := table.vars
    body := body.root
    dependencies := dependencies.units
    instances := dependencies.instances
    description := (descriptionAbove? raw (numberAt ls index)).map String.ofList
    returnType := d.returnType.map String.ofList
    diagnostics := (table.diagnostics ++ body.diagnostics).mergeSort fun a b => a.line ≤ b.line
    origin := some label }

/-- The first unit of a source. The label stands for the source in the unit and in errors. -/
def parse (label : String) (source : List Char) : Except ParseError Pou :=
  if (trim source).isEmpty then .error (.noUnitDeclaration label)
  else
    let raw := normalizeLineEndings source
    let ls := codeLines raw
    match findDeclaration? ls with
    | none => .error (.noUnitDeclaration label)
    | some (index, d) =>
      if ls.length ≤ index then .error (.headerOutside index ls.length)
      else .ok (ofDeclaration label source raw ls index d)

/-- The unit of one segment of a file. -/
def ofSegment (label : String) (s : UnitSegment) : Except ParseError Pou :=
  (parse label s.text).map (shift s.lineOffset)

/-- All units of a file. -/
def parseFile (label : String) (source : List Char) : Except ParseError (List Pou) :=
  match (splitUnits source).mapM (ofSegment label) with
  | .error e => .error e
  | .ok [] => .error (.noUnitDeclaration label)
  | .ok units => .ok units

/-- The units of several files, each with its label, in order. -/
def parseBatch (files : List (String × List Char)) : List (Except ParseError (List Pou)) :=
  files.map fun (label, source) => parseFile label source

end Pou

end StLint
