import StLint.Pou.Kind
import StLint.Source.Line
import StLint.Text.Folding
import StLint.Text.Unicode

/-!
# Unit declarations

A unit is declared by its keyword and a name, and a function also by the type of its result. The
comment written directly above the declaration describes the unit.

* `Declaration.ofLine?` — the declaration on a line of code.
* `findDeclaration?` — the first declaration of a source.
* `descriptionAbove?` — the comment above a line.
-/

namespace StLint.Source

open Text

/-- The declaration of a unit on one line. -/
structure Declaration where
  kind : UnitKind
  name : List Char
  returnType : Option (List Char)
  deriving DecidableEq, Repr

/-- The unit keywords; the longer one of two with a common beginning comes first. -/
def unitKeywords : List String := ["FUNCTION_BLOCK", "FUNCTION", "PROGRAM"]

/-- A type after a colon, with the length or bounds in square brackets that may follow it. -/
def typeAnnotation? (s : List Char) : Option (List Char) :=
  match trimStart s with
  | ':' :: r =>
    (takeName? (trimStart r)).map fun (name, rest) =>
      match trimStart rest with
      | '[' :: bounds =>
        if bounds.contains ']' then
          name ++ rest.takeWhile isBlank ++ '[' :: bounds.takeWhile (· ≠ ']') ++ [']']
        else name
      | _ => name
  | _ => none

/-- A declaration at the start of a text: the keyword as it is written, the name, and the type. -/
def declarationAt? (s : List Char) : Option (List Char × List Char × Option (List Char)) :=
  unitKeywords.findSome? fun keyword => do
    let rest ← dropKeyword? keyword.toList s
    let rest ← dropBlanks? rest
    let (name, rest) ← takeName? rest
    return (s.take keyword.length, name, typeAnnotation? rest)

/-- The first declaration of a text, where `prev` is the character before it. -/
def declarationFrom? (prev : Option Char) :
    List Char → Option (List Char × List Char × Option (List Char))
  | [] => none
  | c :: r =>
    match if wordMayStart prev then declarationAt? (c :: r) else none with
    | some d => some d
    | none => declarationFrom? (some c) r

/-- The declaration on a line of code. The keyword must be written in ASCII. -/
def Declaration.ofLine? (line : List Char) : Option Declaration :=
  (declarationFrom? none line).bind fun (keyword, name, type) =>
    (UnitKind.ofKeyword? keyword).map fun kind =>
      { kind, name, returnType := if kind = .function then type.map trim else none }

/-- The first declaration among lines of code, with the index of its line. -/
def findDeclaration? (ls : List CodeLine) : Option (Nat × Declaration) :=
  match ls with
  | [] => none
  | l :: rest =>
    match Declaration.ofLine? l.text with
    | some d => some (0, d)
    | none => (findDeclaration? rest).map fun (i, d) => (i + 1, d)

/-! ## The description -/

/-- The comment lines met on the way up from a declaration, nearest first. Blank lines are passed
    over and any code ends the walk; `inBlock` holds while the first line of a block comment is
    sought. -/
def commentsUpward (inBlock : Bool) : List (List Char) → List (List Char)
  | [] => []
  | l :: above =>
    let t := trim l
    if inBlock then
      match find? "(*".toList t with
      | some i => trim (t.drop (i + 2)) :: commentsUpward false above
      | none => t :: commentsUpward true above
    else if t.isEmpty then commentsUpward false above
    else match dropPrefix? "//".toList t with
      | some text => trim text :: commentsUpward false above
      | none => match (dropPrefix? "(*".toList t).bind (dropSuffix? "*)".toList) with
        | some text => trim text :: commentsUpward false above
        | none => match dropSuffix? "*)".toList t with
          | some text => trim text :: commentsUpward true above
          | none => []

/-- The comment above the line with a given number, without its blank lines. -/
def descriptionAbove? (source : List Char) (number : Nat) : Option (List Char) :=
  let above := (lines (normalizeLineEndings source)).take (number - 1)
  match (commentsUpward false above.reverse).reverse.filter (!·.isEmpty) with
  | [] => none
  | ls => some (unlines ls)

end StLint.Source
