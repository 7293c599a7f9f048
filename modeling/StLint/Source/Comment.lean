import StLint.Text.Nesting

/-!
# Comments

A line comment runs from `//` to the end of its line, a block comment from `(*` to `*)` over any
number of lines. Neither begins inside a quoted string, where `$` escapes the next character and
which ends at the latest with its line.

* `normalizeLineEndings` — every line end becomes one line feed.
* `stripComments` — removes comments and **keeps every line feed**, so lines keep their numbers.
* `trailingComment?` — the text of the comment that follows the code of one line.
-/

namespace StLint.Source

open Text

/-- Carriage returns, alone or before a line feed, become one line feed. -/
def normalizeLineEndings : List Char → List Char
  | [] => []
  | '\r' :: '\n' :: r => '\n' :: normalizeLineEndings r
  | '\r' :: r => '\n' :: normalizeLineEndings r
  | c :: r => c :: normalizeLineEndings r

/-- What the comment scanner is inside of. -/
inductive Region where
  | code
  | lineComment
  | blockComment
  /-- A string opened by `quote`. -/
  | quoted (quote : Char)
  /-- A string opened by `quote`, right after a `$`. -/
  | escaped (quote : Char)
  deriving DecidableEq, Repr

/-- The region after a character of code. -/
def Region.ofCode (c : Char) : Region := if isQuote c then .quoted c else .code

/-- The region after a character `c` of a string opened by `quote`. -/
def Region.ofQuoted (quote c : Char) : Region :=
  if c = '$' then .escaped quote else if c = quote || c = '\n' then .code else .quoted quote

/-- Comment removal from a given region on. -/
def stripFrom : Region → List Char → List Char
  | _, [] => []
  | .code, '/' :: '/' :: r => stripFrom .lineComment r
  | .code, '(' :: '*' :: r => stripFrom .blockComment r
  | .code, c :: r => c :: stripFrom (Region.ofCode c) r
  | .lineComment, '\n' :: r => '\n' :: stripFrom .code r
  | .lineComment, _ :: r => stripFrom .lineComment r
  | .blockComment, '\n' :: r => '\n' :: stripFrom .blockComment r
  | .blockComment, '*' :: ')' :: r => stripFrom .code r
  | .blockComment, _ :: r => stripFrom .blockComment r
  | .quoted q, c :: r => c :: stripFrom (Region.ofQuoted q c) r
  | .escaped _, '\n' :: r => '\n' :: stripFrom .code r
  | .escaped q, c :: r => c :: stripFrom (.quoted q) r

/-- A text without its comments, line for line. -/
def stripComments (s : List Char) : List Char := stripFrom .code (normalizeLineEndings s)

/-- A trimmed text, unless nothing is left of it. -/
def trimmed? (s : List Char) : Option (List Char) :=
  match trim s with
  | [] => none
  | t => some t

/-- The search of `trailingComment?` with the quote that is open. -/
def trailingCommentFrom? : Option Char → List Char → Option (List Char)
  | _, [] => none
  | none, '/' :: '/' :: r => trimmed? r
  | none, '(' :: '*' :: r => trimmed? (r.take ((find? ['*', ')'] r).getD r.length))
  | quote, c :: r => trailingCommentFrom? (Nesting.stepQuote quote c) r

/-- The text of the first comment of a line, if it is not blank. -/
def trailingComment? (line : List Char) : Option (List Char) := trailingCommentFrom? none line

end StLint.Source
