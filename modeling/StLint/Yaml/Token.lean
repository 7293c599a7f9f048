import StLint.Text.Basic

/-!
# Tokens of a YAML text

A text is read once from left to right. What a character means depends on whether braces are open,
so the scanner counts them; a line that begins outside braces **begins a line of the block
structure**.

* `Scan` — where the scanner stands and what it is inside of.
* `tokens?` — the tokens of a text. Sequences, anchors, tags and block scalars are refused.
-/

namespace StLint.Yaml

open Text

/-- What a token is. -/
inductive TokenKind where
  | plain (text : List Char)
  | quoted (text : List Char)
  | colon
  | comma
  | opening
  | closing
  | comment
  deriving DecidableEq, Repr

/-- A token with its place. -/
structure Token where
  kind : TokenKind
  /-- It is the first token of a line and outside braces. -/
  begins : Bool
  column : Nat
  line : Nat
  /-- The line on which it ends. -/
  lastLine : Nat
  deriving DecidableEq, Repr

/-- What the scanner is inside of, with what it has read in reverse. -/
inductive Lexing where
  | between
  | comment
  | plain (read : List Char)
  | quoted (quote : Char) (read : List Char)
  /-- In a quoted scalar, before a character that is taken as it is. -/
  | escaped (quote : Char) (read : List Char)

/-- Where the scanner stands. -/
structure Scan where
  lexing : Lexing
  /-- The number of open braces. -/
  depth : Nat
  line : Nat
  column : Nat
  /-- Only blanks were read on this line. -/
  fresh : Bool
  /-- The place of the token that is being read. -/
  tokenBegins : Bool
  tokenColumn : Nat
  tokenLine : Nat
  /-- The tokens that were read, in reverse. -/
  done : List Token

namespace Scan

/-- Before the first character. -/
def start : Scan := ⟨.between, 0, 0, 0, true, false, 0, 0, []⟩

/-- After a character that is not a line break. -/
def advance (s : Scan) : Scan := { s with column := s.column + 1, fresh := false }

/-- After a line break. -/
def nextLine (s : Scan) : Scan := { s with line := s.line + 1, column := 0, fresh := true }

/-- After any character. -/
def pass (s : Scan) (c : Char) : Scan := if c = '\n' then s.nextLine else s.advance

/-- Begins a token here. -/
def enter (s : Scan) (l : Lexing) : Scan :=
  { s with lexing := l, tokenBegins := s.fresh && s.depth = 0, tokenColumn := s.column
           tokenLine := s.line }

/-- Ends the token that is being read. -/
def emit (s : Scan) (kind : TokenKind) : Scan :=
  { s with lexing := .between
           done := ⟨kind, s.tokenBegins, s.tokenColumn, s.line, s.line⟩ :: s.done }

/-- Ends a quoted scalar, which may have begun on an earlier line. -/
def emitQuoted (s : Scan) (text : List Char) : Scan :=
  { s with lexing := .between
           done := ⟨.quoted text, s.tokenBegins, s.tokenColumn, s.tokenLine, s.line⟩ :: s.done }

/-- A token of one character. -/
def mark (s : Scan) (kind : TokenKind) : Scan := ((s.enter .between).emit kind).advance

end Scan

/-! ## Characters -/

/-- A space or a tab. -/
def isGap (c : Char) : Bool := c = ' ' || c = '\t'

/-- The end of the text, a blank or a line break. -/
def endsWord (next : Option Char) : Bool := next.all fun c => isGap c || c = '\n'

/-- The characters that end a plain scalar inside braces. -/
def isFlowMark (c : Char) : Bool := c = ',' || c = '[' || c = ']' || c = '\x7b' || c = '\x7d'

/-- The characters that begin something else than a plain scalar. -/
def isIndicator (c : Char) : Bool :=
  isFlowMark c || c = '#' || c = '&' || c = '*' || c = '!' || c = '|' || c = '>' || c = '\'' ||
  c = '"' || c = '%' || c = '@' || c = '\x60'

/-- A plain scalar may begin with `c`. -/
def startsPlain (depth : Nat) (c : Char) (next : Option Char) : Bool :=
  if c = '-' then !endsWord next
  else if c = '?' || c = ':' then depth = 0 && !endsWord next
  else !isIndicator c

/-- A plain scalar ends before `c`. -/
def endsPlain (depth : Nat) (read : List Char) (c : Char) (next : Option Char) : Bool :=
  c = '\n' || (c = ':' && endsWord next) || (0 < depth && isFlowMark c) ||
  (c = '#' && read.head?.any isGap)

/-- The characters that a text may hold. -/
def isAllowed (c : Char) : Bool :=
  c = '\t' || c = '\n' || (' ' ≤ c && c ≤ '~') || c = '\u0085' || ('\u00a0' ≤ c && c ≠ '\ufeff' &&
    c ≠ '\ufffe' && c ≠ '\uffff')

/-! ## Quoted scalars -/

/-- A text without the blanks at its start. -/
def trimGapStart (s : List Char) : List Char := s.dropWhile isGap

/-- A text without the blanks at its end. -/
def trimGapEnd (s : List Char) : List Char := (s.reverse.dropWhile isGap).reverse

/-- What stands for the breaks between two lines of a scalar: a space for one, and all but one of
    several. -/
def fold (emptyLines : Nat) : List Char :=
  if emptyLines = 0 then [' '] else List.replicate emptyLines '\n'

/-- The lines after the first, joined to what precedes them. -/
def foldFrom (emptyLines : Nat) : List (List Char) → List Char
  | [] => []
  | [l] => fold emptyLines ++ trimGapStart l
  | l :: ls =>
    match trimGapEnd (trimGapStart l) with
    | [] => foldFrom (emptyLines + 1) ls
    | t => fold emptyLines ++ t ++ foldFrom 0 ls

/-- The lines of a quoted scalar as one text. -/
def foldLines (s : List Char) : List Char :=
  match lines s with
  | [] => []
  | [l] => l
  | l :: ls => trimGapEnd l ++ foldFrom 0 ls

/-- The characters that stand for others after a backslash. -/
def escapes : List (Char × Char) :=
  [('0', '\x00'), ('a', '\x07'), ('b', '\x08'), ('t', '\t'), ('\t', '\t'), ('n', '\n'),
    ('v', '\x0b'), ('f', '\x0c'), ('r', '\r'), ('e', '\x1b'), (' ', ' '), ('"', '"'),
    ('/', '/'), ('\\', '\\'), ('N', '\u0085'), ('_', '\u00a0'), ('L', '\u2028'), ('P', '\u2029')]

/-- The value of hexadecimal digits. -/
def hexValue? (ds : List Char) : Option Nat :=
  ds.foldlM (fun n c =>
    if '0' ≤ c && c ≤ '9' then some (16 * n + (c.toNat - '0'.toNat))
    else if 'a' ≤ c.toLower && c.toLower ≤ 'f' then
      some (16 * n + (c.toLower.toNat - 'a'.toNat + 10))
    else none) 0

/-- The character with a code. -/
def charOf? (n : Nat) : Option Char := if n.isValidChar then some (Char.ofNat n) else none

/-- Replaces what stands after backslashes. -/
def unescape? : List Char → Option (List Char)
  | [] => some []
  | '\\' :: 'x' :: a :: b :: r => do
    return (← charOf? (← hexValue? [a, b])) :: (← unescape? r)
  | '\\' :: 'u' :: a :: b :: c :: d :: r => do
    return (← charOf? (← hexValue? [a, b, c, d])) :: (← unescape? r)
  | '\\' :: 'U' :: a :: b :: c :: d :: e :: f :: g :: h :: r => do
    return (← charOf? (← hexValue? [a, b, c, d, e, f, g, h])) :: (← unescape? r)
  | '\\' :: c :: r => do return (← escapes.lookup c) :: (← unescape? r)
  | c :: r => if c = '\\' then none else (unescape? r).map (c :: ·)

/-- The text of a quoted scalar, given what stands between its quotes. -/
def quotedText? (quote : Char) (s : List Char) : Option (List Char) :=
  if quote = '"' then unescape? (foldLines s) else some (foldLines s)

/-! ## The scanner -/

namespace Scan

/-- One character between tokens. -/
def readBetween? (s : Scan) (c : Char) (next : Option Char) : Option Scan :=
  if c = '\n' then some s.nextLine
  else if c = ' ' then some { s with column := s.column + 1 }
  else if c = '\t' then
    if s.fresh && s.depth = 0 then none else some { s with column := s.column + 1 }
  else if c = '#' then some { s.mark .comment with lexing := .comment }
  else if c = ':' && (0 < s.depth || endsWord next) then some (s.mark .colon)
  else if c = ',' && 0 < s.depth then some (s.mark .comma)
  else if c = '\x7b' then some { s.mark .opening with depth := s.depth + 1 }
  else if c = '\x7d' && 0 < s.depth then some { s.mark .closing with depth := s.depth - 1 }
  else if c = '\'' || c = '"' then some (s.enter (.quoted c [])).advance
  else if startsPlain s.depth c next then some (s.enter (.plain [c])).advance
  else none

/-- The plain scalar that was read. -/
def emitPlain (s : Scan) (read : List Char) : Scan := s.emit (.plain (trimGapEnd read.reverse))

/-- One character inside a quoted scalar. In single quotes a quote is written twice, in double
    quotes a backslash comes before it. -/
def readQuoted? (s : Scan) (quote : Char) (read : List Char) (c : Char) (next : Option Char) :
    Option Scan :=
  if c = quote then
    if quote = '\'' && next = some '\'' then some { s with lexing := .escaped quote read }.advance
    else (quotedText? quote read.reverse).map fun text => (s.emitQuoted text).advance
  else if c = '\\' && quote = '"' then some { s with lexing := .escaped quote (c :: read) }.advance
  else some ({ s with lexing := .quoted quote (c :: read) }.pass c)

/-- One character, given the one that follows it. -/
def read? (s : Scan) (c : Char) (next : Option Char) : Option Scan :=
  match s.lexing with
  | .between => s.readBetween? c next
  | .comment => some (if c = '\n' then { s with lexing := .between }.nextLine else s.advance)
  | .plain read =>
    if endsPlain s.depth read c next then (s.emitPlain read).readBetween? c next
    else if 0 < s.depth && c = ':' && next.any fun d => isFlowMark d || d = '?' then none
    else some { s with lexing := .plain (c :: read) }.advance
  | .quoted quote read => s.readQuoted? quote read c next
  | .escaped quote read => some ({ s with lexing := .quoted quote (c :: read) }.pass c)

/-- All characters of a text. -/
def run? (s : Scan) : List Char → Option Scan
  | [] => some s
  | c :: r => (s.read? c r.head?).bind fun s => s.run? r

/-- The tokens at the end of a text. -/
def finish? (s : Scan) : Option (List Token) :=
  match s.lexing with
  | .between | .comment => some s.done.reverse
  | .plain read => some (s.emitPlain read).done.reverse
  | .quoted _ _ | .escaped _ _ => none

end Scan

/-- The tokens of a text whose line ends are line feeds. -/
def tokens? (s : List Char) : Option (List Token) :=
  if s.all isAllowed then (Scan.start.run? s).bind Scan.finish? else none

end StLint.Yaml
