import StLint.Text.Word

/-!
# Quotes and brackets

A cut is made only at **top level**: outside quoted strings and where no bracket is open. One state,
`Nesting`, is shared by every scanner that looks for such a place, so that they agree on where a
string ends.

* `findTopLevel?` — the first occurrence of a phrase at top level.
* `splitTopLevel` — the trimmed parts between the separators at top level.
* `splitCall?` — a text of the form `name(args)`.
* `inQuotes` — whether a position lies inside a quoted string.
-/

namespace StLint.Text

/-- The characters that open and close a quoted string. -/
def isQuote (c : Char) : Bool := c = '\'' || c = '"'

/-- Round and square brackets. -/
def isOpening (c : Char) : Bool := c = '(' || c = '['

@[inherit_doc isOpening] def isClosing (c : Char) : Bool := c = ')' || c = ']'

/-- Where a scan stands: the quote that is open, and how many brackets are open. More brackets may
    have been closed than opened, and then the depth is negative. -/
structure Nesting where
  quote : Option Char
  depth : Int
  deriving DecidableEq, Repr

namespace Nesting

/-- The state before the first character. -/
def start : Nesting := ⟨none, 0⟩

/-- The open quote after one more character: a string ends at the quote that opened it. -/
def stepQuote (quote : Option Char) (c : Char) : Option Char :=
  match quote with
  | some q => if c = q then none else some q
  | none => if isQuote c then some c else none

/-- The state after one more character; brackets inside a string do not count. -/
def step (n : Nesting) (c : Char) : Nesting where
  quote := stepQuote n.quote c
  depth :=
    if n.quote.isSome then n.depth
    else if isOpening c then n.depth + 1
    else if isClosing c then n.depth - 1
    else n.depth

/-- A cut may be made before `c`: outside strings, at top level, and `c` opens or closes nothing. -/
def isFree (n : Nesting) (c : Char) : Bool :=
  n.quote.isNone && !isQuote c && !isOpening c && !isClosing c && n.depth ≤ 0

/-- The state after a whole text. -/
def after (n : Nesting) (s : List Char) : Nesting := s.foldl step n

end Nesting

/-- The search of `findTopLevel?` from a given state. -/
def findTopLevelFrom? (phrase : List Char) (n : Nesting) : List Char → Option Nat
  | [] => none
  | c :: r =>
    if n.isFree c && phrase.isPrefixOf (c :: r) then some 0
    else (findTopLevelFrom? phrase (n.step c) r).map (· + 1)

/-- Position of the first occurrence of `phrase` outside brackets and strings. -/
def findTopLevel? (phrase : String) (s : List Char) : Option Nat :=
  findTopLevelFrom? phrase.toList .start s

/-- The two sides of the first occurrence of `phrase` at top level. -/
def cutTopLevel? (phrase : String) (s : List Char) : Option (List Char × List Char) :=
  (findTopLevel? phrase s).map fun i => (s.take i, s.drop (i + phrase.length))

/-- The untrimmed pieces between the separators at top level; always at least one. -/
def topLevelPieces (sep : Char) (n : Nesting) : List Char → List (List Char)
  | [] => [[]]
  | c :: r =>
    if n.isFree c && c = sep then [] :: topLevelPieces sep (n.step c) r
    else match topLevelPieces sep (n.step c) r with
      | [] => [[c]]
      | p :: ps => (c :: p) :: ps

/-- The trimmed parts between the separators at top level. A blank text has no parts. -/
def splitTopLevel (sep : Char) (s : List Char) : List (List Char) :=
  if allBlank s then [] else (topLevelPieces sep .start s).map trim

/-- The two sides of the round bracket that closes the `depth + 1` that are open. -/
def closingParen? : Option Char → Nat → List Char → Option (List Char × List Char)
  | _, _, [] => none
  | quote, depth, c :: r =>
    if quote.isNone && c = ')' then
      match depth with
      | 0 => some ([], r)
      | d + 1 => (closingParen? none d r).map fun (inside, rest) => (c :: inside, rest)
    else
      let depth := if quote.isNone && c = '(' then depth + 1 else depth
      (closingParen? (Nesting.stepQuote quote c) depth r).map fun (inside, rest) =>
        (c :: inside, rest)

/-- The name and the argument text of `name(args)`, where the bracket after the name closes at the
    very end and the name is an identifier, possibly dotted. -/
def splitCall? (s : List Char) : Option (List Char × List Char) :=
  let s := trim s
  match s.dropWhile (· ≠ '(') with
  | [] => none
  | _ :: afterParen =>
    let name := trimEnd (s.takeWhile (· ≠ '('))
    if isQualified name then
      match closingParen? none 0 afterParen with
      | some (args, []) => some (name, args)
      | _ => none
    else none

/-- A statement without surrounding white space and without one final semicolon. -/
def stripStatementEnd (s : List Char) : List Char :=
  let t := trim s
  trimEnd ((dropSuffix? [';'] t).getD t)

/-- The position `i` lies inside a quoted string. -/
def inQuotes (s : List Char) (i : Nat) : Bool :=
  ((s.take i).foldl Nesting.stepQuote none).isSome

end StLint.Text
