import StLint.Text.Nesting

/-!
# Binary operators

An operator counts only as a **whole token** outside quoted strings: `<` is not part of `<=`, and a
minus that follows another operator is a sign.

* `binaryOperators` — the operators in the order in which they are tried.
* `findOperator?` — the first place where an operator stands as a token.
-/

namespace StLint.Expression

open Text

/-- The operators, in the order in which an expression is searched for them. -/
def binaryOperators : List String :=
  ["AND", "OR", "XOR", "+", "-", "*", "/", "MOD", "DIV", "=", "<>", "<", ">", "<=", ">="]

/-- An operator that is spelled with letters. -/
def isWordOperator (op : String) : Bool := op.toList.all isLetter

/-- A character after which a minus or plus is a sign. -/
def precedesSign (c : Char) : Bool :=
  c = '+' || c = '-' || c = '*' || c = '/' || c = '=' || c = '<' || c = '>' || c = ':' ||
  c = '(' || c = ',' || c = '!'

/-- A character of a number with an exponent. -/
def isNumberChar (c : Char) : Bool := isWordChar c || c = '.'

/-- What stands before ends with the `e` of a number: a token that starts with a digit. The text
    before is given last character first. -/
def endsWithExponent (before : List Char) : Bool :=
  let token := before.takeWhile isNumberChar
  token.head?.any (fun c => c = 'e' || c = 'E') && token.getLast?.any isDigit

/-- A minus or plus after `before`, last character first, is a sign and not an operator. -/
def isSignAfter (before : List Char) : Bool :=
  match trimStart before with
  | [] => true
  | c :: _ => precedesSign c || endsWithExponent before

/-- A symbol is part of a longer token, judged by the characters on either side. -/
def isGlued (op : String) (prev next : Option Char) : Bool :=
  if op = "=" then prev.any (fun c => c = '<' || c = '>' || c = ':' || c = '!') || next = some '>'
  else if op = "<" then next.any fun c => c = '=' || c = '>'
  else if op = ">" then prev.any (fun c => c = '<' || c = '=') || next = some '='
  else if op = "*" then prev = some '(' || next = some ')'
  else false

/-- The symbol `op` stands as a token between `before`, last character first, and what follows. -/
def isSymbolToken (op : String) (before rest : List Char) : Bool :=
  !isGlued op before.head? rest.head? && !((op = "-" || op = "+") && isSignAfter before)

/-- The search for a symbol from a place in the text, with the open quote. Where the symbol stands
    but is no token, the search goes on behind it: `skip` characters of it are still to pass. -/
def findSymbolFrom? (op : String) (skip : Nat) (quote : Option Char) (before : List Char) :
    List Char → Option Nat
  | [] => none
  | c :: r =>
    let stands := skip = 0 && op.toList.isPrefixOf (c :: r)
    if stands && quote.isNone && isSymbolToken op before ((c :: r).drop op.length) then some 0
    else (findSymbolFrom? op (if stands then op.length - 1 else skip - 1)
      (Nesting.stepQuote quote c) (c :: before) r).map (· + 1)

/-- Position of the first place where an operator stands as a token. An operator of letters is
    looked for at its first whole-word occurrence only. -/
def findOperator? (op : String) (s : List Char) : Option Nat :=
  if isWordOperator op then (findWord? op s).filter fun i => !inQuotes s i
  else findSymbolFrom? op 0 none [] s

/-- The first operator of the list that has text on both sides, with the trimmed sides. -/
def splitBinary? (s : List Char) : Option (String × List Char × List Char) :=
  binaryOperators.findSome? fun op =>
    (findOperator? op s).bind fun i =>
      let left := trim (s.take i)
      let right := trim (s.drop (i + op.length))
      if left.isEmpty || right.isEmpty then none else some (op, left, right)

end StLint.Expression
