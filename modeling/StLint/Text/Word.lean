import StLint.Text.Basic

/-!
# Words and identifiers

A **word** is a run of ASCII letters, digits and underscores. Keywords are looked up as whole words
and without regard to ASCII case; a character outside ASCII never continues a word.

* `findWord?` — the first place where a keyword stands as a whole word.
* `startsWithKeyword` — a line that leads with a keyword.
* `isIdentifier`, `isQualified` — names, plain and dotted.
-/

namespace StLint.Text

/-- The ASCII letters. -/
def isLetter (c : Char) : Bool := ('a' ≤ c && c ≤ 'z') || ('A' ≤ c && c ≤ 'Z')

/-- The ASCII digits. -/
def isDigit (c : Char) : Bool := '0' ≤ c && c ≤ '9'

/-- The ASCII letters and digits and the underscore. -/
def isWordChar (c : Char) : Bool := isLetter c || isDigit c || c = '_'

/-- `word` stands as a whole word at the start of `s`, where `prev` is the character before. -/
def wordAt (word : List Char) (prev : Option Char) (s : List Char) : Bool :=
  (upper word).isPrefixOf (upper (s.take word.length)) &&
  !prev.any isWordChar && !(s.drop word.length).head?.any isWordChar

/-- The search of `findWord?` with the character before the text. -/
def findWordFrom? (word : List Char) (prev : Option Char) : List Char → Option Nat
  | [] => none
  | c :: r =>
    if wordAt word prev (c :: r) then some 0
    else (findWordFrom? word (some c) r).map (· + 1)

/-- Position of the first occurrence of a keyword as a whole word. -/
def findWord? (word : String) (s : List Char) : Option Nat :=
  if word.toList.isEmpty then none else findWordFrom? word.toList none s

/-- A keyword occurs as a whole word. -/
def containsWord (word : String) (s : List Char) : Bool := (findWord? word s).isSome

/-- A line leads with a keyword, up to white space. -/
def startsWithKeyword (keyword : String) (line : List Char) : Bool :=
  !keyword.toList.isEmpty && wordAt keyword.toList none (trimStart line)

/-- The longest prefix of word characters. -/
def leadingWord (s : List Char) : List Char := s.takeWhile isWordChar

/-- A letter or underscore, then letters, digits and underscores. -/
def isIdentifier : List Char → Bool
  | [] => false
  | c :: r => (isLetter c || c = '_') && r.all isWordChar

/-- An identifier, or identifiers joined by dots (`fb.Q`, `a.b.c`). -/
def isQualified (s : List Char) : Bool := (splitOn '.' s).all isIdentifier

/-- The text before the first dot. -/
def firstComponent (s : List Char) : List Char := s.takeWhile (· ≠ '.')

end StLint.Text
