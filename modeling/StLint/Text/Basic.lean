/-!
# Characters of a source text

Every scanner of the library reads a text as a **list of characters**: a cut is a position in that
list, the two sides of a cut are `take` and `drop`, and no cut can fall inside a character. Strings
appear only in the records that the scanners build.

* `upper`, `lower`, `eqIgnoreCase` — the ASCII case rules of the language; all other characters
  stay.
* `isBlank`, `trim` — white space is the Unicode property `White_Space`.
* `splitOn`, `find?` — cutting at a separator and finding a phrase.
* `byteOffset` — the size in UTF-8 of what precedes a position, for reports that count bytes.
-/

namespace StLint.Text

/-! ## Case -/

/-- A text with its ASCII letters in upper case. -/
def upper (s : List Char) : List Char := s.map Char.toUpper

/-- A text with its ASCII letters in lower case. -/
def lower (s : List Char) : List Char := s.map Char.toLower

/-- Two texts are the same up to the case of their ASCII letters. -/
def eqIgnoreCase (s t : List Char) : Bool := lower s == lower t

theorem upper_append (s t : List Char) : upper (s ++ t) = upper s ++ upper t := List.map_append

theorem length_upper (s : List Char) : (upper s).length = s.length := List.length_map _

/-! ## White space -/

/-- The characters with the Unicode property `White_Space`. -/
def isBlank (c : Char) : Bool :=
  ('\t' ≤ c && c ≤ '\r') || c = ' ' || c = '\u0085' || c = '\u00a0' || c = '\u1680' ||
  ('\u2000' ≤ c && c ≤ '\u200a') || c = '\u2028' || c = '\u2029' || c = '\u202f' ||
  c = '\u205f' || c = '\u3000'

/-- A text of white space only. -/
def allBlank (s : List Char) : Bool := s.all isBlank

/-- A text without its leading white space. -/
def trimStart (s : List Char) : List Char := s.dropWhile isBlank

/-- A text without its trailing white space. -/
def trimEnd : List Char → List Char
  | [] => []
  | c :: r => match trimEnd r with
    | [] => if isBlank c then [] else [c]
    | t => c :: t

/-- A text without the white space at either end. -/
def trim (s : List Char) : List Char := trimEnd (trimStart s)

theorem length_trimStart_le (s : List Char) : (trimStart s).length ≤ s.length :=
  (List.dropWhile_sublist _).length_le

theorem length_trimEnd_le (s : List Char) : (trimEnd s).length ≤ s.length := by
  induction s with
  | nil => simp [trimEnd]
  | cons c r ih =>
      simp only [trimEnd]
      split
      · split <;> simp
      · simpa using ih

theorem length_trim_le (s : List Char) : (trim s).length ≤ s.length :=
  Nat.le_trans (length_trimEnd_le _) (length_trimStart_le _)

/-! ## Cutting and joining -/

/-- The pieces between the occurrences of `sep`; always at least one. -/
def splitOn (sep : Char) : List Char → List (List Char)
  | [] => [[]]
  | c :: r =>
    if c = sep then [] :: splitOn sep r
    else match splitOn sep r with
      | [] => [[c]]
      | p :: ps => (c :: p) :: ps

/-- The lines of a text whose line ends are line feeds; a final line feed opens an empty last
    line. -/
def lines (s : List Char) : List (List Char) := splitOn '\n' s

/-- Lines put together with a line feed between each two. -/
def unlines (ls : List (List Char)) : List Char := ['\n'].intercalate ls

/-- Position of the first occurrence of `phrase`. -/
def find? (phrase : List Char) : List Char → Option Nat
  | [] => if phrase.isEmpty then some 0 else none
  | c :: r => if phrase.isPrefixOf (c :: r) then some 0 else (find? phrase r).map (· + 1)

/-- What follows `phrase` at the start of a text. -/
def dropPrefix? (phrase s : List Char) : Option (List Char) :=
  if phrase.isPrefixOf s then some (s.drop phrase.length) else none

/-- What precedes `phrase` at the end of a text. -/
def dropSuffix? (phrase s : List Char) : Option (List Char) :=
  if phrase.isSuffixOf s then some (s.take (s.length - phrase.length)) else none

/-! ## Bytes -/

/-- The size of a text in UTF-8. -/
def byteSize : List Char → Nat
  | [] => 0
  | c :: r => c.utf8Size + byteSize r

/-- The size in UTF-8 of the first `i` characters. -/
def byteOffset (s : List Char) (i : Nat) : Nat := byteSize (s.take i)

end StLint.Text
