import StLint.Pou.Variable
import StLint.Text.Folding
import StLint.Text.Unicode

/-!
# Section headers

A section of declarations opens with `VAR`, `VAR_INPUT` and so on, and qualifiers such as `CONSTANT`
or `RETAIN` may follow the keyword.

* `Header.read?` — the header at the start of a text, and what follows it.
* `marksConstant` — a line that holds a header with the qualifier `CONSTANT`.
-/

namespace StLint.Section

open Text

/-- The section keywords; a longer one comes before its own beginning. -/
def keywords : List String :=
  ["VAR_INPUT", "VAR_OUTPUT", "VAR_IN_OUT", "VAR_TEMP", "VAR_GLOBAL", "VAR_EXTERNAL", "VAR"]

/-- The qualifiers that may follow a section keyword. -/
def qualifiers : List String := ["CONSTANT", "RETAIN", "NON_RETAIN", "PERSISTENT"]

/-- What follows a whole keyword at the start of a text. -/
def dropWord? (keyword : String) (s : List Char) : Option (List Char) :=
  (dropKeyword? keyword.toList s).filter wordMayEnd

/-- What follows white space and a qualifier. -/
def dropQualifier? (s : List Char) : Option (List Char) :=
  (dropBlanks? s).bind fun r => qualifiers.findSome? fun q => dropWord? q r

theorem length_dropWord?_le {keyword : String} {s rest : List Char}
    (h : dropWord? keyword s = some rest) : rest.length ≤ s.length := by
  simp only [dropWord?, Option.filter_eq_some_iff] at h
  exact length_dropKeyword?_le h.1

theorem length_dropQualifier?_lt {s rest : List Char} (h : dropQualifier? s = some rest) :
    rest.length < s.length := by
  simp only [dropQualifier?, Option.bind_eq_some_iff] at h
  obtain ⟨r, hr, hq⟩ := h
  obtain ⟨q, _, hw⟩ := List.exists_of_findSome?_eq_some hq
  exact Nat.lt_of_le_of_lt (length_dropWord?_le hw) (length_dropBlanks?_lt hr)

/-- What follows all qualifiers at the start of a text. -/
def dropQualifiers (s : List Char) : List Char :=
  match _h : dropQualifier? s with
  | some rest => dropQualifiers rest
  | none => s
termination_by s.length
decreasing_by exact length_dropQualifier?_lt _h

/-- A section header. -/
structure Header where
  scope : VariableScope
  retain : Bool
  deriving DecidableEq, Repr

/-- The scope of the section keyword at the start of a text, and what follows the keyword. -/
def keyword? (s : List Char) : Option (VariableScope × List Char) :=
  keywords.findSome? fun keyword =>
    (dropWord? keyword s).bind fun rest =>
      (VariableScope.ofKeyword? (s.take keyword.length)).map fun scope => (scope, rest)

/-- The header at the start of a text, and what follows it. The qualifiers `RETAIN` and `PERSISTENT`
    make the variables of the section keep their values. -/
def Header.read? (s : List Char) : Option (Header × List Char) :=
  (keyword? (trimStart s)).map fun (scope, rest) =>
    let tail := dropQualifiers rest
    let written := rest.take (rest.length - tail.length)
    ({ scope, retain := containsWord "RETAIN" written || containsWord "PERSISTENT" written },
      trimStart tail)

/-- The pieces of a text between its white space. -/
def blankSeparated (s : List Char) : List (List Char) :=
  (s.splitBy fun a b => isBlank a == isBlank b).filter fun piece => !piece.any isBlank

/-- Among words that follow a section keyword, `CONSTANT` comes before anything that is no word. -/
def leadsToConstant : List (List Char) → Bool
  | [] => false
  | w :: ws => (dropWord? "CONSTANT" w).isSome || (w.all isUnicodeWord && leadsToConstant ws)

/-- A section keyword stands at the start of a text, and `CONSTANT` among the words after it. -/
def opensConstant (s : List Char) : Bool :=
  (dropKeyword? "VAR".toList s).isSome &&
  match blankSeparated s with
  | [] => false
  | w :: ws => w.all isUnicodeWord && leadsToConstant ws

/-- The search of `marksConstant`, where `prev` is the character before the text. -/
def marksConstantFrom (prev : Option Char) : List Char → Bool
  | [] => false
  | c :: r => (wordMayStart prev && opensConstant (c :: r)) || marksConstantFrom (some c) r

/-- A line holds a section header with the qualifier `CONSTANT`. -/
def marksConstant (line : List Char) : Bool := marksConstantFrom none line

end StLint.Section
