import StLint.Text.Word

/-!
# Keywords under simple case folding

Two characters outside ASCII fold to an ASCII letter: the Kelvin sign to `K` and the long s to `S`.
Headers and declarations are matched under this folding; a keyword so matched is then looked up
under the ASCII rule, which does not know these two.
-/

namespace StLint.Text

/-- The upper-case ASCII letter that a character folds to; a character without one is its own. -/
def fold (c : Char) : Char :=
  if c = '\u212a' then 'K' else if c = '\u017f' then 'S' else c.toUpper

/-- A character that folds to an ASCII letter. -/
def isFoldedLetter (c : Char) : Bool := isLetter (fold c)

/-- A letter or underscore, up to folding. -/
def startsName (c : Char) : Bool := isFoldedLetter c || c = '_'

/-- A letter, digit or underscore, up to folding. -/
def continuesName (c : Char) : Bool := startsName c || isDigit c

/-- What follows an upper-case keyword at the start of a text, up to folding. -/
def dropKeyword? : List Char → List Char → Option (List Char)
  | [], s => some s
  | _ :: _, [] => none
  | k :: ks, c :: r => if fold c = k then dropKeyword? ks r else none

/-- What follows the white space, at least one character of it, at the start of a text. -/
def dropBlanks? : List Char → Option (List Char)
  | c :: r => if isBlank c then some (trimStart r) else none
  | [] => none

/-- The name at the start of a text and what follows it. -/
def takeName? : List Char → Option (List Char × List Char)
  | c :: r =>
    if startsName c then some (c :: r.takeWhile continuesName, r.dropWhile continuesName) else none
  | [] => none

/-! ## What follows is shorter -/

theorem length_dropKeyword?_le {keyword s rest : List Char}
    (h : dropKeyword? keyword s = some rest) : rest.length ≤ s.length := by
  induction keyword generalizing s with
  | nil => simp only [dropKeyword?, Option.some.injEq] at h; simp [h]
  | cons k ks ih =>
      cases s with
      | nil => simp [dropKeyword?] at h
      | cons c r =>
          simp only [dropKeyword?] at h
          split at h
          · exact Nat.le_succ_of_le (ih h)
          · simp at h

theorem length_dropKeyword?_lt {k : Char} {ks s rest : List Char}
    (h : dropKeyword? (k :: ks) s = some rest) : rest.length < s.length := by
  cases s with
  | nil => simp [dropKeyword?] at h
  | cons c r =>
      simp only [dropKeyword?] at h
      split at h
      · exact Nat.lt_succ_of_le (length_dropKeyword?_le h)
      · simp at h

theorem length_dropBlanks?_lt {s rest : List Char} (h : dropBlanks? s = some rest) :
    rest.length < s.length := by
  cases s with
  | nil => simp [dropBlanks?] at h
  | cons c r =>
      simp only [dropBlanks?] at h
      split at h
      · obtain rfl := Option.some.inj h
        exact Nat.lt_succ_of_le (length_trimStart_le r)
      · simp at h

end StLint.Text
