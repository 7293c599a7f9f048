import StLint.Text.Nesting
import StLint.Text.Pattern
import StLint.Text.Unicode

/-!
# Statement headers

What follows the keyword of a block on the same line: a condition up to its closing word, the bounds
of a `FOR` loop, or the label of a `CASE` branch. The text after a header is the first statement of
the block.
-/

namespace StLint.Statement

open Text

/-- A condition or selector, and the text after the word that ends it. Without that word the whole
    text is the condition. -/
def splitHeader (word : String) (s : List Char) : List Char × List Char :=
  match findWord? word s with
  | some i => (trim (s.take i), trim (s.drop (i + word.length)))
  | none => (stripStatementEnd s, [])

/-- The bounds of a counting loop as they are written. -/
structure Bounds where
  first : List Char
  last : List Char
  step : Option (List Char)
  deriving DecidableEq, Repr

namespace Bounds

/-- `first TO last`, and `BY step` where there is a step. -/
def text (b : Bounds) : List Char :=
  b.first ++ " TO ".toList ++ b.last ++
    match b.step with
    | some s => " BY ".toList ++ s
    | none => []

/-- Reads `last [BY step]` and then what `next` reads. -/
def readLast (next : List Char → Option α) (first : List Char) (s : List Char) :
    Option (Bounds × α) :=
  Pattern.shortest (fun last r =>
    Pattern.either
      (Pattern.blanks 1 (Pattern.keyword "BY" (Pattern.blanks 1 (Pattern.shortest (fun step r =>
        (next r).map fun a => (⟨trim first, trim last, some (trim step)⟩, a)) []))) r)
      ((next r).map fun a => (⟨trim first, trim last, none⟩, a))) [] s

/-- Reads `first TO last [BY step]` and then what `next` reads. -/
def readThen (next : List Char → Option α) (s : List Char) : Option (Bounds × α) :=
  Pattern.blanks 0 (Pattern.shortest (fun first r =>
    Pattern.blanks 1 (Pattern.keyword "TO" (Pattern.blanks 1 (readLast next first))) r) []) s

/-- Nothing but white space is left. -/
def atEnd (s : List Char) : Option Unit := if allBlank s then some () else none

/-- The bounds that a text spells. -/
def read? (s : List Char) : Option Bounds := (readThen atEnd s).map Prod.fst

end Bounds

/-- The header of a `FOR` loop: its variable, its bounds, and the text after `DO`. -/
structure ForHeader where
  counter : List Char
  bounds : Bounds
  body : List Char
  deriving DecidableEq, Repr

/-- A character of the name of a loop variable, which may be a member. -/
def continuesCounter (c : Char) : Bool := continuesName c || c = '.'

/-- The text after the `DO` that ends a header; a header may also end without it. -/
def loopBody? (s : List Char) : Option (List Char) :=
  Pattern.either
    (Pattern.blanks 1 (Pattern.keyword "DO" fun r => if wordMayEnd r then some r else none) s)
    (if allBlank s then some [] else none)

/-- Reads the assignment of the bounds to the loop variable, and the body. -/
def ForHeader.readBounds? (counter s : List Char) : Option ForHeader :=
  (dropPrefix? ":=".toList s).bind fun r =>
    (Bounds.readThen loopBody? r).map fun (bounds, body) => ⟨counter, bounds, trim body⟩

/-- Reads the header after its keyword `FOR`. -/
def ForHeader.read? (s : List Char) : Option ForHeader :=
  Pattern.blanks 1 (fun r =>
    if r.head?.any startsName then
      Pattern.blanks 0 (readBounds? (r.takeWhile continuesCounter)) (r.dropWhile continuesCounter)
    else none) s

/-- A character of a branch label. -/
def isLabelChar (c : Char) : Bool :=
  isWordChar c || c = '#' || c = '.' || c = ',' || c = '-' || c = '+' || c = ' '

/-- What follows the label of a `CASE` branch and its colon (`1, 2:`, `10..20:`, `IDLE:`). -/
def dropBranchLabel? (s : List Char) : Option (List Char) :=
  match s.dropWhile (· ≠ ':') with
  | [] => none
  | _ :: r =>
    let label := trim (s.takeWhile (· ≠ ':'))
    if r.head? = some '=' then none
    else if !label.isEmpty && label.all isLabelChar then some (trim r)
    else none

/-! ## What follows a header is shorter -/

theorem length_splitHeader_le (word : String) (s : List Char) :
    (splitHeader word s).2.length ≤ s.length := by
  unfold splitHeader
  split
  · refine Nat.le_trans (length_trim_le _) ?_
    simp only [List.length_drop]
    omega
  · simp

theorem length_loopBody?_le {s body : List Char} (h : loopBody? s = some body) :
    body.length ≤ s.length := by
  rcases Pattern.either_eq_some h with h | h
  · obtain ⟨r, hr, h⟩ := Pattern.blanks_eq_some h
    simp only [Pattern.keyword, Option.bind_eq_some_iff] at h
    obtain ⟨r', hr', h⟩ := h
    split at h
    · obtain rfl := Option.some.inj h
      exact Nat.le_trans (length_dropKeyword?_le hr') hr
    · simp at h
  · split at h
    · obtain rfl := Option.some.inj h
      simp
    · simp at h

theorem length_readLast_le {first s : List Char} {x : Bounds × List Char}
    (h : Bounds.readLast loopBody? first s = some x) : x.2.length ≤ s.length := by
  obtain ⟨last, r, hr, h⟩ := Pattern.shortest_eq_some h
  rcases Pattern.either_eq_some h with h | h
  · obtain ⟨r₁, h₁, h⟩ := Pattern.blanks_eq_some h
    simp only [Pattern.keyword, Option.bind_eq_some_iff] at h
    obtain ⟨r₂, h₂, h⟩ := h
    obtain ⟨r₃, h₃, h⟩ := Pattern.blanks_eq_some h
    obtain ⟨step, r₄, h₄, h⟩ := Pattern.shortest_eq_some h
    simp only [Option.map_eq_some_iff] at h
    obtain ⟨a, ha, rfl⟩ := h
    have := length_loopBody?_le ha
    have := length_dropKeyword?_le h₂
    show a.length ≤ s.length
    omega
  · simp only [Option.map_eq_some_iff] at h
    obtain ⟨a, ha, rfl⟩ := h
    exact Nat.le_trans (length_loopBody?_le ha) hr

theorem length_readThen_le {s : List Char} {x : Bounds × List Char}
    (h : Bounds.readThen loopBody? s = some x) : x.2.length ≤ s.length := by
  obtain ⟨r₀, h₀, h⟩ := Pattern.blanks_eq_some h
  obtain ⟨first, r₁, h₁, h⟩ := Pattern.shortest_eq_some h
  obtain ⟨r₂, h₂, h⟩ := Pattern.blanks_eq_some h
  simp only [Pattern.keyword, Option.bind_eq_some_iff] at h
  obtain ⟨r₃, h₃, h⟩ := h
  obtain ⟨r₄, h₄, h⟩ := Pattern.blanks_eq_some h
  have := length_readLast_le h
  have := length_dropKeyword?_le h₃
  omega

theorem ForHeader.length_readBounds?_le {counter s : List Char} {x : ForHeader}
    (h : ForHeader.readBounds? counter s = some x) : x.body.length ≤ s.length := by
  simp only [ForHeader.readBounds?, Option.bind_eq_some_iff, Option.map_eq_some_iff] at h
  obtain ⟨r, hr, y, hy, rfl⟩ := h
  have hb := length_readThen_le hy
  have ht := length_trim_le y.2
  have hp : r.length ≤ s.length := by
    simp only [dropPrefix?] at hr
    split at hr
    · obtain rfl := Option.some.inj hr
      simp
    · simp at hr
  show (trim y.2).length ≤ s.length
  omega

theorem ForHeader.length_body_le {s : List Char} {x : ForHeader} (h : ForHeader.read? s = some x) :
    x.body.length ≤ s.length := by
  obtain ⟨r, hr, h⟩ := Pattern.blanks_eq_some h
  split at h
  · obtain ⟨r', hr', h⟩ := Pattern.blanks_eq_some h
    have hx := ForHeader.length_readBounds?_le h
    have hd := (List.dropWhile_sublist continuesCounter (l := r)).length_le
    omega
  · simp at h

theorem length_dropBranchLabel?_lt {s rest : List Char} (h : dropBranchLabel? s = some rest) :
    rest.length < s.length := by
  simp only [dropBranchLabel?] at h
  split at h
  · simp at h
  · rename_i c r hr
    have hd := (List.dropWhile_sublist (· ≠ ':') (l := s)).length_le
    rw [hr] at hd
    have ht := length_trim_le r
    split at h
    · simp at h
    · split at h
      · obtain rfl := Option.some.inj h
        simp only [List.length_cons] at hd
        omega
      · simp at h

end StLint.Statement
