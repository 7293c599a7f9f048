import StLint.Check.Basic
import StLint.Expression.Literal
import StLint.Collection.Basic

/-!
# Array accesses

An access `name[index]` with a computed index is reported once for each array, unless some line of
the unit compares the array with both of its bounds.

* `accesses` — the accesses in a text, from left to right; what stands inside the brackets of one is
  **not searched again**.
* `indexing` — the findings.
-/

namespace StLint.Check

open Text

namespace Indexing

/-- An array and the text of its index. -/
structure Access where
  name : List Char
  index : List Char
  deriving DecidableEq, Repr

/-- The index up to the next closing bracket, and what follows it. -/
def takeIndex? (name s : List Char) : Option (Access × List Char) :=
  match s.dropWhile (· ≠ ']') with
  | [] => none
  | _ :: rest =>
    let index := s.takeWhile (· ≠ ']')
    if index.isEmpty then none else some (⟨name, trim index⟩, rest)

/-- The access at the start of a text, and what follows it. -/
def takeAccess? (s : List Char) : Option (Access × List Char) :=
  if s.head?.any fun c => isLetter c || c = '_' then
    match trimStart (s.dropWhile isWordChar) with
    | [] => none
    | c :: r => if c = '[' then takeIndex? (leadingWord s) r else none
  else none

theorem length_takeIndex?_le {name s rest : List Char} {a : Access}
    (h : takeIndex? name s = some (a, rest)) : rest.length ≤ s.length := by
  have hd := (List.dropWhile_sublist (· ≠ ']') (l := s)).length_le
  simp only [takeIndex?] at h
  split at h
  · simp at h
  · rename_i c r hr
    split at h
    · simp at h
    · simp only [Option.some.injEq, Prod.mk.injEq] at h
      obtain ⟨_, rfl⟩ := h
      rw [hr, List.length_cons] at hd
      omega

theorem length_takeAccess?_lt {s rest : List Char} {a : Access}
    (h : takeAccess? s = some (a, rest)) : rest.length < s.length := by
  simp only [takeAccess?] at h
  split at h
  · split at h
    · simp at h
    · rename_i c r hr
      split at h
      · have hi := length_takeIndex?_le h
        have ht := length_trimStart_le (s.dropWhile isWordChar)
        have hd := (List.dropWhile_sublist isWordChar (l := s)).length_le
        rw [hr, List.length_cons] at ht
        omega
      · simp at h
  · simp at h

/-- The accesses in a text. -/
def accesses : List Char → List Access
  | [] => []
  | c :: r =>
    match _h : takeAccess? (c :: r) with
    | some (a, rest) => a :: accesses rest
    | none => accesses r
termination_by s => s.length
decreasing_by
  · exact length_takeAccess?_lt _h
  · exact Nat.lt_succ_self _

/-- An index is a list of numbers. -/
def isConstant (index : List Char) : Bool :=
  (splitOn ',' index).all fun part => Literal.isNumeric (trim part)

/-- A line compares an array with both of its bounds. -/
def checksRange (name line : List Char) : Bool :=
  containsWord (String.ofList name) line && (find? ">=".toList line).isSome &&
    (find? "<=".toList line).isSome

/-- An access with a computed index, at its line. -/
structure Site where
  access : Access
  line : Nat
  deriving DecidableEq, Repr

/-- The accesses of a node with a computed index: those of its name, then those of its value. -/
def sitesOfNode (n : Node) : List Site :=
  (([n.name, n.value].filterMap id).flatMap fun text => accesses text.toList).filterMap fun a =>
    if isConstant a.index then none else some ⟨a, n.line⟩

/-- The first access with a computed index of each array. -/
def sites (u : Pou) : List Site :=
  firstBy (fun s => lower s.access.name) (u.body.walk.flatMap sitesOfNode)

/-- The finding about an access. -/
def ofSite (u : Pou) (s : Site) : Issue :=
  let name := String.ofList s.access.name
  .inUnit u (some s.line) .safetyConcern .warning "Unchecked array index"
    (name ++ "[" ++ String.ofList s.access.index ++ "] is indexed without a bounds check")
    ("Check the index against the bounds of " ++ name ++ " before the access") 0.6

end Indexing

/-- The findings about the array accesses of a unit. -/
def indexing (u : Pou) : List Issue :=
  ((Indexing.sites u).filter fun s => !u.sourceLines.any (Indexing.checksRange s.access.name)).map
    (Indexing.ofSite u)

end StLint.Check
