import StLint.Text.Folding

/-!
# Matching with alternatives

Loop headers are matched by preference: a run of white space is taken as long as possible, any other
part as short as possible, and **the first choice that lets the rest match wins**. Each combinator
takes what must match after it.

The two `…_eq_some` lemmas say that whatever a combinator answers, it answers for some end of its
text; they are all that termination proofs need.
-/

namespace StLint.Text.Pattern

/-- The first answer of the two. -/
def either (a : Option α) (b : Option α) : Option α :=
  match a with
  | some x => some x
  | none => b

/-- A run of at least `least` white space characters, the longest first. -/
def blanks (least : Nat) (next : List Char → Option α) : List Char → Option α
  | [] => if least = 0 then next [] else none
  | c :: r =>
    either (if isBlank c then blanks (least - 1) next r else none)
      (if least = 0 then next (c :: r) else none)

/-- At least one character other than a line feed, the fewest first. What was taken before is given
    last character first. -/
def shortest (next : List Char → List Char → Option α) (taken : List Char) :
    List Char → Option α
  | [] => none
  | c :: r =>
    if c = '\n' then none
    else either (next (c :: taken).reverse r) (shortest next (c :: taken) r)

/-- A keyword, up to folding. -/
def keyword (word : String) (next : List Char → Option α) (s : List Char) : Option α :=
  (dropKeyword? word.toList s).bind next

theorem either_eq_some {a b : Option α} {x : α} (h : either a b = some x) :
    a = some x ∨ b = some x := by
  cases a with
  | none => exact .inr h
  | some y => exact .inl h

theorem blanks_eq_some {least : Nat} {next : List Char → Option α} {s : List Char} {x : α}
    (h : blanks least next s = some x) : ∃ r, r.length ≤ s.length ∧ next r = some x := by
  induction s generalizing least with
  | nil =>
      simp only [blanks] at h
      split at h
      · exact ⟨[], Nat.le_refl _, h⟩
      · simp at h
  | cons c r ih =>
      simp only [blanks] at h
      rcases either_eq_some h with h | h
      · split at h
        · obtain ⟨r', hr, hx⟩ := ih h
          exact ⟨r', Nat.le_succ_of_le hr, hx⟩
        · simp at h
      · split at h
        · exact ⟨c :: r, Nat.le_refl _, h⟩
        · simp at h

theorem shortest_eq_some {next : List Char → List Char → Option α} {taken s : List Char} {x : α}
    (h : shortest next taken s = some x) :
    ∃ part r, r.length ≤ s.length ∧ next part r = some x := by
  induction s generalizing taken with
  | nil => simp [shortest] at h
  | cons c r ih =>
      simp only [shortest] at h
      split at h
      · simp at h
      · rcases either_eq_some h with h | h
        · exact ⟨_, r, Nat.le_succ _, h⟩
        · obtain ⟨part, r', hr, hx⟩ := ih h
          exact ⟨part, r', Nat.le_succ_of_le hr, hx⟩

end StLint.Text.Pattern
