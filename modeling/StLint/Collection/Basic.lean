/-!
# Lists

* `firstBy` — of the elements with one key only the first, in the order of the list.
* `sortOnce` — the elements in order, each **once**.
* `insertKeyed` — a finite map may be kept as the list of its values in the order of their keys, **one
  value for each key**.
* `total` — the sum of some numbers.
-/

namespace StLint

/-! ## Lists without repetition -/

/-- The first element with each key, in the order of the list. -/
def firstBy [DecidableEq κ] (key : α → κ) : List α → List α
  | [] => []
  | a :: as => a :: (firstBy key as).filter fun b => key b ≠ key a

/-- A sorted list with one more element, unless it is there already. -/
def insertOnce [DecidableEq α] (before : α → α → Bool) (a : α) : List α → List α
  | [] => [a]
  | b :: bs =>
    if a = b then b :: bs
    else if before a b then a :: b :: bs
    else b :: insertOnce before a bs

/-- The elements of a list, sorted and once. -/
def sortOnce [DecidableEq α] (before : α → α → Bool) (as : List α) : List α :=
  as.foldl (fun sorted a => insertOnce before a sorted) []

/-! ## Lists ordered by a key -/

/-- A list in the order of the keys with one more value, in place of one with the same key. -/
def insertKeyed [DecidableEq κ] (key : α → κ) (before : κ → κ → Bool) (a : α) : List α → List α
  | [] => [a]
  | b :: bs =>
    if key a = key b then a :: bs
    else if before (key a) (key b) then a :: b :: bs
    else b :: insertKeyed key before a bs

/-! ## Sums -/

/-- The sum of some numbers. -/
def total : List Nat → Nat
  | [] => 0
  | n :: ns => n + total ns

theorem total_cons (n : Nat) (ns : List Nat) : total (n :: ns) = n + total ns := rfl

/-- The sum of what each element of a list counts for. -/
def totalBy (count : α → Nat) (as : List α) : Nat := total (as.map count)

end StLint
