import Mathlib.Order.Bounds.Image
import StLint.Proofs.Text.Word

/-!
# Searches

A scanner that stops at the first place with a property answers **the least of these places**, or that
there is none. In bytes it is the least one, too: a later character has a greater offset.

* `IsLeftmost` — what it means to find the least place.
* `isLeftmost_find?_range` — a search through all positions.
* `byteOffset_mono`, `IsLeftmost.byteOffset` — positions as bytes.
* `IsWordAt`, `isLeftmost_findWord?` — the search for a word.
* `findWord?_append_of_isLeast`, `findWord?_blank_append` — what stands around the text.
-/

namespace StLint.Text

/-! ## The least place -/

/-- The answer of a search is the least of the places, or there is none. -/
def IsLeftmost (places : Set Nat) : Option Nat → Prop
  | some i => IsLeast places i
  | none => places = ∅

section IsLeftmost

variable {places : Set Nat} {found : Option Nat} {i : Nat}

theorem IsLeftmost.eq_none (h : IsLeftmost places found) (hnone : ∀ j, j ∉ places) : found = none := by
  cases found with
  | none => rfl
  | some k => exact absurd h.1 (hnone k)

/-- A search that has a place to find finds the least one. -/
theorem IsLeftmost.exists_eq_some (h : IsLeftmost places found) (hi : i ∈ places) :
    ∃ k, found = some k ∧ IsLeast places k := by
  cases found with
  | none => exact absurd hi (Set.eq_empty_iff_forall_notMem.mp h i)
  | some k => exact ⟨k, rfl, h⟩

theorem IsLeftmost.eq_some (h : IsLeftmost places found) (hi : IsLeast places i) :
    found = some i := by
  obtain ⟨k, hfound, hk⟩ := h.exists_eq_some hi.1
  rw [hfound, IsLeast.unique hk hi]

theorem IsLeftmost.unique {other : Option Nat} (h : IsLeftmost places found)
    (hother : IsLeftmost places other) : found = other := by
  cases other with
  | none => exact h.eq_none fun j => Set.eq_empty_iff_forall_notMem.mp hother j
  | some k => exact h.eq_some hother

end IsLeftmost

theorem find?_range_succ (p : Nat → Bool) (n : Nat) :
    (List.range (n + 1)).find? p
      = if p 0 then some 0 else ((List.range n).find? fun i => p (i + 1)).map (· + 1) := by
  rw [List.range_succ_eq_map, List.find?_cons, List.find?_map]
  cases p 0 <;> rfl

/-- A search through all positions finds the least one. -/
theorem isLeftmost_find?_range {n : Nat} {p : Nat → Bool} {places : Set Nat}
    (h : ∀ i, i ∈ places ↔ i < n ∧ p i = true) : IsLeftmost places ((List.range n).find? p) := by
  cases hfind : (List.range n).find? p with
  | none =>
      refine Set.eq_empty_iff_forall_notMem.mpr ?_
      intro i hi
      have hnone := List.find?_range_eq_none.mp hfind i ((h i).mp hi).1
      rw [((h i).mp hi).2] at hnone
      cases hnone
  | some i =>
      obtain ⟨hi, hmem, hbefore⟩ := List.find?_range_eq_some.mp hfind
      refine ⟨(h i).mpr ⟨List.mem_range.mp hmem, hi⟩, ?_⟩
      intro j hj
      by_contra hlt
      have hnone := hbefore j (Nat.lt_of_not_le hlt)
      rw [((h j).mp hj).2] at hnone
      cases hnone

/-! ## Bytes -/

theorem byteSize_append (s t : List Char) : byteSize (s ++ t) = byteSize s + byteSize t := by
  induction s with
  | nil => exact (Nat.zero_add _).symm
  | cons c r ih => rw [List.cons_append, byteSize, byteSize, ih, Nat.add_assoc]

theorem byteOffset_mono (s : List Char) : Monotone (byteOffset s) := by
  intro i j h
  obtain ⟨k, rfl⟩ := Nat.exists_eq_add_of_le h
  rw [byteOffset, byteOffset, List.take_add, byteSize_append]
  exact Nat.le_add_right ..

/-- **What is leftmost among the characters is so among the bytes.** -/
theorem IsLeftmost.byteOffset {places : Set Nat} {found : Option Nat} (h : IsLeftmost places found)
    (s : List Char) : IsLeftmost (byteOffset s '' places) (found.map (byteOffset s)) := by
  cases found with
  | none => exact Set.image_eq_empty.mpr h
  | some i => exact (byteOffset_mono s).map_isLeast h

/-! ## Words -/

/-- A word stands in a text, in some case, with no word character on either side. -/
structure IsWordAt (word : String) (s : List Char) (i : Nat) : Prop where
  spelled : upper ((s.drop i).take word.length) = upper word.toList
  before : (s.take i).getLast?.any isWordChar = false
  behind : (s.drop (i + word.length)).head?.any isWordChar = false

theorem wordAt_drop_iff {word : String} {s : List Char} {i : Nat} :
    wordAt word.toList (s.take i).getLast? (s.drop i) = true ↔ IsWordAt word s i := by
  rw [wordAt_iff]
  constructor
  · rintro ⟨t, rest, hs, ht, hbefore, hbehind⟩
    have hlength : t.length = word.length := by
      rw [length_eq_of_upper_eq ht, String.length_toList]
    refine ⟨?_, hbefore, ?_⟩
    · rw [hs, ← hlength, List.take_left, ht]
    · rw [← List.drop_drop, hs, ← hlength, List.drop_left]
      exact hbehind
  · rintro ⟨hspelled, hbefore, hbehind⟩
    refine ⟨_, _, (List.take_append_drop word.length _).symm, hspelled, hbefore, ?_⟩
    rw [List.drop_drop]
    exact hbehind

theorem findWordFrom?_eq_find? (word : List Char) (prev : Option Char) (s : List Char) :
    findWordFrom? word prev s
      = (List.range s.length).find? fun i =>
          wordAt word ((s.take i).getLast?.or prev) (s.drop i) := by
  induction s generalizing prev with
  | nil => rfl
  | cons c r ih =>
      rw [findWordFrom?, ih, List.length_cons, find?_range_succ]
      congr 3
      funext i
      show _ = wordAt word ((c :: r.take i).getLast?.or prev) (r.drop i)
      rw [List.getLast?_cons]
      cases (r.take i).getLast? <;> rfl

/-- **The search for a word** finds its first place. -/
theorem isLeftmost_findWord? {word : String} (hne : word.toList ≠ []) (s : List Char) :
    IsLeftmost {i | IsWordAt word s i} (findWord? word s) := by
  rw [findWord?, if_neg (fun h => hne (List.isEmpty_iff.mp h)), findWordFrom?_eq_find?]
  refine isLeftmost_find?_range ?_
  intro i
  rw [Option.or_none, wordAt_drop_iff]
  refine ⟨fun h => ⟨?_, h⟩, And.right⟩
  by_contra hle
  have hspelled := congrArg List.length h.spelled
  rw [List.drop_eq_nil_of_le (Nat.le_of_not_lt hle), List.take_nil, length_upper,
    length_upper] at hspelled
  exact hne (List.eq_nil_of_length_eq_zero hspelled.symm)

/-- A word stands inside its text. -/
theorem IsWordAt.add_length_le {word : String} {s : List Char} {i : Nat} (hne : word.toList ≠ [])
    (h : IsWordAt word s i) : i + word.length ≤ s.length := by
  have hpos : 0 < word.length := by
    rw [← String.length_toList]
    exact List.length_pos_iff.mpr hne
  have hspelled := congrArg List.length h.spelled
  rw [length_upper, length_upper, String.length_toList, List.length_take, List.length_drop] at hspelled
  omega

/-- **What stands behind a text** changes none of its words, unless it goes on with a word
    character. -/
theorem isWordAt_append_iff {word : String} {s r : List Char} {i : Nat} (hw : IsKeyword word.toList)
    (hr : r.head?.any isWordChar = false) (hi : i < s.length) :
    IsWordAt word (s ++ r) i ↔ IsWordAt word s i := by
  have hdrop : s.drop i ≠ [] := fun h => Nat.not_lt.mpr (List.drop_eq_nil_iff.mp h) hi
  rw [← wordAt_drop_iff, ← wordAt_drop_iff, List.take_append_of_le_length (Nat.le_of_lt hi),
    List.drop_append_of_le_length (Nat.le_of_lt hi), wordAt_append hw hdrop hr]

/-- **The first word of a text** is found, whatever stands behind the text. -/
theorem findWord?_append_of_isLeast {word : String} {s r : List Char} {i : Nat}
    (hw : IsKeyword word.toList) (hr : r.head?.any isWordChar = false)
    (hi : IsLeast {j | IsWordAt word s j} i) : findWord? word (s ++ r) = some i := by
  have hpos : 0 < word.length := by
    rw [← String.length_toList]
    exact List.length_pos_iff.mpr hw.1
  have hend := IsWordAt.add_length_le hw.1 hi.1
  have hleast : IsLeast {j | IsWordAt word (s ++ r) j} i := by
    refine ⟨(isWordAt_append_iff hw hr (by omega)).mpr hi.1, ?_⟩
    intro j hj
    by_cases hlt : j < s.length
    · exact hi.2 ((isWordAt_append_iff hw hr hlt).mp hj)
    · omega
  exact (isLeftmost_findWord? hw.1 (s ++ r)).eq_some hleast

/-- White space before a text moves its first word. -/
theorem findWord?_blank_append {word : String} {w s : List Char} (hw : IsKeyword word.toList)
    (hblank : ∀ c ∈ w, isBlank c = true) :
    findWord? word (w ++ s) = (findWord? word s).map (w.length + ·) := by
  have hne : ¬ word.toList.isEmpty = true := fun h => hw.1 (List.isEmpty_iff.mp h)
  rw [findWord?, findWord?, if_neg hne, if_neg hne]
  induction w with
  | nil => cases h : findWordFrom? word.toList none s <;> simp [h]
  | cons b w ih =>
      have hb := not_wordChar_of_blank (hblank b (List.mem_cons_self ..))
      have hprev : (some b).any isWordChar = (none : Option Char).any isWordChar := hb
      rw [List.cons_append, findWordFrom?, if_neg (not_wordAt_cons hw hb), findWordFrom?_congr _ hprev,
        ih fun c hc => hblank c (List.mem_cons_of_mem b hc), Option.map_map]
      refine Option.map_congr ?_
      intro i _
      show w.length + i + 1 = w.length + 1 + i
      omega

end StLint.Text
