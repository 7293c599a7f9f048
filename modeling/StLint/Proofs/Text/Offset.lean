import StLint.Proofs.Text.Cut
import StLint.Proofs.Text.Octet

/-!
# Offsets in bytes

A search over the octets of a text answers an offset in bytes, and a text is cut there **only if a
character begins there**. The searches for a word and for a phrase at top level, run on octets, answer
the offset of what they find in the text itself, so every cut that is made at such an offset succeeds.

* `wordOffset?`, `topLevelOffset?` — the searches over bytes.
* `wordOffset?_eq`, `topLevelOffset?_eq` — what they answer.
* `cutAt?`, `isSome_cutAt?_iff` — a cut at an offset, which fails inside a character.
* `IsSlice`, `IsSliceOf`, `IsWordSlice` — bytes of a text that are a text.
* `isLeftmost_isWordSlice` — the search for a word finds its first slice.
* `sides?_wordOffset?`, `sides?_topLevelOffset?` — **no cut around what was found fails**.
-/

namespace StLint.Text

/-! ## Words -/

/-- The octets of a word. -/
def octetString (word : String) : String := String.ofList (octets word.toList)

/-- The offset of the first occurrence of a word in the bytes of a text. -/
def wordOffset? (word : String) (s : List Char) : Option Nat :=
  findWord? (octetString word) (octets s)

theorem toList_octetString (word : String) : (octetString word).toList = octets word.toList :=
  String.toList_ofList

theorem length_octetString (word : String) : (octetString word).length = byteSize word.toList := by
  rw [← String.length_toList, toList_octetString, length_octets]

/-- A place of a word as a cut of the text. -/
theorem isWordAt_iff_cut {word : String} (hne : word.toList ≠ []) {s : List Char} {i : Nat} :
    IsWordAt word s i ↔ ∃ u t v, s = u ++ (t ++ v) ∧ u.length = i ∧ upper t = upper word.toList ∧
      u.getLast?.any isWordChar = false ∧ v.head?.any isWordChar = false := by
  constructor
  · intro h
    have hle := h.add_length_le hne
    refine ⟨s.take i, (s.drop i).take word.length, s.drop (i + word.length), ?_, ?_, h.spelled,
      h.before, h.behind⟩
    · rw [← List.drop_drop, List.take_append_drop, List.take_append_drop]
    · exact List.length_take_of_le (Nat.le_trans (Nat.le_add_right _ _) hle)
  · rintro ⟨u, t, v, rfl, rfl, ht, hbefore, hbehind⟩
    have hlength : t.length = word.length := by
      rw [length_eq_of_upper_eq ht, String.length_toList]
    refine ⟨?_, ?_, ?_⟩
    · rw [List.drop_left, ← hlength, List.take_left, ht]
    · rwa [List.take_left]
    · rwa [← List.drop_drop, List.drop_left, ← hlength, List.drop_left]

/-- What a text ends with is a word character if its last octet is. -/
theorem any_getLast?_octets (s : List Char) :
    (octets s).getLast?.any isWordChar = s.getLast?.any isWordChar := by
  rcases List.eq_nil_or_concat s with rfl | ⟨u, c, rfl⟩
  · rfl
  · rw [List.concat_eq_append, List.getLast?_concat, octets_append]
    by_cases hc : c.toNat < 128
    · rw [octets_ascii hc, List.getLast?_concat]
    · rw [Nat.not_lt] at hc
      obtain ⟨x, o, hx⟩ := (List.eq_nil_or_concat (octets [c])).resolve_left
        (octets_ne_nil (List.cons_ne_nil c []))
      rw [List.concat_eq_append] at hx
      have ho : o ∈ octets [c] := hx ▸ List.mem_append_right x (List.mem_singleton_self o)
      rw [hx, ← List.append_assoc, List.getLast?_concat]
      show isWordChar o = isWordChar c
      rw [not_wordChar_of_le (le_of_mem_octets hc ho), not_wordChar_of_le hc]

/-- What a text begins with is a word character if its first octet is. -/
theorem any_head?_octets (s : List Char) :
    (octets s).head?.any isWordChar = s.head?.any isWordChar := by
  cases s with
  | nil => rfl
  | cons c r =>
      rw [octets_cons]
      by_cases hc : c.toNat < 128
      · rw [octets_ascii hc]
        rfl
      · rw [Nat.not_lt] at hc
        obtain ⟨o, x, hx⟩ := List.exists_cons_of_ne_nil (octets_ne_nil (List.cons_ne_nil c []))
        have ho : o ∈ octets [c] := hx ▸ List.mem_cons_self ..
        rw [hx]
        show isWordChar o = isWordChar c
        rw [not_wordChar_of_le (le_of_mem_octets hc ho), not_wordChar_of_le hc]

/-- Where the octets of a word stand in some case, the word stands in some case. -/
theorem exists_cut_of_upper_octets {w s x y z : List Char} (hne : w ≠ [])
    (h : octets s = x ++ (y ++ z)) (hy : upper y = upper (octets w)) :
    ∃ u t v, s = u ++ (t ++ v) ∧ upper t = upper w ∧ octets u = x ∧ octets v = z := by
  have hupper : octets (upper s) = upper x ++ (octets (upper w) ++ upper z) := by
    rw [← upper_octets, h, upper_append, upper_append, hy, upper_octets]
  have hprefix : octets (upper w) <+: (octets (upper s)).drop x.length := by
    rw [hupper, ← length_upper x, List.drop_left]
    exact List.prefix_append _ _
  obtain ⟨a, b, hs, ha⟩ := prefix_drop_octets (fun hnil => hne (List.map_eq_nil_iff.mp hnil)) hprefix
  obtain ⟨u, r, rfl, hu, hr⟩ := List.map_eq_append_iff.mp hs
  obtain ⟨t, v, rfl, ht, -⟩ := List.map_eq_append_iff.mp hr
  have hsize : byteSize u = x.length := by
    rw [← byteSize_upper, ← ha]
    exact congrArg byteSize hu
  have hlength : byteSize t = y.length := by
    rw [byteSize_eq_of_upper_eq (show upper t = upper w from ht), ← length_octets, ← length_upper, ← hy,
      length_upper]
  rw [octets_append] at h
  obtain ⟨hx, hrest⟩ := List.append_inj h (by rw [length_octets, hsize])
  rw [octets_append] at hrest
  obtain ⟨-, hz⟩ := List.append_inj hrest (by rw [length_octets, hlength])
  exact ⟨u, t, v, rfl, ht, hx, hz⟩

/-- **The words among the octets** of a text are those of the text. -/
theorem isWordAt_octets_iff {word : String} (hne : word.toList ≠ []) {s : List Char} {p : Nat} :
    IsWordAt (octetString word) (octets s) p ↔ ∃ i, IsWordAt word s i ∧ byteOffset s i = p := by
  have hoctets : (octetString word).toList ≠ [] := by
    rw [toList_octetString]
    exact octets_ne_nil hne
  rw [isWordAt_iff_cut hoctets, toList_octetString]
  constructor
  · rintro ⟨x, y, z, hs, rfl, hy, hbefore, hbehind⟩
    obtain ⟨u, t, v, rfl, ht, rfl, rfl⟩ := exists_cut_of_upper_octets hne hs hy
    rw [any_getLast?_octets] at hbefore
    rw [any_head?_octets] at hbehind
    refine ⟨u.length, (isWordAt_iff_cut hne).mpr ⟨u, t, v, rfl, rfl, ht, hbefore, hbehind⟩, ?_⟩
    rw [byteOffset, List.take_left, length_octets]
  · rintro ⟨i, hi, rfl⟩
    obtain ⟨u, t, v, rfl, rfl, ht, hbefore, hbehind⟩ := (isWordAt_iff_cut hne).mp hi
    refine ⟨octets u, octets t, octets v, ?_, ?_, ?_, ?_, ?_⟩
    · rw [octets_append, octets_append]
    · rw [byteOffset, List.take_left, length_octets]
    · rw [upper_octets, ht, ← upper_octets]
    · rwa [any_getLast?_octets]
    · rwa [any_head?_octets]

/-- **The search for a word over bytes** finds the first place of the word. -/
theorem isLeftmost_wordOffset? {word : String} (hne : word.toList ≠ []) (s : List Char) :
    IsLeftmost {p | IsWordAt (octetString word) (octets s) p} (wordOffset? word s) := by
  refine isLeftmost_findWord? ?_ (octets s)
  rw [toList_octetString]
  exact octets_ne_nil hne

/-- It answers the offset of what the search over characters finds. -/
theorem wordOffset?_eq {word : String} (hne : word.toList ≠ []) (s : List Char) :
    wordOffset? word s = (findWord? word s).map (byteOffset s) := by
  have hplaces : {p | IsWordAt (octetString word) (octets s) p}
      = byteOffset s '' {i | IsWordAt word s i} := by
    ext p
    exact isWordAt_octets_iff hne
  have hbytes := isLeftmost_wordOffset? hne s
  rw [hplaces] at hbytes
  exact hbytes.unique ((isLeftmost_findWord? hne s).byteOffset s)

theorem length_le_byteSize (s : List Char) : s.length ≤ byteSize s := by
  induction s with
  | nil => exact Nat.le_refl 0
  | cons c r ih =>
      have hpos := c.utf8Size_pos
      rw [List.length_cons, byteSize]
      omega

/-- Only the first character has offset zero. -/
theorem eq_zero_of_byteOffset {s : List Char} {i : Nat} (hi : i ≤ s.length) (h : byteOffset s i = 0) :
    i = 0 := by
  have hle := length_le_byteSize (s.take i)
  rw [List.length_take_of_le hi] at hle
  exact Nat.eq_zero_of_le_zero (Nat.le_trans hle (Nat.le_of_eq h))

/-- **A line leads with a keyword** if the search over bytes finds it at the first byte. -/
theorem wordOffset?_eq_zero_iff {keyword : String} (hne : keyword.toList ≠ []) (line : List Char) :
    wordOffset? keyword (trimStart line) = some 0 ↔ startsWithKeyword keyword line = true := by
  have hnonempty : (!keyword.toList.isEmpty) = true := by
    rw [Bool.not_eq_true', List.isEmpty_eq_false_iff]
    exact hne
  rw [startsWithKeyword, hnonempty, Bool.true_and,
    show wordAt keyword.toList none (trimStart line) = true ↔ IsWordAt keyword (trimStart line) 0
      from @wordAt_drop_iff keyword (trimStart line) 0]
  have hleftmost := isLeftmost_wordOffset? hne (trimStart line)
  constructor
  · intro h
    rw [h] at hleftmost
    obtain ⟨i, hi, hzero⟩ := (isWordAt_octets_iff hne).mp hleftmost.1
    obtain rfl := eq_zero_of_byteOffset
      (Nat.le_trans (Nat.le_add_right _ _) (hi.add_length_le hne)) hzero
    exact hi
  · intro h
    refine hleftmost.eq_some ⟨(isWordAt_octets_iff hne).mpr ⟨0, h, rfl⟩, ?_⟩
    intro p _
    exact Nat.zero_le p

/-! ## Phrases at top level -/

/-- The offset of the first occurrence of a phrase outside brackets and strings in the bytes of a
    text. -/
def topLevelOffset? (phrase : String) (s : List Char) : Option Nat :=
  findTopLevel? (octetString phrase) (octets s)

/-- The octets of a character: itself, or one outside ASCII, and continuations. -/
theorem exists_octets_eq_cons (c : Char) :
    ∃ o r, octets [c] = o :: r ∧ (∀ d ∈ r, isContinuation d = true) ∧
      (o = c ∨ (128 ≤ c.toNat ∧ 128 ≤ o.toNat)) := by
  by_cases hc : c.toNat < 128
  · exact ⟨c, [], octets_ascii hc, List.forall_mem_nil _, Or.inl rfl⟩
  · rw [Nat.not_lt] at hc
    obtain ⟨o, r, heq, ho, hr⟩ := octets_of_le hc
    exact ⟨o, r, heq, hr, Or.inr ⟨hc, Nat.le_trans (by decide) ho⟩⟩

/-- A character outside ASCII opens and closes nothing. -/
theorem isFlat_of_le {c : Char} (h : 128 ≤ c.toNat) : isFlat c = true :=
  isFlat_of_class (p := fun c => 128 ≤ c.toNat) (by decide) (decide_eq_true h)

namespace Nesting

/-- Only a quote is ever open. -/
def HasQuote (n : Nesting) : Prop := n.quote.all isQuote = true

variable {n : Nesting}

theorem hasQuote_start : start.HasQuote := Eq.refl true

theorem HasQuote.step (h : n.HasQuote) (c : Char) : (n.step c).HasQuote := by
  obtain ⟨quote, depth⟩ := n
  cases quote with
  | none =>
      show (if isQuote c then some c else none).all isQuote = true
      by_cases hc : isQuote c = true
      · rw [if_pos hc]
        exact hc
      · rw [if_neg hc]
        rfl
  | some q =>
      show (if c = q then none else some q).all isQuote = true
      by_cases hc : c = q
      · rw [if_pos hc]
        rfl
      · rw [if_neg hc]
        exact h

/-- **A flat character changes nothing**, inside strings and outside. -/
theorem HasQuote.step_of_isFlat (h : n.HasQuote) {c : Char} (hc : isFlat c = true) : n.step c = n := by
  obtain ⟨quote, depth⟩ := n
  cases quote with
  | none => exact Text.step_of_isFlat hc depth
  | some q =>
      have hne : c ≠ q := by
        rintro rfl
        have hq : isQuote c = true := h
        rw [isFlat, hq] at hc
        cases hc
      rw [Nesting.step, stepQuote, if_neg hne, if_pos (Option.isSome_some)]

theorem HasQuote.after_of_isFlat (h : n.HasQuote) {s : List Char} (hs : ∀ c ∈ s, isFlat c = true) :
    n.after s = n := by
  induction s with
  | nil => rfl
  | cons c r ih =>
      obtain ⟨hc, hr⟩ := List.forall_mem_cons.mp hs
      show (n.step c).after r = n
      rw [h.step_of_isFlat hc, ih hr]

/-- **The octets of a character** leave the state in which the character leaves it. -/
theorem HasQuote.after_octets (h : n.HasQuote) (c : Char) : n.after (octets [c]) = n.step c := by
  by_cases hc : c.toNat < 128
  · rw [octets_ascii hc]
    rfl
  · rw [Nat.not_lt] at hc
    rw [h.after_of_isFlat fun o ho => isFlat_of_le (le_of_mem_octets hc ho),
      h.step_of_isFlat (isFlat_of_le hc)]

/-- Flat characters are free in the same states. -/
theorem isFree_congr {c d : Char} (hc : isFlat c = true) (hd : isFlat d = true) :
    n.isFree c = n.isFree d := by
  simp only [isFlat, Bool.and_eq_true, Bool.not_eq_true'] at hc hd
  rw [isFree, isFree, hc.1.1, hc.1.2, hc.2, hd.1.1, hd.1.2, hd.2]

end Nesting

/-- A phrase is found among the octets where it is found in the text. -/
theorem findTopLevelFrom?_octets {w : List Char} (hne : w ≠ []) {n : Nesting} (hn : n.HasQuote)
    (s : List Char) :
    findTopLevelFrom? (octets w) n (octets s) = (findTopLevelFrom? w n s).map (byteOffset s) := by
  induction s generalizing n with
  | nil => rfl
  | cons c r ih =>
      obtain ⟨o, rest, hc, hrest, hform⟩ := exists_octets_eq_cons c
      obtain ⟨f, w', hw⟩ := List.exists_cons_of_ne_nil (octets_ne_nil hne)
      have hfree : n.isFree o = n.isFree c := by
        rcases hform with rfl | ⟨hle, hle'⟩
        · rfl
        · exact Nesting.isFree_congr (isFlat_of_le hle') (isFlat_of_le hle)
      have hprefix : (octets w).isPrefixOf (octets (c :: r)) = w.isPrefixOf (c :: r) := by
        rw [Bool.eq_iff_iff, List.isPrefixOf_iff_prefix, List.isPrefixOf_iff_prefix, octets_prefix_iff]
      -- no octet inside a character begins the phrase
      have hnot : f ∉ rest := by
        intro hmem
        have hhead := head?_octets w
        rw [hw] at hhead
        exact absurd (hrest f hmem) (Bool.eq_false_iff.mp hhead)
      have hcons : octets (c :: r) = o :: (rest ++ octets r) := by
        rw [octets_cons, hc]
        rfl
      have hafter : (n.step o).after rest = n.step c := by
        rw [← hn.after_octets c, hc]
        rfl
      rw [hcons] at hprefix ⊢
      rw [findTopLevelFrom?, findTopLevelFrom?, hfree, hprefix]
      by_cases hfound : (n.isFree c && w.isPrefixOf (c :: r)) = true
      · rw [if_pos hfound, if_pos hfound]
        rfl
      · rw [if_neg hfound, if_neg hfound, hw, findTopLevelFrom?_append_of_not_mem hnot, hafter, ← hw,
          ih (hn.step c), Option.map_map, Option.map_map, Option.map_map]
        refine Option.map_congr ?_
        intro i _
        have hsize : rest.length + 1 = byteSize [c] := by
          rw [← length_octets, hc]
          rfl
        show rest.length + byteOffset r i + 1 = byteSize ([c] ++ r.take i)
        rw [byteSize_append, ← hsize, byteOffset]
        omega

/-- **The search at top level over bytes** answers the offset of what is found in the text. -/
theorem topLevelOffset?_eq {phrase : String} (hne : phrase.toList ≠ []) (s : List Char) :
    topLevelOffset? phrase s = (findTopLevel? phrase s).map (byteOffset s) := by
  rw [topLevelOffset?, findTopLevel?, findTopLevel?, toList_octetString]
  exact findTopLevelFrom?_octets hne Nesting.hasQuote_start s

/-! ## Cuts -/

/-- The two sides of a cut at an offset in bytes. There is none behind the end of the text or inside a
    character. -/
def cutAt? : Nat → List Char → Option (List Char × List Char)
  | 0, s => some ([], s)
  | _ + 1, [] => none
  | p + 1, c :: r =>
    if p + 1 < c.utf8Size then none
    else (cutAt? (p + 1 - c.utf8Size) r).map fun (before, behind) => (c :: before, behind)

/-- **A cut loses nothing**, and there is one at every offset of a character. -/
theorem cutAt?_eq_some_iff {p : Nat} {s u v : List Char} :
    cutAt? p s = some (u, v) ↔ s = u ++ v ∧ byteSize u = p := by
  constructor
  · intro h
    induction s generalizing p u with
    | nil =>
        cases p with
        | zero =>
            obtain ⟨rfl, rfl⟩ := Prod.mk.inj (Option.some.inj h)
            exact ⟨rfl, rfl⟩
        | succ p => cases h
    | cons c r ih =>
        cases p with
        | zero =>
            obtain ⟨rfl, rfl⟩ := Prod.mk.inj (Option.some.inj h)
            exact ⟨rfl, rfl⟩
        | succ p =>
            rw [cutAt?] at h
            by_cases hlt : p + 1 < c.utf8Size
            · rw [if_pos hlt] at h
              cases h
            · rw [if_neg hlt] at h
              obtain ⟨⟨before, behind⟩, hcut, heq⟩ := Option.map_eq_some_iff.mp h
              obtain ⟨rfl, rfl⟩ := Prod.mk.inj heq
              obtain ⟨rfl, hsize⟩ := ih hcut
              refine ⟨rfl, ?_⟩
              rw [byteSize, hsize]
              omega
  · rintro ⟨rfl, rfl⟩
    induction u with
    | nil => rw [List.nil_append, byteSize, cutAt?]
    | cons c u ih =>
        obtain ⟨n, hn⟩ := Nat.exists_eq_add_of_lt c.utf8Size_pos
        rw [byteSize, show c.utf8Size + byteSize u = 0 + n + byteSize u + 1 by omega, List.cons_append,
          cutAt?, if_neg (by omega), show 0 + n + byteSize u + 1 - c.utf8Size = byteSize u by omega, ih]
        rfl

/-- **A text can be cut at its boundaries** and nowhere else. -/
theorem isSome_cutAt?_iff {p : Nat} {s : List Char} : (cutAt? p s).isSome = true ↔ IsBoundary s p := by
  rw [isBoundary_iff, Option.isSome_iff_exists]
  constructor
  · rintro ⟨⟨u, v⟩, h⟩
    exact ⟨u, v, cutAt?_eq_some_iff.mp h⟩
  · rintro ⟨u, v, h⟩
    exact ⟨(u, v), cutAt?_eq_some_iff.mpr h⟩

/-- Bytes of a text that are a text: they lie inside it, between two boundaries. -/
structure IsSlice (s : List Char) (p n : Nat) : Prop where
  inside : p + n ≤ byteSize s
  start : IsBoundary s p
  stop : IsBoundary s (p + n)

theorem isSlice_append (u t v : List Char) : IsSlice (u ++ (t ++ v)) (byteSize u) (byteSize t) := by
  have hstop : IsBoundary (u ++ (t ++ v)) (byteSize u + byteSize t) :=
    isBoundary_iff.mpr ⟨u ++ t, v, (List.append_assoc u t v).symm, byteSize_append u t⟩
  exact ⟨hstop.1, isBoundary_iff.mpr ⟨u, t ++ v, rfl, rfl⟩, hstop⟩

/-- The `n` bytes of a text from an offset on. -/
def octetsAt (s : List Char) (p n : Nat) : List Char := ((octets s).drop p).take n

/-- The bytes of `w` stand in a text, in some case, and they are a slice of it. -/
structure IsSliceOf (w s : List Char) (p : Nat) : Prop where
  slice : IsSlice s p (byteSize w)
  spelled : upper (octetsAt s p (byteSize w)) = upper (octets w)

/-- They stand there with no byte of an identifier on either side. -/
structure IsWordSlice (w s : List Char) (p : Nat) : Prop extends IsSliceOf w s p where
  before : ((octets s).take p).getLast?.any isWordChar = false
  behind : ((octets s).drop (p + byteSize w)).head?.any isWordChar = false

/-- The text before an offset, and the text behind the `n` bytes from there on. -/
def cutAround? (p n : Nat) (s : List Char) : Option (List Char × List Char) :=
  (cutAt? p s).bind fun left => (cutAt? (p + n) s).map fun right => (left.1, right.2)

/-- What stands in some case is cut out. -/
theorem cutAround?_append {t w : List Char} (h : upper t = upper w) (u v : List Char) :
    cutAround? (byteSize u) (byteSize w) (u ++ (t ++ v)) = some (u, v) := by
  have hleft : cutAt? (byteSize u) (u ++ (t ++ v)) = some (u, t ++ v) :=
    cutAt?_eq_some_iff.mpr ⟨rfl, rfl⟩
  have hright : cutAt? (byteSize u + byteSize w) (u ++ (t ++ v)) = some (u ++ t, v) := by
    refine cutAt?_eq_some_iff.mpr ⟨(List.append_assoc u t v).symm, ?_⟩
    rw [byteSize_append, byteSize_eq_of_upper_eq h]
  rw [cutAround?, hleft, Option.bind_some, hright]
  rfl

/-! ## What is found -/

/-- A text stands in another one, in some case. -/
def Stands (w s : List Char) (i : Nat) : Prop := ∃ t v, s.drop i = t ++ v ∧ upper t = upper w

section Stands

variable {w s : List Char} {i : Nat}

theorem Stands.exists_cut (h : Stands w s i) (hne : w ≠ []) :
    ∃ u t v, s = u ++ (t ++ v) ∧ u.length = i ∧ upper t = upper w := by
  obtain ⟨t, v, hdrop, ht⟩ := h
  refine ⟨s.take i, t, v, ?_, ?_, ht⟩
  · rw [← hdrop, List.take_append_drop]
  · refine List.length_take_of_le (Nat.le_of_not_lt ?_)
    intro hlt
    rw [List.drop_eq_nil_of_le (Nat.le_of_lt hlt)] at hdrop
    rw [(List.append_eq_nil_iff.mp hdrop.symm).1] at ht
    exact hne (List.map_eq_nil_iff.mp ht.symm)

/-- **What stands in a text is a slice of it.** -/
theorem Stands.isSliceOf (h : Stands w s i) (hne : w ≠ []) : IsSliceOf w s (byteOffset s i) := by
  obtain ⟨u, t, v, rfl, rfl, ht⟩ := h.exists_cut hne
  rw [byteOffset, List.take_left]
  refine ⟨?_, ?_⟩
  · rw [← byteSize_eq_of_upper_eq ht]
    exact isSlice_append u t v
  · rw [octetsAt, drop_octets_append, ← byteSize_eq_of_upper_eq ht, take_octets_append, upper_octets, ht,
      ← upper_octets]

/-- It is cut out at its offset. -/
theorem Stands.cutAround?_eq (h : Stands w s i) (hne : w ≠ []) :
    cutAround? (byteOffset s i) (byteSize w) s = some (s.take i, s.drop (i + w.length)) := by
  obtain ⟨u, t, v, rfl, rfl, ht⟩ := h.exists_cut hne
  rw [byteOffset, List.take_left, cutAround?_append ht, ← List.drop_drop, List.drop_left,
    ← length_eq_of_upper_eq ht, List.drop_left]

end Stands

theorem stands_of_findWord? {word : String} (hne : word.toList ≠ []) {s : List Char} {i : Nat}
    (h : findWord? word s = some i) : Stands word.toList s i := by
  have hfound := isLeftmost_findWord? hne s
  rw [h] at hfound
  exact ⟨_, _, (List.take_append_drop word.length _).symm, hfound.1.spelled⟩

/-- **The search for a word over bytes** finds its first slice. -/
theorem isLeftmost_isWordSlice {word : String} (hne : word.toList ≠ []) (s : List Char) :
    IsLeftmost {p | IsWordSlice word.toList s p} (wordOffset? word s) := by
  have hplaces : {p | IsWordSlice word.toList s p} = {p | IsWordAt (octetString word) (octets s) p} := by
    ext p
    show IsWordSlice _ s p ↔ IsWordAt _ _ p
    constructor
    · rintro ⟨⟨-, hspelled⟩, hbefore, hbehind⟩
      refine ⟨?_, hbefore, ?_⟩
      · rw [length_octetString, toList_octetString]
        exact hspelled
      · rw [length_octetString]
        exact hbehind
    · intro h
      obtain ⟨i, hi, rfl⟩ := (isWordAt_octets_iff hne).mp h
      refine ⟨Stands.isSliceOf ⟨_, _, (List.take_append_drop word.length _).symm, hi.spelled⟩ hne,
        h.before, ?_⟩
      rw [← length_octetString]
      exact h.behind
  rw [hplaces]
  exact isLeftmost_wordOffset? hne s

/-- What stands as it is written is there byte for byte. -/
theorem octetsAt_of_prefix {w s : List Char} {i : Nat} (h : w <+: s.drop i) :
    octetsAt s (byteOffset s i) (byteSize w) = octets w := by
  obtain ⟨v, hv⟩ := h
  have hdrop := drop_octets_append (s.take i) (s.drop i)
  rw [List.take_append_drop] at hdrop
  rw [octetsAt, byteOffset, hdrop, ← hv, take_octets_append]

theorem stands_of_findTopLevel? {phrase : String} {s : List Char} {i : Nat}
    (h : findTopLevel? phrase s = some i) : Stands phrase.toList s i := by
  obtain ⟨v, hv⟩ := findTopLevelFrom?_eq_some h
  exact ⟨phrase.toList, v, hv.symm, rfl⟩

/-- The text on either side of what a search found, where the search answered `offset?`. Nothing is cut
    where nothing was found. -/
def sides? (offset? : Option Nat) (w s : List Char) : Option (Option (List Char × List Char)) :=
  match offset? with
  | none => some none
  | some p => (cutAround? p (byteSize w) s).map some

/-- **A text is cut around what was found in it.** -/
theorem sides?_eq {w s : List Char} {found : Option Nat} (hne : w ≠ [])
    (h : ∀ i, found = some i → Stands w s i) :
    sides? (found.map (byteOffset s)) w s
      = some (found.map fun i => (s.take i, s.drop (i + w.length))) := by
  cases found with
  | none => rfl
  | some i =>
      show (cutAround? (byteOffset s i) (byteSize w) s).map some = _
      rw [(h i rfl).cutAround?_eq hne]
      rfl

theorem sides?_wordOffset? {word : String} (hne : word.toList ≠ []) (s : List Char) :
    sides? (wordOffset? word s) word.toList s
      = some ((findWord? word s).map fun i => (s.take i, s.drop (i + word.length))) := by
  rw [wordOffset?_eq hne, sides?_eq hne fun i => stands_of_findWord? hne, String.length_toList]

theorem sides?_topLevelOffset? {phrase : String} (hne : phrase.toList ≠ []) (s : List Char) :
    sides? (topLevelOffset? phrase s) phrase.toList s = some (cutTopLevel? phrase s) := by
  rw [topLevelOffset?_eq hne, sides?_eq hne fun i => stands_of_findTopLevel?, String.length_toList]
  rfl

end StLint.Text
