import StLint.Proofs.Check.LineEnd

/-!
# Accesses inside the index of another

Behind an access the search for accesses goes on after its bracket, so what stands inside the bracket is not
searched. **An access is found exactly if no index is open where it begins**.

* `Access.Leads` — an access at the start of a text; `takeAccess?_eq_some_iff`.
* `EndsInNoName`, `IsInsideIndex` — what stands before an access.
* `mem_accesses_iff` — the accesses that are found in a text.
-/

namespace StLint.Check.Indexing

open Text

variable {a b : Access} {s t w before later after rest : List Char} {d : Char}

/-! ## An access at the start of a text -/

/-- **An access leads a text**: a name, white space, and in brackets an index that is not empty. -/
def Access.Leads (a : Access) (s after : List Char) : Prop :=
  isIdentifier a.name = true ∧ ∃ gap index, (∀ c ∈ gap, isBlank c = true) ∧ index ≠ [] ∧ ']' ∉ index ∧
    a.index = trim index ∧ s = a.name ++ (gap ++ '[' :: (index ++ ']' :: after))

/-- A word ends before white space and a bracket. -/
theorem head?_gap {gap : List Char} (hgap : ∀ c ∈ gap, isBlank c = true) (s : List Char) :
    (gap ++ '[' :: s).head?.any isWordChar = false := by
  by_cases hnil : gap = []
  · rw [hnil]
    rfl
  · rw [any_head?_append _ hnil]
    exact not_wordChar_head?_of_blank hgap

theorem takeIndex?_eq_some_iff {name : List Char} :
    takeIndex? name s = some (a, rest) ↔
      ∃ index, index ≠ [] ∧ ']' ∉ index ∧ a = ⟨name, trim index⟩ ∧ s = index ++ ']' :: rest := by
  constructor
  · intro h
    rw [takeIndex?] at h
    split at h
    · cases h
    · next d r hd =>
        obtain rfl := eq_of_dropWhile_ne hd
        dsimp only at h
        split at h
        · cases h
        · next hne =>
            obtain ⟨rfl, rfl⟩ := Prod.mk.inj (Option.some.inj h)
            refine ⟨s.takeWhile (· ≠ ']'), fun hnil => hne (List.isEmpty_iff.mpr hnil), ?_, rfl, ?_⟩
            · intro hmem
              exact absurd (List.mem_takeWhile_imp hmem) (by decide)
            · rw [← hd, List.takeWhile_append_dropWhile]
  · rintro ⟨index, hne, hbracket, rfl, rfl⟩
    rw [takeIndex?, dropWhile_ne_append hbracket]
    dsimp only
    rw [takeWhile_ne_append hbracket, if_neg (fun h => hne (List.isEmpty_iff.mp h))]

/-- A text begins with a name if its first character may begin one. -/
theorem isIdentifier_leadingWord (h : (s.head?.any fun c => isLetter c || c = '_') = true) :
    isIdentifier (leadingWord s) = true := by
  cases s with
  | nil => cases h
  | cons c r =>
      rw [List.head?_cons, Option.any_some] at h
      have hword : isWordChar c = true := by
        rw [isWordChar, Bool.or_right_comm, h, Bool.true_or]
      rw [leadingWord, List.takeWhile_cons_of_pos hword, isIdentifier, h, Bool.true_and, List.all_eq_true]
      exact fun d hd => List.mem_takeWhile_imp hd

theorem head?_of_isIdentifier (h : isIdentifier w = true) (s : List Char) :
    ((w ++ s).head?.any fun c => isLetter c || c = '_') = true := by
  cases w with
  | nil => cases h
  | cons c r => exact (Bool.and_eq_true_iff.mp h).1

/-- **An access is taken from a text** that it leads. -/
theorem takeAccess?_eq_some_iff : takeAccess? s = some (a, rest) ↔ a.Leads s rest := by
  have hparts : leadingWord s ++ s.dropWhile isWordChar = s := List.takeWhile_append_dropWhile
  constructor
  · intro h
    rw [takeAccess?] at h
    split at h
    · next hhead =>
        split at h
        · cases h
        · next c r hr =>
            split at h
            · next hc =>
                obtain rfl := hc
                obtain ⟨index, hne, hbracket, rfl, rfl⟩ := takeIndex?_eq_some_iff.mp h
                obtain ⟨gap, hgap, hrest⟩ := exists_append_trimStart (s.dropWhile isWordChar)
                refine ⟨isIdentifier_leadingWord hhead, gap, index, hgap, hne, hbracket, rfl, ?_⟩
                rw [← hr, hrest, hparts]
            · cases h
    · cases h
  · rintro ⟨hname, gap, index, hgap, hne, hbracket, hindex, rfl⟩
    have hword := leadingWord_append (wordChar_of_identifier hname).2
      (head?_gap hgap (index ++ ']' :: rest))
    rw [hword] at hparts
    rw [takeAccess?, if_pos (head?_of_isIdentifier hname _), List.append_cancel_left hparts,
      trimStart_append_of_blank hgap, trimStart_of_not_blank (by decide)]
    dsimp only
    rw [if_pos rfl, hword]
    exact takeIndex?_eq_some_iff.mpr ⟨index, hne, hbracket, by rw [← hindex], rfl⟩

/-! ## What stands before an access -/

/-- No name ends with the text. -/
def EndsInNoName (s : List Char) : Prop := ∀ w, w <:+ s → isIdentifier w = false

/-- A text opens an index and leaves it open. -/
def OpensIndex (s : List Char) : Prop :=
  ∃ w gap q, isIdentifier w = true ∧ (∀ c ∈ gap, isBlank c = true) ∧ ']' ∉ q ∧ s = w ++ (gap ++ '[' :: q)

/-- **The index of an access is still open** behind a text. -/
def IsInsideIndex (before : List Char) : Prop := ∃ s, s <:+ before ∧ OpensIndex s

/-- **An access is written behind a text**: it leads what follows there, and its name begins there. -/
def IsWrittenBehind (before : List Char) (a : Access) (s : List Char) : Prop :=
  EndsInNoName before ∧ ∃ later after, s = before ++ later ∧ a.Leads later after

theorem bracket_not_mem_of_isIdentifier (h : isIdentifier w = true) : ']' ∉ w := by
  intro hmem
  exact absurd ((wordChar_of_identifier h).2 _ hmem) (by decide)

theorem bracket_not_mem_of_opensIndex (h : OpensIndex s) : ']' ∉ s := by
  obtain ⟨w, gap, q, hw, hgap, hq, rfl⟩ := h
  intro hmem
  rcases List.mem_append.mp hmem with hmem | hmem
  · exact bracket_not_mem_of_isIdentifier hw hmem
  · rcases List.mem_append.mp hmem with hmem | hmem
    · exact absurd (hgap _ hmem) (by decide)
    · exact hq ((List.mem_cons.mp hmem).resolve_left (by decide))

/-- A text that is cut in two ways, once at a character: the other cut is before it or behind it. -/
theorem exists_of_append_eq_append_cons (h : before ++ later = s ++ d :: t) :
    (∃ y, s = before ++ y ∧ later = y ++ d :: t) ∨ ∃ z, before = s ++ d :: z ∧ t = z ++ later := by
  rcases List.append_eq_append_iff.mp h with ⟨y, hs, hlater⟩ | ⟨z, hbefore, ht⟩
  · exact Or.inl ⟨y, hs, hlater⟩
  · cases z with
    | nil => exact Or.inl ⟨[], by rw [hbefore, List.append_nil, List.append_nil], ht.symm⟩
    | cons c z =>
        obtain ⟨rfl, rfl⟩ := List.cons.inj ht
        exact Or.inr ⟨z, hbefore, rfl⟩

/-- What ends a text without a character begins behind its last place. -/
theorem suffix_of_suffix_append_cons (hd : d ∉ w) (h : w <:+ s ++ d :: t) : w <:+ t := by
  obtain ⟨p, hp⟩ := h
  rcases exists_of_append_eq_append_cons hp with ⟨y, -, rfl⟩ | ⟨z, -, rfl⟩
  · exact absurd (List.mem_append_right y (List.mem_cons_self ..)) hd
  · exact List.suffix_append z w

/-- **A closing bracket** ends a name and an index. -/
theorem endsInNoName_append_iff : EndsInNoName (s ++ ']' :: t) ↔ EndsInNoName t := by
  constructor
  · exact fun h w hw => h w (hw.trans ((List.suffix_cons ..).trans (List.suffix_append ..)))
  · intro h w hw
    by_contra hname
    rw [Bool.not_eq_false] at hname
    have hfree := bracket_not_mem_of_isIdentifier hname
    rw [h w (suffix_of_suffix_append_cons hfree hw)] at hname
    cases hname

theorem isInsideIndex_append_iff : IsInsideIndex (s ++ ']' :: t) ↔ IsInsideIndex t := by
  constructor
  · rintro ⟨x, hx, hopens⟩
    exact ⟨x, suffix_of_suffix_append_cons (bracket_not_mem_of_opensIndex hopens) hx, hopens⟩
  · rintro ⟨x, hx, hopens⟩
    exact ⟨x, hx.trans ((List.suffix_cons ..).trans (List.suffix_append ..)), hopens⟩

theorem isWrittenBehind_append_iff :
    IsWrittenBehind (s ++ ']' :: before) a (s ++ ']' :: t) ↔ IsWrittenBehind before a t := by
  refine and_congr endsInNoName_append_iff (exists_congr fun later => exists_congr fun after => ?_)
  rw [List.append_assoc, List.cons_append, List.append_cancel_left_eq, List.cons.injEq, and_iff_right rfl]

theorem not_isWrittenBehind_nil : ¬ IsWrittenBehind before a [] := by
  rintro ⟨-, later, after, hs, hname, gap, index, -, -, -, -, rfl⟩
  simp at hs

theorem not_isInsideIndex_nil : ¬ IsInsideIndex [] := by
  rintro ⟨s, hs, w, gap, q, -, -, -, rfl⟩
  simp at hs

/-! ## One step of the search -/

/-- A longer name leads a longer text. -/
theorem leads_of_isIdentifier (hw : isIdentifier w = true) (h : a.Leads s after) :
    Access.Leads ⟨w ++ a.name, a.index⟩ (w ++ s) after := by
  obtain ⟨hname, gap, index, hgap, hne, hbracket, hindex, rfl⟩ := h
  refine ⟨?_, gap, index, hgap, hne, hbracket, hindex, by rw [List.append_assoc]⟩
  cases w with
  | nil => exact hname
  | cons c r =>
      rw [isIdentifier, Bool.and_eq_true, List.all_eq_true] at hw
      rw [List.cons_append, isIdentifier, Bool.and_eq_true, List.all_eq_true]
      refine ⟨hw.1, fun d hd => ?_⟩
      exact (List.mem_append.mp hd).elim (hw.2 d) ((wordChar_of_identifier hname).2 d)

/-- An access inside an open index ends the access that the index is of. -/
theorem exists_leads_of_opensIndex (hs : OpensIndex s) (h : a.Leads t after) :
    ∃ b : Access, b.Leads (s ++ t) after := by
  obtain ⟨w, gap, q, hw, hgap, hq, rfl⟩ := hs
  obtain ⟨hname, gap', index, hgap', hne, hbracket, -, rfl⟩ := h
  refine ⟨⟨w, trim (q ++ (a.name ++ (gap' ++ '[' :: index)))⟩, hw, gap,
    q ++ (a.name ++ (gap' ++ '[' :: index)), hgap, by simp, ?_, rfl, by simp⟩
  intro hmem
  simp only [List.mem_append, List.mem_cons] at hmem
  rcases hmem with hmem | hmem | hmem | hmem | hmem
  · exact hq hmem
  · exact bracket_not_mem_of_isIdentifier hname hmem
  · exact absurd (hgap' _ hmem) (by decide)
  · exact absurd hmem (by decide)
  · exact hbracket hmem

/-- **Where no access begins**, a character more before the others changes nothing. -/
theorem isWrittenBehind_cons_iff {c : Char} {r : List Char}
    (hnone : ∀ b after, ¬ Access.Leads b (c :: r) after) :
    (∃ before, IsWrittenBehind before a (c :: r) ∧ ¬ IsInsideIndex before) ↔
      ∃ before, IsWrittenBehind before a r ∧ ¬ IsInsideIndex before := by
  constructor
  · rintro ⟨before, ⟨hname, later, after, hs, hleads⟩, houtside⟩
    cases before with
    | nil =>
        rw [List.nil_append] at hs
        exact absurd (hs ▸ hleads) (hnone a after)
    | cons d before =>
        obtain ⟨rfl, rfl⟩ := List.cons.inj hs
        have hends : EndsInNoName before := fun w hw => hname w (hw.trans (List.suffix_cons ..))
        refine ⟨before, ⟨hends, later, after, rfl, hleads⟩, ?_⟩
        rintro ⟨s, hs, hopens⟩
        exact houtside ⟨s, hs.trans (List.suffix_cons ..), hopens⟩
  · rintro ⟨before, ⟨hname, later, after, rfl, hleads⟩, houtside⟩
    refine ⟨c :: before, ⟨?_, later, after, rfl, hleads⟩, ?_⟩
    · intro w hw
      rcases List.suffix_cons_iff.mp hw with rfl | hw
      · by_contra hidentifier
        rw [Bool.not_eq_false] at hidentifier
        exact hnone _ after (leads_of_isIdentifier hidentifier hleads)
      · exact hname w hw
    · rintro ⟨s, hs, hopens⟩
      rcases List.suffix_cons_iff.mp hs with rfl | hs
      · obtain ⟨b, hb⟩ := exists_leads_of_opensIndex hopens hleads
        exact hnone b after hb
      · exact houtside ⟨s, hs, hopens⟩

/-- A longer name ends in no shorter one: where no name ends, none of its characters were before. -/
theorem eq_nil_of_isIdentifier_append (hends : EndsInNoName before)
    (h : isIdentifier (before ++ w) = true) : before = [] := by
  cases before with
  | nil => rfl
  | cons c r =>
      rw [List.cons_append, isIdentifier, List.all_append, Bool.and_eq_true, Bool.and_eq_true] at h
      have hname : isIdentifier (c :: r) = true := by rw [isIdentifier, h.1, h.2.1]; rfl
      rw [hends _ (List.suffix_refl _)] at hname
      cases hname

/-- **Before the bracket that closes the index** of an access that leads a text no other one begins but
    inside the index. -/
theorem eq_nil_or_of_leads {a₀ : Access} (h : a₀.Leads s rest) (hwritten : IsWrittenBehind before a s)
    (houtside : ¬ IsInsideIndex before) :
    before = [] ∨ ∃ x z, s = x ++ ']' :: rest ∧ before = x ++ ']' :: z := by
  obtain ⟨hname₀, gap, index, hgap, -, hbracket, -, hs⟩ := h
  obtain ⟨hends, later, after, hcut, hname, _, _, -, -, -, -, ha⟩ := hwritten
  have hhead : later.head?.any isWordChar = true := by
    obtain ⟨hne, hword⟩ := wordChar_of_identifier hname
    rw [ha, any_head?_append _ hne, List.head?_eq_some_head hne, Option.any_some]
    exact hword _ (List.head_mem hne)
  have hx : s = ((a₀.name ++ gap) ++ '[' :: index) ++ ']' :: rest := by simp [hs]
  rcases exists_of_append_eq_append_cons (hcut.symm.trans hx) with ⟨y, hy, hlater⟩ | ⟨z, hz, -⟩
  · left
    rcases exists_of_append_eq_append_cons hy.symm with ⟨g, hg, rfl⟩ | ⟨q, hq, rfl⟩
    · rcases List.append_eq_append_iff.mp hg with ⟨v, -, hv⟩ | ⟨v, hv, -⟩
      · -- the access begins with white space or with the bracket
        have hblank : ∀ c ∈ g, isBlank c = true := fun c hc => hgap c (hv ▸ List.mem_append_right v hc)
        rw [hlater, List.append_assoc, List.cons_append, head?_gap hblank] at hhead
        cases hhead
      · exact eq_nil_of_isIdentifier_append hends (hv ▸ hname₀)
    · refine absurd ⟨before, List.suffix_refl _, a₀.name, gap, q, hname₀, hgap, ?_, ?_⟩ houtside
      · exact fun hmem => hbracket (List.mem_append_left y hmem)
      · rw [hq, List.append_assoc]
  · exact Or.inr ⟨_, z, hx, hz⟩

/-- **An access is found** exactly if it is written behind a text where no index is open. -/
theorem mem_accesses_iff :
    a ∈ accesses s ↔ ∃ before, IsWrittenBehind before a s ∧ ¬ IsInsideIndex before := by
  fun_induction accesses s with
  | case1 =>
      refine iff_of_false List.not_mem_nil ?_
      rintro ⟨before, hwritten, -⟩
      exact not_isWrittenBehind_nil hwritten
  | case2 c r a₀ rest h ih =>
      have hleads := takeAccess?_eq_some_iff.mp h
      obtain ⟨x, hx⟩ : ∃ x, c :: r = x ++ ']' :: rest := by
        obtain ⟨-, gap, index, -, -, -, -, hs⟩ := hleads
        exact ⟨a₀.name ++ (gap ++ '[' :: index), by simp [hs]⟩
      rw [List.mem_cons, ih]
      constructor
      · rintro (rfl | ⟨before, hwritten, houtside⟩)
        · refine ⟨[], ⟨?_, c :: r, rest, rfl, hleads⟩, not_isInsideIndex_nil⟩
          intro w hw
          rw [List.suffix_nil.mp hw]
          rfl
        · refine ⟨x ++ ']' :: before, ?_, isInsideIndex_append_iff.not.mpr houtside⟩
          rw [hx]
          exact isWrittenBehind_append_iff.mpr hwritten
      · rintro ⟨before, hwritten, houtside⟩
        rcases eq_nil_or_of_leads hleads hwritten houtside with rfl | ⟨y, z, hy, rfl⟩
        · obtain ⟨-, later, after, hs, ha⟩ := hwritten
          rw [List.nil_append] at hs
          rw [← hs, ← takeAccess?_eq_some_iff, h] at ha
          exact Or.inl (Prod.mk.inj (Option.some.inj ha)).1.symm
        · rw [hy] at hwritten
          exact Or.inr ⟨z, isWrittenBehind_append_iff.mp hwritten,
            isInsideIndex_append_iff.not.mp houtside⟩
  | case3 c r h ih =>
      rw [ih, isWrittenBehind_cons_iff]
      intro b after hb
      rw [takeAccess?_eq_some_iff.mpr hb] at h
      cases h

end StLint.Check.Indexing
