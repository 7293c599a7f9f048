import StLint.Check.All
import StLint.Proofs.Collection.Distinct
import StLint.Proofs.Pou.Concatenation
import StLint.Proofs.Source.LineEnd
import StLint.Proofs.Text.Occurrence

/-!
# Checks of units with other line ends

A unit keeps its source as it was written, and two checks read the lines of it again: one line with
an `IF` and a comparison with zero silences the findings about divisions, and one line that compares
an array with both of its bounds silences those about the array. They cut the source at line feeds
only. So **carriage returns alone make one line of the whole source**, and what silences a check may
then come from different lines.

* `Division.isScatteredGuard`, `Indexing.isScatteredCheck` — what silences a check, on any lines.
* `Pou.divisions_crlf`, `Pou.indexing_crlf` — a carriage return before a line feed changes nothing.
* `Pou.divisions_cr`, `Pou.indexing_cr` — carriage returns alone.
* `Pou.SilencedByLine` — whatever silences a check of the unit stands on one line.
-/

namespace StLint

open Text Source

namespace Check

/-! ## Divisions -/

namespace Division

/-- The lines hold an `IF` and a comparison with zero, on one line or on two. -/
def isScatteredGuard (ls : List (List Char)) : Bool :=
  ls.any (containsWord "IF") && guards.any fun g => ls.any fun l => (find? g.toList l).isSome

theorem isKeyword_if : IsKeyword "IF".toList := isKeyword_of_all (by decide)

/-- No comparison with zero holds a carriage return. -/
theorem cr_not_mem_of_mem_guards {g : String} (hg : g ∈ guards) : '\r' ∉ g.toList ∧ g.toList ≠ [] := by
  revert g
  decide

/-- **Lines with carriage returns between them** guard a divisor, taken together, if their parts do. -/
theorem isGuard_intercalate (ls : List (List Char)) :
    isGuard (['\r'].intercalate ls) = isScatteredGuard ls := by
  have hguards : (guards.any fun g => (find? g.toList (['\r'].intercalate ls)).isSome)
      = guards.any fun g => ls.any fun l => (find? g.toList l).isSome := by
    rw [Bool.eq_iff_iff, List.any_eq_true, List.any_eq_true]
    refine exists_congr fun g => and_congr_right ?_
    intro hg
    obtain ⟨hcr, hne⟩ := cr_not_mem_of_mem_guards hg
    rw [isSome_find?_intercalate hcr hne]
  rw [isGuard, isScatteredGuard, containsWord_intercalate isKeyword_if (by decide), hguards]

/-- A carriage return behind a line does not count. -/
theorem isGuard_concat_cr (l : List Char) : isGuard (l ++ ['\r']) = isGuard l := by
  have hguards : (guards.any fun g => [l, []].any fun l => (find? g.toList l).isSome)
      = guards.any fun g => (find? g.toList l).isSome := by
    rw [Bool.eq_iff_iff, List.any_eq_true, List.any_eq_true]
    refine exists_congr fun g => and_congr_right ?_
    intro hg
    simp [isSome_find?_nil (cr_not_mem_of_mem_guards hg).2]
  have hword : [l, []].any (containsWord "IF") = containsWord "IF" l := by
    simp [containsWord_nil]
  rw [show l ++ ['\r'] = ['\r'].intercalate [l, []] by simp, isGuard_intercalate, isScatteredGuard,
    hguards, hword, isGuard]

/-- A line that guards a divisor is among the lines. -/
theorem isScatteredGuard_of_any {ls : List (List Char)} (h : ls.any isGuard = true) :
    isScatteredGuard ls = true := by
  obtain ⟨l, hl, hguard⟩ := List.any_eq_true.mp h
  rw [isGuard, Bool.and_eq_true, List.any_eq_true] at hguard
  obtain ⟨hif, g, hg, hfound⟩ := hguard
  rw [isScatteredGuard, Bool.and_eq_true]
  exact ⟨List.any_eq_true.mpr ⟨l, hl, hif⟩,
    List.any_eq_true.mpr ⟨g, hg, List.any_eq_true.mpr ⟨l, hl, hfound⟩⟩⟩

end Division

/-! ## Array accesses -/

namespace Indexing

/-- The lines hold the name of an array and both comparisons with its bounds, on any of them. -/
def isScatteredCheck (name : List Char) (ls : List (List Char)) : Bool :=
  ls.any (containsWord (String.ofList name)) && ls.any (fun l => (find? ">=".toList l).isSome) &&
    ls.any fun l => (find? "<=".toList l).isSome

variable {name : List Char}

theorem isKeyword_ofList (h : IsKeyword name) : IsKeyword (String.ofList name).toList := by
  rwa [String.toList_ofList]

/-- **Lines with carriage returns between them** check an array, taken together, if their parts do. -/
theorem checksRange_intercalate (h : IsKeyword name) (ls : List (List Char)) :
    checksRange name (['\r'].intercalate ls) = isScatteredCheck name ls := by
  rw [checksRange, isScatteredCheck, containsWord_intercalate (isKeyword_ofList h) (by decide),
    isSome_find?_intercalate (by decide) (by decide), isSome_find?_intercalate (by decide) (by decide)]

/-- A carriage return behind a line does not count. -/
theorem checksRange_concat_cr (h : IsKeyword name) (l : List Char) :
    checksRange name (l ++ ['\r']) = checksRange name l := by
  have hword : [l, []].any (containsWord (String.ofList name))
      = containsWord (String.ofList name) l := by
    simp [containsWord_nil]
  have hphrase : ∀ p : List Char, p ≠ [] →
      ([l, []].any fun l => (find? p l).isSome) = (find? p l).isSome := by
    intro p hp
    simp [isSome_find?_nil hp]
  rw [show l ++ ['\r'] = ['\r'].intercalate [l, []] by simp, checksRange_intercalate h,
    isScatteredCheck, hword, hphrase _ (by decide), hphrase _ (by decide), checksRange]

theorem isScatteredCheck_of_any {ls : List (List Char)} (h : ls.any (checksRange name) = true) :
    isScatteredCheck name ls = true := by
  obtain ⟨l, hl, hcheck⟩ := List.any_eq_true.mp h
  rw [checksRange, Bool.and_eq_true, Bool.and_eq_true] at hcheck
  obtain ⟨⟨hname, hge⟩, hle⟩ := hcheck
  rw [isScatteredCheck, Bool.and_eq_true, Bool.and_eq_true]
  exact ⟨⟨List.any_eq_true.mpr ⟨l, hl, hname⟩, List.any_eq_true.mpr ⟨l, hl, hge⟩⟩,
    List.any_eq_true.mpr ⟨l, hl, hle⟩⟩

/-! ### The names of arrays -/

theorem name_of_takeIndex? {s rest : List Char} {a : Access} (h : takeIndex? name s = some (a, rest)) :
    a.name = name := by
  rw [takeIndex?] at h
  split at h
  · cases h
  · dsimp only at h
    split at h
    · cases h
    · rw [← (Prod.mk.inj (Option.some.inj h)).1]

/-- An array is named by the word in front of its bracket. -/
theorem isKeyword_of_takeAccess? {s rest : List Char} {a : Access}
    (h : takeAccess? s = some (a, rest)) : IsKeyword a.name := by
  cases s with
  | nil => cases h
  | cons c r =>
      rw [takeAccess?] at h
      by_cases hc : (isLetter c || c = '_') = true
      · have hword : isWordChar c = true := by
          rw [Bool.or_eq_true] at hc
          rcases hc with hc | hc
          · simp [isWordChar, hc]
          · rw [of_decide_eq_true hc]
            decide
        rw [List.head?_cons, Option.any_some, if_pos hc] at h
        split at h
        · cases h
        · split at h
          · rw [name_of_takeIndex? h, leadingWord]
            refine isKeyword_of_wordChar ?_ fun d hd => List.mem_takeWhile_imp hd
            rw [List.takeWhile_cons, hword]
            exact List.cons_ne_nil _ _
          · cases h
      · rw [List.head?_cons, Option.any_some, if_neg hc] at h
        cases h

theorem isKeyword_of_mem_accesses {s : List Char} {a : Access} (h : a ∈ accesses s) :
    IsKeyword a.name := by
  fun_induction accesses s with
  | case1 => cases h
  | case2 c r a' rest ha ih =>
      rcases List.mem_cons.mp h with rfl | h
      · exact isKeyword_of_takeAccess? ha
      · exact ih h
  | case3 c r _ ih => exact ih h

theorem isKeyword_of_mem_sites {u : Pou} {s : Site} (h : s ∈ sites u) : IsKeyword s.access.name := by
  have hmem := (firstBy_sublist _ _).subset h
  obtain ⟨n, -, hs⟩ := List.mem_flatMap.mp hmem
  obtain ⟨a, ha, hsite⟩ := List.mem_filterMap.mp hs
  obtain ⟨text, -, ha⟩ := List.mem_flatMap.mp ha
  by_cases hconstant : isConstant a.index = true
  · rw [if_pos hconstant] at hsite
    cases hsite
  · rw [if_neg hconstant] at hsite
    rw [← Option.some.inj hsite]
    exact isKeyword_of_mem_accesses ha

/-- The text about an access begins with the name of the array, up to the bracket. -/
theorem name_eq_of_key_eq {u : Pou} {s t : Site} (hs : IsKeyword s.access.name)
    (ht : IsKeyword t.access.name) (h : (ofSite u s).key = (ofSite u t).key) :
    s.access.name = t.access.name := by
  have hbracket : ∀ {name : List Char} (r : List Char), IsKeyword name →
      (name ++ '[' :: r).takeWhile (· ≠ '[') = name := by
    intro name r hname
    refine takeWhile_ne_append ?_ r
    intro hmem
    exact absurd (hname.wordChar _ hmem) (by decide)
  have htext : ∀ a : Site, (ofSite u a).description.toList
      = a.access.name ++ '[' :: (a.access.index ++ "] is indexed without a bounds check".toList) := by
    intro a
    show (String.ofList a.access.name ++ "[" ++ String.ofList a.access.index ++ _).toList = _
    simp
  have hdescription : (ofSite u s).description = (ofSite u t).description :=
    congrArg IssueKey.description h
  have hlist := congrArg String.toList hdescription
  rw [htext, htext] at hlist
  have hcut := congrArg (List.takeWhile (· ≠ '[')) hlist
  rwa [hbracket _ hs, hbracket _ ht] at hcut

/-- **No two findings about array accesses are one.** -/
theorem pairwise_key_indexing (u : Pou) : (indexing u).Pairwise fun i j => i.key ≠ j.key := by
  rw [indexing, List.pairwise_map]
  have hnames : (sites u).Pairwise fun s t => lower s.access.name ≠ lower t.access.name :=
    pairwise_firstBy _ _
  refine List.Pairwise.imp_of_mem ?_ (hnames.filter _)
  intro s t hs ht hne hkey
  have hname := name_eq_of_key_eq (isKeyword_of_mem_sites (List.mem_of_mem_filter hs))
    (isKeyword_of_mem_sites (List.mem_of_mem_filter ht)) hkey
  exact hne (congrArg lower hname)

end Indexing

end Check

/-! ## Units -/

namespace Pou

open Check

variable {u : Pou} {s : List Char}

theorem sourceLines_withSource (text : List Char) (u : Pou) :
    (u.withSource text).sourceLines = lines text := by
  rw [sourceLines, withSource, String.toList_ofList]

/-- **The findings about divisions** of a unit with another source. -/
theorem divisions_withSource (text : List Char) (u : Pou) :
    divisions (u.withSource text)
      = if (lines text).any Division.isGuard then []
        else u.body.walk.filterMap (Division.ofNode? u) := by
  rw [divisions, sourceLines_withSource]
  rfl

/-- **The findings about array accesses** of a unit with another source. -/
theorem indexing_withSource (text : List Char) (u : Pou) :
    indexing (u.withSource text)
      = ((Indexing.sites u).filter fun s => !(lines text).any (Indexing.checksRange s.access.name)).map
          (Indexing.ofSite u) := by
  rw [indexing, sourceLines_withSource]
  rfl

/-- Predicates that agree line by line hold for one of the lines alike. -/
theorem any_eq_of_forall₂ {α : Type} {R : α → α → Prop} {p : α → Bool} {as bs : List α}
    (hp : ∀ a b, R a b → p b = p a) (h : List.Forall₂ R as bs) : bs.any p = as.any p := by
  induction h with
  | nil => rfl
  | cons hab _ ih => rw [List.any_cons, List.any_cons, hp _ _ hab, ih]

theorem any_lines_write_crlf {p : List Char → Bool} (hp : ∀ l, p (l ++ ['\r']) = p l) (s : List Char) :
    (lines (LineEnd.crlf.write s)).any p = (lines s).any p := by
  refine any_eq_of_forall₂ ?_ (forall₂_lines_write_crlf s)
  rintro l m (rfl | rfl)
  · rfl
  · exact hp l

theorem any_lines_write_cr (p : List Char → Bool) (s : List Char) :
    (lines (LineEnd.cr.write s)).any p = p (['\r'].intercalate (lines s)) := by
  rw [lines_write_cr, List.any_cons, List.any_nil, Bool.or_false]

/-- **A carriage return before a line feed** changes no finding about divisions. -/
theorem divisions_crlf (u : Pou) (s : List Char) :
    divisions (u.withSource (LineEnd.crlf.write s)) = divisions (u.withSource s) := by
  rw [divisions_withSource, divisions_withSource, any_lines_write_crlf Division.isGuard_concat_cr]

/-- **A carriage return before a line feed** changes no finding about array accesses. -/
theorem indexing_crlf (u : Pou) (s : List Char) :
    indexing (u.withSource (LineEnd.crlf.write s)) = indexing (u.withSource s) := by
  rw [indexing_withSource, indexing_withSource]
  congr 1
  refine List.filter_congr ?_
  intro site hsite
  rw [any_lines_write_crlf (Indexing.checksRange_concat_cr (Indexing.isKeyword_of_mem_sites hsite))]

/-- **Carriage returns alone** let the parts of a guard come from different lines. -/
theorem divisions_cr (u : Pou) (s : List Char) :
    divisions (u.withSource (LineEnd.cr.write s))
      = if Division.isScatteredGuard (lines s) then []
        else u.body.walk.filterMap (Division.ofNode? u) := by
  rw [divisions_withSource, any_lines_write_cr, Division.isGuard_intercalate]

/-- **Carriage returns alone** let the parts of a bounds check come from different lines. -/
theorem indexing_cr (u : Pou) (s : List Char) :
    indexing (u.withSource (LineEnd.cr.write s))
      = ((Indexing.sites u).filter fun a => !Indexing.isScatteredCheck a.access.name (lines s)).map
          (Indexing.ofSite u) := by
  rw [indexing_withSource]
  congr 1
  refine List.filter_congr ?_
  intro site hsite
  rw [any_lines_write_cr, Indexing.checksRange_intercalate (Indexing.isKeyword_of_mem_sites hsite)]

/-! ## What stands on one line -/

/-- **Whatever silences a check stands on one line**: where an `IF` and a comparison with zero stand
    anywhere in the source, they stand on one line somewhere, or nothing divides; and where the name of an
    array with a computed index and both comparisons stand anywhere, they stand on one line somewhere. -/
structure SilencedByLine (u : Pou) : Prop where
  division : Division.isScatteredGuard u.sourceLines = true →
    u.sourceLines.any Division.isGuard = true ∨ u.body.walk.filterMap (Division.ofNode? u) = []
  indexing : ∀ s ∈ Indexing.sites u, Indexing.isScatteredCheck s.access.name u.sourceLines = true →
    u.sourceLines.any (Indexing.checksRange s.access.name) = true

/-- Where each check is silenced by one line, carriage returns alone change no finding. -/
theorem SilencedByLine.divisions_cr (h : u.SilencedByLine) (hu : u.sourceLines = lines s) :
    divisions (u.withSource (LineEnd.cr.write s)) = divisions u := by
  have hdivision := h.division
  rw [hu] at hdivision
  rw [Pou.divisions_cr, divisions, hu]
  by_cases hline : (lines s).any Division.isGuard = true
  · rw [if_pos (Division.isScatteredGuard_of_any hline), if_pos hline]
  · rw [if_neg hline]
    by_cases hscattered : Division.isScatteredGuard (lines s) = true
    · rw [if_pos hscattered, (hdivision hscattered).resolve_left hline]
    · rw [if_neg hscattered]

theorem SilencedByLine.indexing_cr (h : u.SilencedByLine) (hu : u.sourceLines = lines s) :
    Check.indexing (u.withSource (LineEnd.cr.write s)) = Check.indexing u := by
  have hindexing := h.indexing
  rw [hu] at hindexing
  rw [Pou.indexing_cr, Check.indexing, hu]
  congr 1
  refine List.filter_congr ?_
  intro site hsite
  rw [Bool.eq_iff_iff, Bool.not_eq_true', Bool.not_eq_true', ← Bool.not_eq_true, ← Bool.not_eq_true]
  exact not_congr ⟨hindexing site hsite, Indexing.isScatteredCheck_of_any⟩

/-- The converse for divisions: with carriage returns alone no findings disappear altogether. -/
theorem division_of_divisions_cr (hu : u.sourceLines = lines s)
    (h : divisions (u.withSource (LineEnd.cr.write s)) = [] → divisions u = [])
    (hscattered : Division.isScatteredGuard u.sourceLines = true) :
    u.sourceLines.any Division.isGuard = true ∨ u.body.walk.filterMap (Division.ofNode? u) = [] := by
  by_cases hline : u.sourceLines.any Division.isGuard = true
  · exact Or.inl hline
  · have hunit : divisions u = u.body.walk.filterMap (Division.ofNode? u) := by
      rw [divisions, if_neg hline]
    rw [Pou.divisions_cr, ← hu, if_pos hscattered, hunit] at h
    exact Or.inr (h rfl)

/-- The converse for array accesses: with carriage returns alone there are as many findings. -/
theorem indexing_of_indexing_cr (hu : u.sourceLines = lines s)
    (h : (Check.indexing (u.withSource (LineEnd.cr.write s))).length = (Check.indexing u).length) :
    ∀ a ∈ Indexing.sites u, Indexing.isScatteredCheck a.access.name u.sourceLines = true →
      u.sourceLines.any (Indexing.checksRange a.access.name) = true := by
  rw [Pou.indexing_cr, Check.indexing, ← hu, List.length_map, List.length_map] at h
  -- the accesses that stay are among those of the unit, and there are as many
  have hsublist : ((Indexing.sites u).filter fun a =>
        !Indexing.isScatteredCheck a.access.name u.sourceLines).Sublist
      ((Indexing.sites u).filter fun a =>
        !u.sourceLines.any (Indexing.checksRange a.access.name)) := by
    refine List.monotone_filter_right _ ?_
    intro a ha
    rw [Bool.not_eq_true'] at ha ⊢
    by_contra hline
    rw [Bool.not_eq_false] at hline
    rw [Indexing.isScatteredCheck_of_any hline] at ha
    cases ha
  have heq := hsublist.eq_of_length h
  intro a ha hscattered
  by_contra hline
  have hmem : a ∈ (Indexing.sites u).filter
      fun a => !u.sourceLines.any (Indexing.checksRange a.access.name) :=
    List.mem_filter.mpr ⟨ha, by simpa using hline⟩
  rw [← heq, List.mem_filter, hscattered] at hmem
  cases hmem.2

end Pou

end StLint
