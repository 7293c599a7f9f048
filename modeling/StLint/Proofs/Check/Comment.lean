import StLint.Proofs.Check.LineEnd
import StLint.Proofs.Pou.Comment
import StLint.Proofs.Pou.Trace

/-!
# What a comment can silence

Two sources with the same text without comments are read as units of the same code, and a check that
looks at statements and variables alone cannot tell them apart. The other two checks look for what
silences them **in the source as it was written**, comments included. So a comment that spells a
guard silences the divisions of its unit, and one that spells a bounds check silences an array.

* `loops_congr`, `naming_congr` — checks without a look at the source.
* `divisions_eq_iff` — the divisions of two units of the same code.
* `indexing_eq_iff` — their array accesses.
* `findings_of_stripComments_eq` — all four checks, for sources that differ in comments.
-/

namespace StLint

open Text Source

namespace Check

variable {u v : Pou}

/-! ## Checks that read statements and variables -/

/-- A finding about a unit names the unit, and holds nothing else of it. -/
theorem inUnit_congr (hname : u.name = v.name) : Issue.inUnit u = Issue.inUnit v := by
  funext line type severity title description suggestion confidence
  rw [Issue.inUnit, Issue.inUnit, hname]

theorem Loops.ofNode?_congr (hname : u.name = v.name) : Loops.ofNode? u = Loops.ofNode? v := by
  have hidle : Loops.idleLoop u = Loops.idleLoop v := by
    funext n b
    rw [Loops.idleLoop, Loops.idleLoop, inUnit_congr hname]
  have hopen : Loops.openLoop u = Loops.openLoop v := by
    funext n
    rw [Loops.openLoop, Loops.openLoop, inUnit_congr hname]
  funext n
  rw [Loops.ofNode?, Loops.ofNode?, hidle, hopen]

theorem Division.ofNode?_congr (hname : u.name = v.name) :
    Division.ofNode? u = Division.ofNode? v := by
  funext n
  rw [Division.ofNode?, Division.ofNode?, inUnit_congr hname]

theorem Indexing.ofSite_congr (hname : u.name = v.name) : Indexing.ofSite u = Indexing.ofSite v := by
  funext s
  rw [Indexing.ofSite, Indexing.ofSite, inUnit_congr hname]

theorem Indexing.sites_congr (hbody : u.body = v.body) : Indexing.sites u = Indexing.sites v := by
  rw [Indexing.sites, Indexing.sites, hbody]

/-- **The findings about loops** depend on the code. -/
theorem loops_congr (h : u.SameCode v) : loops u = loops v := by
  rw [loops, loops, h.body, Loops.ofNode?_congr h.name]

/-- The findings about names do not need the descriptions of the variables. -/
theorem naming_eq_undescribed (u : Pou) :
    naming u = ((u.vars.map Variable.undescribed).filter fun w => !isIdentifier w.name.toList).map
      (invalidName u) := by
  rw [naming, List.filter_map, List.map_map]
  rfl

/-- **The findings about names** depend on the code. -/
theorem naming_congr (h : u.SameCode v) : naming u = naming v := by
  have hinvalid : invalidName u = invalidName v := by
    funext w
    rw [invalidName, invalidName, inUnit_congr h.name]
  rw [naming_eq_undescribed, naming_eq_undescribed, h.vars, hinvalid]

/-! ## Checks that read the source again -/

/-- **The findings about divisions** of two units of the same code are the same if both sources guard
    a divisor somewhere, or neither does, or nothing divides; and only then. -/
theorem divisions_eq_iff (h : u.SameCode v) :
    divisions u = divisions v ↔
      (u.sourceLines.any Division.isGuard = v.sourceLines.any Division.isGuard ∨
        u.body.walk.filterMap (Division.ofNode? u) = []) := by
  have hnodes : v.body.walk.filterMap (Division.ofNode? v)
      = u.body.walk.filterMap (Division.ofNode? u) := by
    rw [← h.body, ← Division.ofNode?_congr h.name]
  rw [divisions, divisions, hnodes]
  generalize u.body.walk.filterMap (Division.ofNode? u) = found
  -- where one source guards a divisor and the other does not, one side finds nothing
  cases u.sourceLines.any Division.isGuard <;> cases v.sourceLines.any Division.isGuard
  · exact iff_of_true rfl (Or.inl rfl)
  · exact ⟨Or.inr, fun h => h.resolve_left Bool.false_ne_true⟩
  · exact ⟨fun h => Or.inr h.symm, fun h => (h.resolve_left Bool.false_ne_true.symm).symm⟩
  · exact iff_of_true rfl (Or.inl rfl)

namespace Indexing

/-- A source lets an access be reported: no line of it checks the array. -/
def isReported (ls : List (List Char)) (s : Site) : Bool := !ls.any (checksRange s.access.name)

theorem indexing_eq (u : Pou) :
    indexing u = ((sites u).filter (isReported u.sourceLines)).map (ofSite u) :=
  rfl

/-- An access of a unit is reported if its finding is: no two findings are about one array. -/
theorem isReported_of_mem {u : Pou} {ls : List (List Char)} {s : Site} (hs : s ∈ sites u)
    (h : ofSite u s ∈ ((sites u).filter (isReported ls)).map (ofSite u)) :
    isReported ls s = true := by
  obtain ⟨t, ht, hfinding⟩ := List.mem_map.mp h
  obtain ⟨htsite, hreported⟩ := List.mem_filter.mp ht
  have hname := name_eq_of_key_eq (isKeyword_of_mem_sites htsite) (isKeyword_of_mem_sites hs)
    (congrArg Issue.key hfinding)
  rwa [isReported, hname] at hreported

end Indexing

/-- **The findings about array accesses** of two units of the same code are the same if the sources
    agree on which of the arrays are checked, and only then. -/
theorem indexing_eq_iff (h : u.SameCode v) :
    indexing u = indexing v ↔
      ∀ a ∈ Indexing.sites u, u.sourceLines.any (Indexing.checksRange a.access.name)
        = v.sourceLines.any (Indexing.checksRange a.access.name) := by
  rw [Indexing.indexing_eq, Indexing.indexing_eq, ← Indexing.sites_congr h.body,
    ← Indexing.ofSite_congr h.name]
  constructor
  · intro heq a ha
    have hiff : Indexing.isReported u.sourceLines a = true ↔
        Indexing.isReported v.sourceLines a = true := by
      constructor
      · intro hu
        refine Indexing.isReported_of_mem ha ?_
        rw [← heq]
        exact List.mem_map_of_mem (List.mem_filter.mpr ⟨ha, hu⟩)
      · intro hv
        refine Indexing.isReported_of_mem ha ?_
        rw [heq]
        exact List.mem_map_of_mem (List.mem_filter.mpr ⟨ha, hv⟩)
    exact Bool.not_inj (Bool.eq_iff_iff.mpr hiff)
  · intro hagree
    congr 1
    refine List.filter_congr ?_
    intro a ha
    rw [Indexing.isReported, Indexing.isReported, hagree a ha]

end Check

/-! ## Sources that differ in comments -/

namespace Pou

open Check

variable {label label' : String} {s t : List Char} {u v : Pou}

/-- The text of a unit is cut into the lines of its source. -/
theorem sourceLines_of_parse (hu : parse label s = .ok u) : u.sourceLines = lines s := by
  rw [sourceLines, source_of_parse hu, String.toList_ofList]

/-- A unit of another file. -/
def withOrigin (o : Option String) (u : Pou) : Pou := { u with origin := o }

theorem withOrigin_ofDeclaration (label label' : String) (source raw : List Char)
    (ls : List CodeLine) (index : Nat) (d : Declaration) :
    (ofDeclaration label' source raw ls index d).withOrigin
        (ofDeclaration label source raw ls index d).origin
      = ofDeclaration label source raw ls index d := by
  rw [ofDeclaration_eq, ofDeclaration_eq]
  rfl

theorem sourceLines_withOrigin (o : Option String) (u : Pou) :
    (u.withOrigin o).sourceLines = u.sourceLines := rfl

theorem loops_withOrigin (o : Option String) (u : Pou) : loops (u.withOrigin o) = loops u := rfl

theorem naming_withOrigin (o : Option String) (u : Pou) : naming (u.withOrigin o) = naming u := rfl

theorem divisions_withOrigin (o : Option String) (u : Pou) :
    divisions (u.withOrigin o) = divisions u := rfl

theorem indexing_withOrigin (o : Option String) (u : Pou) :
    indexing (u.withOrigin o) = indexing u := rfl

/-- The units of two sources that differ in comments alone are of the same code, up to the names of
    their files. -/
theorem sameCode_of_parse (h : stripComments s = stripComments t) (hu : parse label s = .ok u)
    (hv : parse label' t = .ok v) : u.SameCode (v.withOrigin u.origin) := by
  obtain ⟨index, d, hfind, rfl⟩ := exists_ofDeclaration_of_parse hu
  obtain ⟨index', d', hfind', rfl⟩ := exists_ofDeclaration_of_parse hv
  rw [codeLines_congr h, hfind', Option.some.injEq, Prod.mk.injEq] at hfind
  obtain ⟨rfl, rfl⟩ := hfind
  rw [codeLines_congr h]
  have hsame := ofDeclaration_sameCode label s t (normalizeLineEndings s)
    (normalizeLineEndings t) (codeLines (normalizeLineEndings t)) index' d'
  have horigin := hsame.origin
  rw [← withOrigin_ofDeclaration label label' t, ← horigin] at hsame
  exact hsame

/-- **Comments and findings.** The units of two sources that differ in comments alone have the same
    findings about loops and about names. Their findings about divisions are the same exactly if a
    line guards a divisor in both sources or in neither, or nothing divides; those about array
    accesses exactly if each array is checked by a line of both sources or of neither. The lines are
    those of the source, with its comments. -/
theorem findings_of_stripComments_eq (h : stripComments s = stripComments t)
    (hu : parse label s = .ok u) (hv : parse label' t = .ok v) :
    loops u = loops v ∧ naming u = naming v ∧
      (divisions u = divisions v ↔
        ((lines s).any Division.isGuard = (lines t).any Division.isGuard ∨
          u.body.walk.filterMap (Division.ofNode? u) = [])) ∧
      (indexing u = indexing v ↔
        ∀ a ∈ Indexing.sites u, (lines s).any (Indexing.checksRange a.access.name)
          = (lines t).any (Indexing.checksRange a.access.name)) := by
  have hsame := sameCode_of_parse h hu hv
  have hloops := loops_congr hsame
  have hnaming := naming_congr hsame
  have hdivisions := divisions_eq_iff hsame
  have hindexing := indexing_eq_iff hsame
  rw [loops_withOrigin] at hloops
  rw [naming_withOrigin] at hnaming
  rw [divisions_withOrigin, sourceLines_withOrigin, sourceLines_of_parse hu,
    sourceLines_of_parse hv] at hdivisions
  rw [indexing_withOrigin, sourceLines_withOrigin, sourceLines_of_parse hu,
    sourceLines_of_parse hv] at hindexing
  exact ⟨hloops, hnaming, hdivisions, hindexing⟩

/-- A program with a comment above its only statement, a division. -/
def commentedDivision (comment : List Char) : List Char :=
  "PROGRAM A ".toList ++ comment ++ "\nx := y / z;\nEND_PROGRAM".toList

/-- A comment without a guard and no comment at all: the division is reported both times. -/
theorem findings_of_stripComments_eq_commentedDivision :
    stripComments (commentedDivision "// quotient".toList)
        = stripComments (commentedDivision "(* IF z *)".toList) ∧
      ∃ u v, parse "a.st" (commentedDivision "// quotient".toList) = .ok u ∧
        parse "b.st" (commentedDivision "(* IF z *)".toList) = .ok v ∧
        loops u = loops v ∧ naming u = naming v ∧ divisions u = divisions v ∧
        indexing u = indexing v := by
  have hstrip : stripComments (commentedDivision "// quotient".toList)
      = stripComments (commentedDivision "(* IF z *)".toList) := by
    decide +kernel
  obtain ⟨u, hu, hsites⟩ : ∃ u, parse "a.st" (commentedDivision "// quotient".toList) = .ok u ∧
      Indexing.sites u = [] := exists_parse_of_any (by decide +kernel)
  obtain ⟨v, hv, -⟩ : ∃ v, parse "b.st" (commentedDivision "(* IF z *)".toList) = .ok v ∧
      v.name = "A" := exists_parse_of_any (by decide +kernel)
  obtain ⟨hloops, hnaming, hdivisions, hindexing⟩ := findings_of_stripComments_eq hstrip hu hv
  refine ⟨hstrip, u, v, hu, hv, hloops, hnaming, hdivisions.mpr (Or.inl (by decide +kernel)),
    hindexing.mpr ?_⟩
  rw [hsites]
  intro a ha
  exact absurd ha List.not_mem_nil

/-- **A comment can silence a finding**: a guard that is spelled in a comment counts. -/
theorem comment_silences_division :
    stripComments (commentedDivision "// quotient".toList)
        = stripComments (commentedDivision "// IF z > 0".toList) ∧
      ∃ u v, parse "a.st" (commentedDivision "// quotient".toList) = .ok u ∧
        parse "a.st" (commentedDivision "// IF z > 0".toList) = .ok v ∧
        divisions v = [] ∧ divisions u ≠ [] := by
  obtain ⟨u, hu, hreported⟩ : ∃ u,
      parse "a.st" (commentedDivision "// quotient".toList) = .ok u ∧ (divisions u).length = 1 :=
    exists_parse_of_any (by decide +kernel)
  obtain ⟨v, hv, hsilent⟩ : ∃ v,
      parse "a.st" (commentedDivision "// IF z > 0".toList) = .ok v ∧ (divisions v).length = 0 :=
    exists_parse_of_any (by decide +kernel)
  refine ⟨by decide +kernel, u, v, hu, hv, List.length_eq_zero_iff.mp hsilent, ?_⟩
  intro hnone
  rw [hnone] at hreported
  exact nomatch hreported

end Pou

end StLint
