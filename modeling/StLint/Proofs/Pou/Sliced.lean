import StLint.Pou.Parse
import StLint.Proofs.Section.Sliced
import StLint.Proofs.Statement.Sliced

/-!
# No cut inside a character

All searches of the parser work on bytes, and what they answer is where a text is cut next. A cut at an
offset that is not between two characters would end the parser, whatever else the source holds.

None is. What a search finds for a pattern that is not empty is **a slice of the text**, whatever
characters stand around it, and a reader that fails at the first bad cut reads every source.

* `Sliced.parse` — the reader of units with searches over bytes and cuts at byte offsets.
* `Sliced.parse_eq` — it reads every source, and as the other one does.
* `cuts_never_fail` — what the searches find, and the readers that cut there.
-/

namespace StLint.Pou

open Text Source

namespace Sliced

/-- The unit declared at an index of the lines of code. -/
def ofDeclaration (label : String) (source raw : List Char) (ls : List CodeLine) (index : Nat)
    (d : Declaration) : Option Pou := do
  let start := index + 1
  let stop := endIndex d.kind ls start
  let table ← Section.Sliced.ofLines (lines raw) ls start stop
  let name := String.ofList d.name
  let body ← Statement.Sliced.ofLines name ls ((table.lastEnd.map (· + 1)).getD start) stop
  let dependencies := Dependencies.ofBody table.vars body.root
  return {
    kind := d.kind
    name
    source := String.ofList source
    vars := table.vars
    body := body.root
    dependencies := dependencies.units
    instances := dependencies.instances
    description := (descriptionAbove? raw (numberAt ls index)).map String.ofList
    returnType := d.returnType.map String.ofList
    diagnostics := (table.diagnostics ++ body.diagnostics).mergeSort fun a b => a.line ≤ b.line
    origin := some label }

/-- The first unit of a source. -/
def parse (label : String) (source : List Char) : Option (Except ParseError Pou) :=
  if (trim source).isEmpty then some (.error (.noUnitDeclaration label))
  else
    let raw := normalizeLineEndings source
    let ls := codeLines raw
    match findDeclaration? ls with
    | none => some (.error (.noUnitDeclaration label))
    | some (index, d) =>
      if ls.length ≤ index then some (.error (.headerOutside index ls.length))
      else (ofDeclaration label source raw ls index d).map .ok

theorem ofDeclaration_eq (label : String) (source raw : List Char) (ls : List CodeLine) (index : Nat)
    (d : Declaration) :
    ofDeclaration label source raw ls index d
      = some (Pou.ofDeclaration label source raw ls index d) := by
  simp only [ofDeclaration, Section.Sliced.ofLines_eq, Statement.Sliced.ofLines_eq]
  rfl

/-- **Every source is read**, whatever its characters. -/
theorem parse_eq (label : String) (source : List Char) :
    parse label source = some (Pou.parse label source) := by
  rw [parse, Pou.parse]
  by_cases hblank : (trim source).isEmpty = true
  · rw [if_pos hblank, if_pos hblank]
  · rw [if_neg hblank, if_neg hblank]
    cases hfind : findDeclaration? (codeLines (normalizeLineEndings source)) with
    | none => simp only [hfind]
    | some found =>
        obtain ⟨index, d⟩ := found
        by_cases hindex : (codeLines (normalizeLineEndings source)).length ≤ index
        · simp only [hfind, if_pos hindex]
        · simp only [hfind, if_neg hindex, ofDeclaration_eq, Option.map_some]

end Sliced

/-- What the three searches over bytes find for a pattern in a text. -/
structure CutsInside (pattern : String) (s : List Char) : Prop where
  /-- A word is found at the first of its slices that stand alone. -/
  word : IsLeftmost {p | IsWordSlice pattern.toList s p} (wordOffset? pattern s)
  /-- A phrase at top level is found at a slice, byte for byte. -/
  topLevel : ∀ p, topLevelOffset? pattern s = some p →
    IsSlice s p (byteSize pattern.toList) ∧
      octetsAt s p (byteSize pattern.toList) = octets pattern.toList
  /-- An operator is found at a slice, and a symbol byte for byte. -/
  operator : ∀ p, Expression.Sliced.operatorOffset? pattern s = some p →
    IsSliceOf pattern.toList s p ∧ (Expression.isWordOperator pattern = false →
      octetsAt s p (byteSize pattern.toList) = octets pattern.toList)

theorem cutsInside {pattern : String} (hne : pattern ≠ "") (s : List Char) :
    CutsInside pattern s := by
  have hlist : pattern.toList ≠ [] := fun hnil => hne (String.toList_eq_nil_iff.mp hnil)
  refine ⟨isLeftmost_isWordSlice hlist s, ?_, ?_⟩
  · intro p hp
    rw [topLevelOffset?_eq hlist] at hp
    obtain ⟨i, hi, rfl⟩ := Option.map_eq_some_iff.mp hp
    exact ⟨((stands_of_findTopLevel? hi).isSliceOf hlist).slice,
      octetsAt_of_prefix (findTopLevelFrom?_eq_some hi)⟩
  · intro p hp
    rw [Expression.Sliced.operatorOffset?_eq hlist] at hp
    obtain ⟨i, hi, rfl⟩ := Option.map_eq_some_iff.mp hp
    refine ⟨(Expression.Sliced.stands_of_findOperator? hi).isSliceOf hlist, ?_⟩
    intro hsymbol
    rw [Expression.findOperator?, if_neg (Bool.eq_false_iff.mp hsymbol)] at hi
    exact octetsAt_of_prefix (Expression.findSymbolFrom?_eq_some hi)

/-- **No cut falls inside a character.** What is found for a pattern is a slice of the text, and the
    readers of expressions, bodies, tables and units, which fail at the first cut that is none, read
    every text. -/
theorem cuts_never_fail {pattern : String} (hne : pattern ≠ "") (s : List Char) :
    CutsInside pattern s ∧
      (∀ place, Expression.Sliced.parse place s = some (Expression.parse place s)) ∧
      (∀ unit ls start stop, Statement.Sliced.ofLines unit ls start stop
        = some (Statement.Body.ofLines unit ls start stop)) ∧
      (∀ sourceLines ls start stop, Section.Sliced.ofLines sourceLines ls start stop
        = some (Section.Table.ofLines sourceLines ls start stop)) ∧
      ∀ label, Sliced.parse label s = some (Pou.parse label s) :=
  ⟨cutsInside hne s, fun place => Expression.Sliced.parse_eq place s, Statement.Sliced.ofLines_eq,
    Section.Sliced.ofLines_eq, fun label => Sliced.parse_eq label s⟩

/-- A word behind an umlaut stands alone: it is found at its third byte, and the text is cut there. -/
theorem cuts_never_fail_behindUmlaut :
    "mod" ≠ "" ∧ wordOffset? "mod" "äMOD é".toList = some 2 ∧
      IsLeast {p | IsWordSlice "mod".toList "äMOD é".toList p} 2 ∧
      (Expression.Sliced.parse ⟨1, "Main"⟩ "äMOD é".toList).map Node.value = some (some "MOD") := by
  have hne : "mod" ≠ "" := by decide
  have hoffset : wordOffset? "mod" "äMOD é".toList = some 2 := by decide +kernel
  have hvalue : (Expression.parse ⟨1, "Main"⟩ "äMOD é".toList).value = some "MOD" := by decide +kernel
  obtain ⟨hcuts, hparse, -⟩ := cuts_never_fail hne "äMOD é".toList
  have hleast := hcuts.word
  rw [hoffset] at hleast
  refine ⟨hne, hoffset, hleast, ?_⟩
  rw [hparse, Option.map_some, hvalue]

end StLint.Pou
