import StLint.Proofs.Pou.Translation
import StLint.Proofs.Section.Description

/-!
# What a comment can change

The reader works on lines of code, and those depend on the source without its comments. The source
itself is at hand in three places: it is kept in the unit, its comment above the declaration
describes the unit, and its trailing comments describe the variables. So **two sources with the same
code** are read as the same unit, up to these three.

* `SameCode` — two units that differ at most in their texts and descriptions.
* `ofDeclaration_sameCode` — the same lines of code give such units, whatever the sources are.
* `parse_congr_of_stripComments` — two sources that differ in comments alone.
-/

namespace StLint

open Text Source

/-- The lines of code depend on the source without its comments. -/
theorem Source.codeLines_congr {s t : List Char} (h : stripComments s = stripComments t) :
    codeLines (normalizeLineEndings s) = codeLines (normalizeLineEndings t) := by
  have hnormal : ∀ r : List Char, stripComments (normalizeLineEndings r) = stripComments r := by
    intro r
    rw [stripComments, stripComments, normalizeLineEndings_idem]
  rw [codeLines, codeLines, hnormal, hnormal, h]

namespace Pou

/-- Two units of the same code: their texts, their descriptions and the descriptions of their
    variables may differ. -/
structure SameCode (u v : Pou) : Prop where
  kind : u.kind = v.kind
  name : u.name = v.name
  returnType : u.returnType = v.returnType
  body : u.body = v.body
  dependencies : u.dependencies = v.dependencies
  instances : u.instances = v.instances
  diagnostics : u.diagnostics = v.diagnostics
  origin : u.origin = v.origin
  vars : u.vars.map Variable.undescribed = v.vars.map Variable.undescribed

/-- The sections of two units with the same lines of code. -/
theorem tableAt_undescribed (raw raw' : List Char) (ls : List CodeLine) (index : Nat)
    (d : Declaration) :
    (tableAt raw ls index d).undescribed = (tableAt raw' ls index d).undescribed := by
  -- both are the table that is read without the source
  rw [tableAt, tableAt, ← Section.Table.ofLines_nil, ← Section.Table.ofLines_nil]

/-- Where a body begins and ends can be told from the lines of code. -/
theorem bodyAt_congr (raw raw' : List Char) (ls : List CodeLine) (index : Nat) (d : Declaration) :
    bodyAt raw ls index d = bodyAt raw' ls index d := by
  have hend : (tableAt raw ls index d).lastEnd = (tableAt raw' ls index d).lastEnd := by
    simpa using congrArg Section.Table.lastEnd (tableAt_undescribed raw raw' ls index d)
  rw [bodyAt, bodyAt, hend]

theorem dependencies_congr {vars vars' : List Variable}
    (h : vars.map Variable.undescribed = vars'.map Variable.undescribed) (body : Node) :
    Dependencies.ofBody vars body = Dependencies.ofBody vars' body := by
  -- both sides are read with variables that have no description
  rw [← Dependencies.ofBody_map Variable.keeps_undescribed vars, h,
    Dependencies.ofBody_map Variable.keeps_undescribed]

/-- **The same lines of code** give units of the same code, whatever source is at hand. -/
theorem ofDeclaration_sameCode (label : String) (source source' raw raw' : List Char)
    (ls : List CodeLine) (index : Nat) (d : Declaration) :
    (ofDeclaration label source raw ls index d).SameCode
      (ofDeclaration label source' raw' ls index d) := by
  have htable := tableAt_undescribed raw raw' ls index d
  have hvars : (tableAt raw ls index d).vars.map Variable.undescribed
      = (tableAt raw' ls index d).vars.map Variable.undescribed := by
    simpa using congrArg Section.Table.vars htable
  have hdiagnostics : (tableAt raw ls index d).diagnostics
      = (tableAt raw' ls index d).diagnostics := by
    simpa using congrArg Section.Table.diagnostics htable
  have hbody := bodyAt_congr raw raw' ls index d
  have hdependencies := dependencies_congr hvars (bodyAt raw' ls index d).root
  rw [ofDeclaration_eq, ofDeclaration_eq, hbody]
  exact {
    kind := rfl
    name := rfl
    returnType := rfl
    body := rfl
    dependencies := congrArg Dependencies.units hdependencies
    instances := congrArg Dependencies.instances hdependencies
    diagnostics := by
      rw [ofParts, ofParts, hdiagnostics]
    origin := rfl
    vars := hvars }

/-- **Comments do not influence what is read.** Two sources that differ in comments alone both hold
    no unit, with the same error, or hold units of the same code. -/
theorem parse_congr_of_stripComments (label : String) {s t : List Char}
    (h : stripComments s = stripComments t) :
    (∃ e, parse label s = .error e ∧ parse label t = .error e) ∨
      ∃ u v, parse label s = .ok u ∧ parse label t = .ok v ∧ u.SameCode v := by
  have hcode := codeLines_congr h
  rw [parse_eq_find, parse_eq_find, hcode]
  cases findDeclaration? (codeLines (normalizeLineEndings t)) with
  | none => exact Or.inl ⟨.noUnitDeclaration label, rfl, rfl⟩
  | some x =>
      obtain ⟨index, d⟩ := x
      exact Or.inr ⟨_, _, rfl, rfl, ofDeclaration_sameCode label s t _ _ _ index d⟩

/-- A program with a comment at its only variable. -/
def describedVariable (comment : List Char) : List Char :=
  "PROGRAM A\nVAR\n  x : INT; ".toList ++ comment ++ "\nEND_VAR\nx := 1;\nEND_PROGRAM".toList

/-- Another comment at a variable describes it in another way, and changes nothing else. -/
theorem parse_congr_of_stripComments_describedVariable :
    stripComments (describedVariable "// speed".toList)
        = stripComments (describedVariable "(* x := 0; *)".toList) ∧
      ∃ u v, parse "a.st" (describedVariable "// speed".toList) = .ok u ∧
        parse "a.st" (describedVariable "(* x := 0; *)".toList) = .ok v ∧ u.SameCode v ∧
        u.vars.map Variable.description ≠ v.vars.map Variable.description := by
  have hstrip : stripComments (describedVariable "// speed".toList)
      = stripComments (describedVariable "(* x := 0; *)".toList) := by
    decide +kernel
  have hspeed : (parse "a.st" (describedVariable "// speed".toList)).map
      (fun u => u.vars.map Variable.description) = .ok [some "speed"] := by
    decide +kernel
  have hassigned : (parse "a.st" (describedVariable "(* x := 0; *)".toList)).map
      (fun u => u.vars.map Variable.description) = .ok [some "x := 0;"] := by
    decide +kernel
  refine ⟨hstrip, ?_⟩
  obtain ⟨e, he, -⟩ | ⟨u, v, hu, hv, hsame⟩ := parse_congr_of_stripComments "a.st" hstrip
  · rw [he] at hspeed
    exact nomatch hspeed
  · refine ⟨u, v, hu, hv, hsame, ?_⟩
    rw [hu] at hspeed
    rw [hv] at hassigned
    have hleft : u.vars.map Variable.description = [some "speed"] := Except.ok.inj hspeed
    have hright : v.vars.map Variable.description = [some "x := 0;"] := Except.ok.inj hassigned
    rw [hleft, hright]
    decide

end Pou

end StLint
