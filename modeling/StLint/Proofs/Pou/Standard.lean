import StLint.Proofs.Pou.File
import StLint.Proofs.Statement.Call
import StLint.Proofs.Text.Cut

/-!
# Standard function blocks among the dependencies

A call through an instance is looked at twice. Whether the variable may be an instance at all is asked of
its base type, and whether it is one of a standard function block of **the whole text of its type**. The
two agree on a text that is its own base. But a text with a bracket or white space in it is no word of any
table, so a timer that is declared with its parameters becomes a dependency.

* `HasSuffix` — a type text that is more than its base.
* `Language.isBuiltin_iff_of_base` — with a standard base, just the texts without suffix are standard.
* `Dependencies.mem_units_iff_of_base` — the standard base types among the dependencies of a body.
* `Pou.omitsStandard_iff` — when there are none, in a body and in a unit that is read.
-/

namespace StLint

open Text Source

/-! ## Base types -/

/-- A character that ends the base of a type text. -/
def endsBase (c : Char) : Bool := c = '[' || c = '(' || isBlank c

/-- A type text is more than its base: it holds an opening bracket or white space. -/
def HasSuffix (s : List Char) : Prop := ∃ c ∈ s, endsBase c = true

instance decidableHasSuffix (s : List Char) : Decidable (HasSuffix s) :=
  decidable_of_iff (s.any endsBase = true) List.any_eq_true

theorem endsBase_eq_false_of_wordChar {c : Char} (h : isWordChar c = true) : endsBase c = false := by
  have hne : ∀ d : Char, isWordChar d = false → decide (c = d) = false := by
    intro d hd
    refine decide_eq_false ?_
    rintro rfl
    rw [h] at hd
    cases hd
  rw [endsBase, hne '[' (by decide), hne '(' (by decide), not_blank_of_wordChar h]
  rfl

/-- Case does not decide where the base ends. -/
theorem endsBase_toUpper (c : Char) : endsBase c.toUpper = endsBase c :=
  toUpper_of_no_letter (fun _ hd => endsBase_eq_false_of_wordChar (wordChar_of_letter hd)) c

theorem not_hasSuffix_of_wordChar {s : List Char} (h : ∀ c ∈ s, isWordChar c = true) :
    ¬ HasSuffix s := by
  rintro ⟨c, hc, hends⟩
  rw [endsBase_eq_false_of_wordChar (h c hc)] at hends
  cases hends

/-- A dotted name is its own base. -/
theorem not_hasSuffix_of_qualified {s : List Char} (h : isQualified s = true) : ¬ HasSuffix s := by
  rintro ⟨c, hc, hends⟩
  rcases wordChar_of_qualified h c hc with hword | rfl
  · rw [endsBase_eq_false_of_wordChar hword] at hends
    cases hends
  · exact absurd hends (by decide)

theorem baseTypeOf_of_not_hasSuffix {s : List Char} (h : ¬ HasSuffix s) : baseTypeOf s = upper s := by
  have hends : ∀ c ∈ s, endsBase c = false := fun c hc => Bool.eq_false_iff.mpr fun hc' => h ⟨c, hc, hc'⟩
  have hblank : ∀ c ∈ s, isBlank c = false := fun c hc => (Bool.or_eq_false_iff.mp (hends c hc)).2
  rw [baseTypeOf, trim_eq_self hblank]
  refine List.takeWhile_eq_self_iff.mpr (List.forall_mem_map.mpr ?_)
  intro c hc
  show (!endsBase c.toUpper) = true
  rw [endsBase_toUpper, hends c hc]
  rfl

namespace Language

/-- The words of a table of keywords are made of word characters. -/
theorem wordChar_of_isOneOf {words : List String}
    (hwords : (words.all fun w => w.toList.all isWordChar) = true) {s : List Char}
    (h : isOneOfIgnoringCase words s = true) : ∀ c ∈ s, isWordChar c = true := by
  obtain ⟨w, hw, heq⟩ := List.any_eq_true.mp h
  have hchars := List.all_eq_true.mp (List.all_eq_true.mp hwords w hw)
  rw [beq_iff_eq] at heq
  intro c hc
  refine isWordChar_of_toUpper (hchars _ ?_)
  rw [heq]
  exact List.mem_map_of_mem hc

theorem wordChar_of_isConversion {s : List Char} (h : isConversion s = true) :
    ∀ c ∈ s, isWordChar c = true := by
  have hpart : ∀ {part : List Char}, isConversionPart part = true → ∀ c ∈ part, isWordChar c = true := by
    intro part hpart c hc
    rw [isConversionPart, Bool.and_eq_true, List.all_eq_true] at hpart
    rw [isWordChar, Bool.or_right_comm, hpart.2 c hc]
    rfl
  rw [isConversion] at h
  cases hfind : find? "_TO_".toList (upper s) with
  | none =>
      rw [hfind] at h
      cases h
  | some i =>
      rw [hfind, Bool.and_eq_true] at h
      obtain ⟨rest, hrest⟩ := prefix_drop_of_find? hfind
      have hdrop : (upper s).drop (i + 4) = rest := by
        rw [← List.drop_drop, ← hrest]
        rfl
      have hupper : upper s = (upper s).take i ++ ("_TO_".toList ++ rest) := by
        rw [hrest, List.take_append_drop]
      intro c hc
      refine isWordChar_of_toUpper ?_
      have hmem : c.toUpper ∈ upper s := List.mem_map_of_mem hc
      rw [hupper, List.mem_append, List.mem_append] at hmem
      rcases hmem with hmem | hmem | hmem
      · exact hpart h.1 _ hmem
      · have hword : "_TO_".toList.all isWordChar = true := by decide
        exact List.all_eq_true.mp hword _ hmem
      · exact hpart h.2 _ (hdrop ▸ hmem)

/-- A standard name is its own base. -/
theorem not_hasSuffix_of_isBuiltin {s : List Char} (h : isBuiltin s = true) : ¬ HasSuffix s := by
  refine not_hasSuffix_of_wordChar ?_
  rcases Bool.or_eq_true_iff.mp h with h | h
  · exact wordChar_of_isOneOf (by decide +kernel) h
  · exact wordChar_of_isConversion h

/-- And so is a reserved word. -/
theorem not_hasSuffix_of_isReserved {s : List Char} (h : isReserved s = true) : ¬ HasSuffix s :=
  not_hasSuffix_of_wordChar (wordChar_of_isOneOf (by decide +kernel) h)

theorem isBuiltin_upper (s : List Char) : isBuiltin (upper s) = isBuiltin s := by
  rw [isBuiltin, isBuiltin, isStandard, isStandard, isOneOfIgnoringCase, isOneOfIgnoringCase, isConversion,
    isConversion, upper_upper]

/-- **With a standard base, just the texts without suffix are standard.** -/
theorem isBuiltin_iff_of_base {s : List Char} (h : isBuiltin (baseTypeOf s) = true) :
    isBuiltin s = true ↔ ¬ HasSuffix s := by
  refine ⟨not_hasSuffix_of_isBuiltin, ?_⟩
  intro hs
  rwa [baseTypeOf_of_not_hasSuffix hs, isBuiltin_upper] at h

end Language

/-! ## The dependencies of a body -/

namespace Node

open Callee

/-- The body calls through an instance whose type has this text. -/
def CallsThrough (body : Node) (vars : List Variable) (text : String) : Prop :=
  ∃ call v, body.Calls call ∧ GoesThrough vars call v ∧ typeText v = text

/-- The body calls this name, and through no instance. -/
def CallsDirectly (body : Node) (vars : List Variable) (name : String) : Prop :=
  body.Calls name ∧ ∀ v, ¬ GoesThrough vars name v

end Node

namespace Dependencies

open StLint.Language

variable {vars : List Variable} {body : Node} {name : String}

/-- **The standard base types among the dependencies of a body** are those of type texts, or of called
    names, that have a suffix. -/
theorem mem_units_iff_of_base (h : isBuiltin (baseTypeOf name.toList) = true) :
    name ∈ (ofBody vars body).units ↔
      HasSuffix name.toList ∧ (body.CallsThrough vars name ∨ body.CallsDirectly vars name) := by
  have hbuiltin : isBuiltin name.toList = false ↔ HasSuffix name.toList := by
    rw [← Bool.not_eq_true, isBuiltin_iff_of_base h, not_not]
  rw [mem_units_iff]
  constructor
  · rintro (⟨hcall, hthrough, htype, hnone⟩ | ⟨hcall, hnone, hname, -⟩)
    · exact ⟨hbuiltin.mp hnone, Or.inl ⟨_, _, hcall, hthrough, htype⟩⟩
    · exact ⟨hbuiltin.mp hname, Or.inr ⟨hcall, hnone⟩⟩
  · rintro ⟨hsuffix, ⟨call, v, hcall, hthrough, htype⟩ | ⟨hcall, hnone⟩⟩
    · exact .throughInstance hcall hthrough htype (hbuiltin.mpr hsuffix)
    · refine .direct hcall hnone (hbuiltin.mpr hsuffix) (Bool.eq_false_iff.mpr ?_)
      exact fun hreserved => not_hasSuffix_of_isReserved hreserved hsuffix

end Dependencies

/-! ## Units -/

namespace Pou

open StLint.Language

variable {label : String} {source : List Char} {u : Pou}

theorem callsNames_of_parse (hu : parse label source = .ok u) : u.body.CallsNames := by
  obtain ⟨index, d, -, rfl⟩ := exists_ofDeclaration_of_parse hu
  rw [body_ofDeclaration, bodyAt, Statement.Body.ofLines]
  exact Statement.Body.callsNames_ofSegments _ _

theorem callsNames_shift (n : Nat) (h : u.body.CallsNames) : (u.shift n).body.CallsNames := by
  rw [shift]
  by_cases hn : n = 0
  · rw [if_pos hn]
    exact h
  · rw [if_neg hn]
    exact h.shift n

/-- **The body of a unit calls by dotted names.** -/
theorem IsRead.callsNames (h : u.IsRead) : u.body.CallsNames :=
  h.induction (motive := fun u => u.body.CallsNames) (fun _ _ _ => callsNames_of_parse)
    fun n _ => callsNames_shift n

/-- No name has a standard function or function block as its base. -/
def OmitsStandard (names : List String) : Prop := ∀ name ∈ names, isStandard (baseTypeOf name.toList) = false

instance decidableOmitsStandard (names : List String) : Decidable (OmitsStandard names) :=
  inferInstanceAs (Decidable (∀ name ∈ names, _))

/-- **When standard function blocks are no dependencies.** The dependencies of a body omit them exactly if no
    type text through which it calls, and no name that it calls itself, is a standard base with a suffix. A
    body that is read calls no name with a suffix itself, so there the type texts alone decide. -/
theorem omitsStandard_iff (vars : List Variable) (body : Node) :
    (OmitsStandard (Dependencies.ofBody vars body).units ↔
      ∀ name, body.CallsThrough vars name ∨ body.CallsDirectly vars name →
        isStandard (baseTypeOf name.toList) = true → ¬ HasSuffix name.toList) ∧
    ∀ u : Pou, u.IsRead → u.vars = vars → u.body = body →
      (OmitsStandard u.dependencies ↔
        ∀ name, body.CallsThrough vars name → isStandard (baseTypeOf name.toList) = true →
          ¬ HasSuffix name.toList) := by
  have hbody : OmitsStandard (Dependencies.ofBody vars body).units ↔
      ∀ name, body.CallsThrough vars name ∨ body.CallsDirectly vars name →
        isStandard (baseTypeOf name.toList) = true → ¬ HasSuffix name.toList := by
    have hbuiltin : ∀ name : String, isStandard (baseTypeOf name.toList) = true →
        isBuiltin (baseTypeOf name.toList) = true := fun _ h => Bool.or_eq_true_iff.mpr (Or.inl h)
    constructor
    · intro homits name hcalls hbase hsuffix
      have hmem := (Dependencies.mem_units_iff_of_base (hbuiltin name hbase)).mpr ⟨hsuffix, hcalls⟩
      rw [homits name hmem] at hbase
      cases hbase
    · intro hnone name hmem
      refine Bool.eq_false_iff.mpr ?_
      intro hbase
      obtain ⟨hsuffix, hcalls⟩ := (Dependencies.mem_units_iff_of_base (hbuiltin name hbase)).mp hmem
      exact hnone name hcalls hbase hsuffix
  refine ⟨hbody, ?_⟩
  rintro u hread rfl rfl
  rw [hread.dependencies_eq, hbody]
  constructor
  · exact fun hnone name hthrough => hnone name (Or.inl hthrough)
  · rintro hnone name (hthrough | ⟨hcall, -⟩) hbase
    · exact hnone name hthrough hbase
    · exact not_hasSuffix_of_qualified (hread.callsNames.isQualified hcall)

/-- A timer with its parameters, and one without. -/
def timerSource : List Char :=
  "PROGRAM Main\nVAR\nDelay : TON(PT := T#5s);\nPause : TON;\nEND_VAR\nDelay();\nPause();\nEND_PROGRAM".toList

/-- The type of the first timer, cut at its parameters, is its one dependency. -/
theorem dependencies_timerSource :
    ∃ u, parse "main.st" timerSource = .ok u ∧ u.dependencies = ["TON(PT"] :=
  exists_ok_of_any (by decide +kernel)

/-- The unit calls through a type text that is a standard base with a suffix. -/
theorem omitsStandard_iff_timerSource :
    ∃ u : Pou, u.IsRead ∧ u.dependencies = ["TON(PT"] ∧ ¬ OmitsStandard u.dependencies ∧
      ∃ name, u.body.CallsThrough u.vars name ∧ isStandard (baseTypeOf name.toList) = true ∧
        HasSuffix name.toList := by
  obtain ⟨u, hu, hdependencies⟩ := dependencies_timerSource
  have hread : u.IsRead := ⟨"main.st", timerSource, Or.inl hu⟩
  have hnot : ¬ OmitsStandard u.dependencies := by
    rw [hdependencies]
    decide
  refine ⟨u, hread, hdependencies, hnot, ?_⟩
  rw [(omitsStandard_iff u.vars u.body).2 u hread rfl rfl] at hnot
  push Not at hnot
  exact hnot

/-- **A standard function block among the dependencies** of a unit. -/
theorem exists_standard_dependency :
    ∃ u, parse "main.st" timerSource = .ok u ∧
      ∃ name ∈ u.dependencies, isStandard (baseTypeOf name.toList) = true := by
  obtain ⟨u, hu, hdependencies⟩ := dependencies_timerSource
  exact ⟨u, hu, "TON(PT", hdependencies ▸ List.mem_singleton_self _, by decide⟩

end Pou

end StLint
