import StLint.Pou.Parse
import StLint.Proofs.Pou.Segment
import StLint.Proofs.Pou.Translation

/-!
# The units of a file

A file is read segment by segment, and each segment is read **on its own**: its comments are removed
from a fresh start, and the first declaration in what is left names the unit.

* `declaration?` — the declaration that a text begins with when it is read on its own.
* `parse_eq_error`, `exists_parse_eq_ok` — a text is a unit exactly when it begins with one.
* `parseFile_eq_ok_iff` — a file is read when it has a segment and each of them is read.
* `exists_ofSegment_of_mem` — each of its units is that of a segment.
* `IsRead`, `IsRead.induction` — units that are read, and what holds of all of them.
-/

namespace StLint

open Text Source

/-! ## A text on its own -/

/-- The declaration that a text begins with when it is read on its own. -/
def declaration? (text : List Char) : Option Declaration :=
  (lines (stripComments text)).findSome? Declaration.ofLine?

/-- Blank lines and the ends of lines play no part in the search. -/
theorem map_snd_findDeclaration?_codeLines (text : List Char) :
    (findDeclaration? (codeLines (normalizeLineEndings text))).map Prod.snd = declaration? text := by
  rw [map_snd_findDeclaration?, codeLines,
    findSome?_collapse Declaration.ofLine?_nil Declaration.ofLine?_trimEnd, declaration?,
    lines_stripComments, lines_stripComments, normalizeLineEndings_idem]

namespace Pou

theorem parse_eq_error (label : String) {text : List Char} (h : declaration? text = none) :
    parse label text = .error (.noUnitDeclaration label) := by
  rw [← map_snd_findDeclaration?_codeLines, Option.map_eq_none_iff] at h
  rw [parse_eq_find, h]

/-- A text that begins with a declaration is its unit. -/
theorem exists_parse_eq_ok (label : String) {text : List Char} {d : Declaration}
    (h : declaration? text = some d) :
    ∃ u, parse label text = .ok u ∧ u.kind = d.kind ∧ u.name = String.ofList d.name := by
  rw [← map_snd_findDeclaration?_codeLines, Option.map_eq_some_iff] at h
  obtain ⟨⟨i, e⟩, hfind, rfl⟩ := h
  refine ⟨ofDeclaration label text (normalizeLineEndings text)
    (codeLines (normalizeLineEndings text)) i e, ?_, rfl, rfl⟩
  rw [parse_eq_find, hfind]

theorem kind_shift (n : Nat) (u : Pou) : (u.shift n).kind = u.kind := by
  rw [shift]
  by_cases hn : n = 0
  · rw [if_pos hn]
  · rw [if_neg hn]

theorem name_shift (n : Nat) (u : Pou) : (u.shift n).name = u.name := by
  rw [shift]
  by_cases hn : n = 0
  · rw [if_pos hn]
  · rw [if_neg hn]

/-- A segment is read as a unit of some kind and name exactly when it begins with a declaration of
    them. -/
theorem exists_ofSegment_iff (label : String) (s : UnitSegment) (kind : UnitKind)
    (name : List Char) :
    (∃ u, ofSegment label s = .ok u ∧ u.kind = kind ∧ u.name = String.ofList name)
      ↔ ∃ d, declaration? s.text = some d ∧ d.kind = kind ∧ d.name = name := by
  cases hd : declaration? s.text with
  | none =>
      rw [ofSegment, parse_eq_error label hd]
      constructor
      · rintro ⟨u, hu, -⟩
        exact nomatch hu
      · rintro ⟨d, hd, -⟩
        exact nomatch hd
  | some e =>
      obtain ⟨u, hu, hkind, hname⟩ := exists_parse_eq_ok label hd
      have hread : ofSegment label s = .ok (u.shift s.lineOffset) := by rw [ofSegment, hu]; rfl
      rw [hread]
      constructor
      · rintro ⟨v, hv, hk, hn⟩
        rw [← Except.ok.inj hv, kind_shift, hkind] at hk
        rw [← Except.ok.inj hv, name_shift, hname, String.ofList_inj] at hn
        exact ⟨e, rfl, hk, hn⟩
      · rintro ⟨d, hd, rfl, rfl⟩
        obtain rfl := Option.some.inj hd
        exact ⟨_, rfl, (kind_shift _ u).trans hkind, (name_shift _ u).trans hname⟩

/-- A segment is read as the unit of its text, moved down to where it stands. -/
theorem exists_parse_of_ofSegment {label : String} {s : UnitSegment} {u : Pou}
    (hu : ofSegment label s = .ok u) :
    ∃ v, parse label s.text = .ok v ∧ v.shift s.lineOffset = u := by
  rw [ofSegment] at hu
  cases hp : parse label s.text with
  | error e =>
      rw [hp] at hu
      cases hu
  | ok v =>
      rw [hp] at hu
      exact ⟨v, rfl, Except.ok.inj hu⟩

/-! ## Segment by segment -/

/-- Reading all of a list gives what reading each gives. -/
theorem mapM_eq_ok_iff {α β ε : Type} {f : α → Except ε β} {as : List α} {bs : List β} :
    as.mapM f = .ok bs ↔ List.Forall₂ (fun a b => f a = .ok b) as bs := by
  induction as generalizing bs with
  | nil =>
      rw [List.mapM_nil, List.forall₂_nil_left_iff]
      constructor
      · intro h
        exact (Except.ok.inj h).symm
      · rintro rfl
        rfl
  | cons a as ih =>
      rw [List.mapM_cons, List.forall₂_cons_left_iff]
      constructor
      · intro h
        cases ha : f a with
        | error e =>
            rw [ha] at h
            exact nomatch h
        | ok b =>
            rw [ha] at h
            cases has : as.mapM f with
            | error e =>
                rw [has] at h
                exact nomatch h
            | ok cs =>
                rw [has] at h
                exact ⟨b, cs, rfl, ih.mp has, (Except.ok.inj h).symm⟩
      · rintro ⟨b, cs, ha, hcs, rfl⟩
        rw [ha, ih.mpr hcs]
        rfl

/-- **A file is read** when it has a segment and each of its segments is read. -/
theorem parseFile_eq_ok_iff {label : String} {source : List Char} {us : List Pou} :
    parseFile label source = .ok us
      ↔ us ≠ [] ∧ List.Forall₂ (fun s u => ofSegment label s = .ok u) (splitUnits source) us := by
  rw [← mapM_eq_ok_iff, parseFile]
  cases hread : (splitUnits source).mapM (ofSegment label) with
  | error e =>
      constructor
      · intro h
        exact nomatch h
      · intro h
        exact nomatch h.2
  | ok vs =>
      cases vs with
      | nil =>
          constructor
          · intro h
            exact nomatch h
          · rintro ⟨hne, h⟩
            exact absurd (Except.ok.inj h).symm hne
      | cons v vs =>
          constructor
          · intro h
            rw [← Except.ok.inj h]
            exact ⟨List.cons_ne_nil v vs, rfl⟩
          · rintro ⟨-, h⟩
            exact h

/-- What is paired off on the right has a partner on the left. -/
theorem exists_left_of_forall₂ {α β : Type} {R : α → β → Prop} {as : List α} {bs : List β}
    (h : List.Forall₂ R as bs) {b : β} (hb : b ∈ bs) : ∃ a ∈ as, R a b := by
  induction h with
  | nil => exact nomatch hb
  | cons hab _ ih =>
      rcases List.mem_cons.mp hb with rfl | hb
      · exact ⟨_, List.mem_cons_self .., hab⟩
      · obtain ⟨a, ha, hr⟩ := ih hb
        exact ⟨a, List.mem_cons_of_mem _ ha, hr⟩

/-- Each unit of a file is read from one of its segments. -/
theorem exists_ofSegment_of_mem {label : String} {source : List Char} {us : List Pou}
    (h : parseFile label source = .ok us) {u : Pou} (hu : u ∈ us) :
    ∃ s ∈ splitUnits source, ofSegment label s = .ok u :=
  exists_left_of_forall₂ (parseFile_eq_ok_iff.mp h).2 hu

/-! ## Units that are read -/

/-- A unit is read from a source, on its own or with the other units of a file. -/
def IsRead (u : Pou) : Prop :=
  ∃ label source, parse label source = .ok u ∨ ∃ us, parseFile label source = .ok us ∧ u ∈ us

/-- **What holds of a unit that is read on its own** and is kept by a move holds of every unit that is
    read. -/
theorem IsRead.induction {motive : Pou → Prop} {u : Pou} (h : u.IsRead)
    (alone : ∀ label source v, parse label source = .ok v → motive v)
    (moved : ∀ n v, motive v → motive (v.shift n)) : motive u := by
  obtain ⟨label, source, hparse | ⟨us, hfile, hu⟩⟩ := h
  · exact alone label source u hparse
  · -- a unit of a file is moved down to where its segment stands
    obtain ⟨s, -, hsegment⟩ := exists_ofSegment_of_mem hfile hu
    obtain ⟨v, hv, rfl⟩ := exists_parse_of_ofSegment hsegment
    exact moved _ v (alone label s.text v hv)

theorem dependencies_of_parse {label : String} {source : List Char} {u : Pou}
    (h : parse label source = .ok u) : u.dependencies = (Dependencies.ofBody u.vars u.body).units := by
  obtain ⟨index, d, -, rfl⟩ := exists_ofDeclaration_of_parse h
  rw [ofDeclaration]

/-- The dependencies of a moved unit are those of its moved body. -/
theorem dependencies_shift (n : Nat) {u : Pou}
    (h : u.dependencies = (Dependencies.ofBody u.vars u.body).units) :
    (u.shift n).dependencies = (Dependencies.ofBody (u.shift n).vars (u.shift n).body).units := by
  by_cases hn : n = 0
  · rw [shift, if_pos hn]
    exact h
  · rw [shift, if_neg hn]
    exact h.trans (congrArg Dependencies.units (Dependencies.ofBody_shift n u.vars u.body).symm)

/-- **The dependencies of a unit are those of its body.** -/
theorem IsRead.dependencies_eq {u : Pou} (h : u.IsRead) :
    u.dependencies = (Dependencies.ofBody u.vars u.body).units :=
  h.induction (fun _ _ _ => dependencies_of_parse) fun n _ => dependencies_shift n

/-! ## Evaluation -/

/-- A property of a result that is read, by evaluation. -/
theorem exists_ok_of_any {α ε : Type} {r : Except ε α} {p : α → Prop} [DecidablePred p]
    (h : r.toOption.any (fun a => p a) = true) : ∃ a, r = .ok a ∧ p a := by
  cases r with
  | error e => exact nomatch h
  | ok a => exact ⟨a, rfl, of_decide_eq_true h⟩

end Pou

end StLint
