import StLint.Proofs.Pou.File

/-!
# The seam between two units

The file is cut along the code of the whole file, and then each segment is read from a fresh start.
The two views of a segment differ in one case only: when **a block comment is open across the seam**
in front of it. There text of the comment is read as code, and the segment may yield another unit or
none at all.

* `UnitSegment.Opens.declaration?_eq` — without an open comment the two views agree.
* `ReadsOpeners` — the file yields exactly the units whose declarations the cut recognised.
* `readsOpeners_iff` — **exactly which files** are read so.
* `not_readsOpeners_commentAcrossSeam` — a file of two units that is rejected.
-/

namespace StLint

open Text Source

/-- **Without an open comment the two views agree**: a segment that starts in code begins with the
    declaration that the cut recognised. -/
theorem UnitSegment.Opens.declaration?_eq {source : List Char} {s : UnitSegment} {d : Declaration}
    (h : s.Opens (lines (normalizeLineEndings source)) d)
    (hcode : Region.afterLines .code ((lines (normalizeLineEndings source)).take s.lineOffset)
      ≠ .blockComment) : declaration? s.text = some d := by
  have hstart := (Region.afterLines_code _).resolve_right hcode
  have hopens := h.opens
  rw [hstart] at hopens
  rw [declaration?, lines_stripComments, h.normal]
  exact hopens

namespace Pou

/-- A file is read exactly when the cut finds a unit in it, and then it yields the units whose
    declarations the cut recognised, in order. -/
def ReadsOpeners (label : String) (source : List Char) : Prop :=
  ((∃ us, parseFile label source = .ok us) ↔ splitUnits source ≠ []) ∧
    ∀ us, parseFile label source = .ok us →
      us.map (fun u => (u.kind, u.name))
        = (openers source).map fun d => (d.kind, String.ofList d.name)

/-- Each segment yields what the cut recognised exactly when the file does. -/
private theorem exists_forall₂_iff {α β γ : Type} {P : α → β → Prop} {Q : β → γ → Prop}
    {as : List α} {cs : List γ} :
    List.Forall₂ (fun a c => ∃ b, P a b ∧ Q b c) as cs
      ↔ ∃ bs, List.Forall₂ P as bs ∧ List.Forall₂ Q bs cs := by
  constructor
  · intro h
    induction h with
    | nil => exact ⟨[], List.Forall₂.nil, List.Forall₂.nil⟩
    | cons hac _ ih =>
        obtain ⟨b, hab, hbc⟩ := hac
        obtain ⟨bs, has, hcs⟩ := ih
        exact ⟨b :: bs, List.Forall₂.cons hab has, List.Forall₂.cons hbc hcs⟩
  · rintro ⟨bs, has, hcs⟩
    induction has generalizing cs with
    | nil =>
        rw [List.forall₂_nil_left_iff.mp hcs]
        exact List.Forall₂.nil
    | cons hab _ ih =>
        obtain ⟨c, cs', hbc, hcs', rfl⟩ := List.forall₂_cons_left_iff.mp hcs
        exact List.Forall₂.cons ⟨_, hab, hbc⟩ (ih hcs')

/-- The segments begin, read on their own, with what was recognised exactly when they are read as
    units of these kinds and names. -/
private theorem forall₂_declaration_iff (label : String) (source : List Char) :
    List.Forall₂ (fun s d => ∃ e, declaration? s.text = some e ∧ e.kind = d.kind ∧ e.name = d.name)
        (splitUnits source) (openers source)
      ↔ ∃ us, List.Forall₂ (fun s u => ofSegment label s = .ok u) (splitUnits source) us ∧
          us.map (fun u => (u.kind, u.name))
            = (openers source).map fun d => (d.kind, String.ofList d.name) := by
  have hpair : ∀ us : List Pou, us.map (fun u => (u.kind, u.name))
        = (openers source).map (fun d => (d.kind, String.ofList d.name))
      ↔ List.Forall₂ (fun (u : Pou) (d : Declaration) => u.kind = d.kind ∧
          u.name = String.ofList d.name) us (openers source) := by
    intro us
    rw [← List.forall₂_eq_eq_eq, List.forall₂_map_left_iff, List.forall₂_map_right_iff]
    simp only [Prod.mk.injEq]
  simp only [hpair, ← exists_forall₂_iff, exists_ofSegment_iff]

/-- A file yields the recognised units exactly when each segment, read on its own, begins with the
    declaration that was recognised for it. -/
theorem readsOpeners_iff_forall₂ (label : String) (source : List Char) :
    ReadsOpeners label source
      ↔ List.Forall₂ (fun s d => ∃ e, declaration? s.text = some e ∧ e.kind = d.kind ∧ e.name = d.name)
          (splitUnits source) (openers source) := by
  have hlength := (forall₂_opens source).length_eq
  rw [forall₂_declaration_iff label source]
  constructor
  · intro h
    cases hs : splitUnits source with
    | nil =>
        refine ⟨[], List.Forall₂.nil, ?_⟩
        rw [hs] at hlength
        rw [List.length_eq_zero_iff.mp hlength.symm]
        rfl
    | cons s ss =>
        obtain ⟨us, hus⟩ := h.1.mpr (by rw [hs]; exact List.cons_ne_nil s ss)
        rw [← hs]
        exact ⟨us, (parseFile_eq_ok_iff.mp hus).2, h.2 us hus⟩
  · rintro ⟨us, hus, hnames⟩
    refine ⟨⟨?_, fun hne => ⟨us, parseFile_eq_ok_iff.mpr ⟨?_, hus⟩⟩⟩, fun vs hvs => ?_⟩
    · rintro ⟨vs, hvs⟩ hnil
      obtain ⟨hne, hall⟩ := parseFile_eq_ok_iff.mp hvs
      rw [hnil, List.forall₂_nil_left_iff] at hall
      exact hne hall
    · rintro rfl
      exact hne (List.forall₂_nil_right_iff.mp hus)
    · rw [← Except.ok.inj ((mapM_eq_ok_iff.mpr (parseFile_eq_ok_iff.mp hvs).2).symm.trans
        (mapM_eq_ok_iff.mpr hus))] at hnames
      exact hnames

/-- **Exactly which files are read as they are cut.** A file has a segment when a line of its code
    declares a unit. It yields the recognised units exactly when every segment in front of which a
    block comment is open begins, read on its own, with a declaration of the recognised kind and
    name; segments that start in code always do. -/
theorem readsOpeners_iff (label : String) (source : List Char) :
    (splitUnits source ≠ [] ↔
        ∃ code ∈ lines (stripComments source), (Declaration.ofLine? code).isSome = true) ∧
      (ReadsOpeners label source ↔
        ∀ s d, (s, d) ∈ (splitUnits source).zip (openers source) →
          Region.afterLines .code ((lines (normalizeLineEndings source)).take s.lineOffset)
              = .blockComment →
            ∃ e, declaration? s.text = some e ∧ e.kind = d.kind ∧ e.name = d.name) := by
  refine ⟨splitUnits_ne_nil_iff source, ?_⟩
  have hopens := forall₂_opens source
  rw [readsOpeners_iff_forall₂, List.forall₂_iff_zip]
  constructor
  · intro h s d hsd _
    exact h.2 hsd
  · intro h
    refine ⟨hopens.length_eq, fun {s d} hsd => ?_⟩
    by_cases hblock : Region.afterLines .code
        ((lines (normalizeLineEndings source)).take s.lineOffset) = .blockComment
    · exact h s d hsd hblock
    · exact ⟨d, (List.forall₂_zip hopens hsd).declaration?_eq hblock, rfl, rfl⟩

/-- Two units, where a comment behind the first one runs on into the line of the second. -/
def commentAcrossSeam : List Char :=
  "PROGRAM A\nEND_PROGRAM (*\n// *) PROGRAM B\nEND_PROGRAM".toList

/-- The comment ends before the second declaration, but a segment that is read on its own sees a line
    comment there, and the file is rejected. -/
theorem not_readsOpeners_commentAcrossSeam : ¬ ReadsOpeners "f.st" commentAcrossSeam := by
  intro h
  obtain ⟨us, hus⟩ := h.1.mpr (by decide)
  have hfails : (parseFile "f.st" commentAcrossSeam).toBool = false := by decide
  rw [hus] at hfails
  exact nomatch hfails

end Pou

end StLint
