import Mathlib.Data.List.Induction
import StLint.Proofs.Store.Agreement
import StLint.Store.Memory

/-!
# Files while operations overlap

Saving a file and deleting a project take two steps each, and other operations may come between them.
**A file outlives its project only if the project was deleted from the first step to the last between
the two steps of a save**, and a file that has been saved stays until it is replaced or deleted, where
a deletion that had begun before counts by its last step.

* `Memory.FirstStep` — what the first step of an operation can do.
* `Interleaving.Tracks` — what is under way was begun, and no number was given twice.
* `Interleaving.Owned` — why a file or a save without a stored project is there.
* `Interleaving.Kept` — what becomes of a file that has been saved.
* `Interleaving.files_of_run?` — both, for every run.
-/

namespace StLint.Store

namespace Memory

variable {m : Memory}

/-- The operation that a second step ends. -/
def Rest.operation : Rest → Operation
  | .saveFile f => .saveFile f
  | .dropFiles projectId => .deleteProject projectId
  | .listFiles projectId => .listFiles projectId
  | .loadSources projectId => .loadSources projectId

theorem Rest.operation_injective : Function.Injective Rest.operation := by
  intro r r' h
  cases r with
  | saveFile f | dropFiles id | listFiles id | loadSources id =>
      cases r' <;> cases h
      rfl

/-! ## Steps on the maps -/

theorem Ordered.hasProject_putProject (h : m.Ordered) (p : Project) {id : String}
    (hid : m.hasProject id = true) : (m.putProject p).hasProject id = true := by
  obtain ⟨q, hq, rfl⟩ := hasProject_iff.mp hid
  have hmem : ∀ r, r ∈ (m.putProject p).projects ↔ r = p ∨ r ∈ m.projects ∧ r.id ≠ p.id := by
    intro r
    have hput := (insertKeyed_perm (a := p) isKeyOrder_idBefore h.projects).mem_iff (a := r)
    rw [List.mem_cons, List.mem_filter, decide_eq_true_eq] at hput
    exact hput
  rw [hasProject_iff]
  by_cases hqp : q.id = p.id
  · exact ⟨p, (hmem p).mpr (Or.inl rfl), hqp.symm⟩
  · exact ⟨q, (hmem q).mpr (Or.inr ⟨hq, hqp⟩), rfl⟩

theorem hasProject_dropProject {id other : String} (hne : other ≠ id)
    (h : m.hasProject other = true) : (m.dropProject id).hasProject other = true := by
  obtain ⟨p, hp, rfl⟩ := hasProject_iff.mp h
  exact hasProject_iff.mpr ⟨p, List.mem_filter.mpr ⟨hp, decide_eq_true hne⟩, rfl⟩

theorem Ordered.mem_putFile (h : m.Ordered) (f : SourceFile) {g : SourceFile} :
    g ∈ (m.putFile f).files ↔ g = f ∨ g ∈ m.files ∧ fileKey g ≠ fileKey f := by
  rw [(h.putFile_perm f).mem_iff, List.mem_cons, List.mem_filter, decide_eq_true_eq]

theorem Ordered.file?_eq_some (h : m.Ordered) {f : SourceFile} (hf : f ∈ m.files) :
    m.file? f.projectId f.fileName = some f := by
  cases hfind : m.file? f.projectId f.fileName with
  | none => exact absurd (decide_eq_true rfl) (List.find?_eq_none.mp hfind f hf)
  | some g =>
      have hkey : fileKey g = fileKey f := by simpa [fileKey] using List.find?_some hfind
      rw [h.eq_of_fileKey_eq (List.mem_of_find?_eq_some hfind) hf hkey]

/-- **What a first step can do**: answer without a change of the files, where a save is answered with
    an error alone, take one file or one project away, or look for the project and leave the rest for
    later. -/
inductive FirstStep (m : Memory) : Operation → Memory × (Rest ⊕ Answer) → Prop
  | answered {op : Operation} {m' : Memory} (answer : Answer) (hordered : m'.Ordered)
      (hprojects : ∀ id, m.hasProject id = true → m'.hasProject id = true)
      (hfiles : m'.files = m.files) (hsave : ∀ f, op = .saveFile f → ∃ e, answer = .error e) :
      FirstStep m op (m', .inr answer)
  | fileDropped (projectId fileName : String) (answer : Answer) :
      FirstStep m (.deleteFile projectId fileName) (m.dropFile projectId fileName, .inr answer)
  | projectDropped (id : String) :
      FirstStep m (.deleteProject id) (m.dropProject id, .inl (.dropFiles id))
  | checked {op : Operation} (rest : Rest) (hop : rest.operation = op)
      (hsave : ∀ f, rest = .saveFile f → m.hasProject f.projectId = true) :
      FirstStep m op (m, .inl rest)

theorem firstStep_failed (h : m.Ordered) (op : Operation) (e : StoreError) :
    m.FirstStep op (m, .inr (.error e)) :=
  .answered _ h (fun _ hid => hid) rfl fun _ _ => ⟨e, rfl⟩

theorem firstStep_withProject (h : m.Ordered) {id : String} (rest : Rest)
    (hsave : ∀ f, rest = .saveFile f → f.projectId = id) :
    m.FirstStep rest.operation (m.withProject id rest) := by
  rw [withProject]
  by_cases hid : m.hasProject id = true
  · rw [if_pos hid]
    refine .checked rest rfl ?_
    intro f hf
    rw [hsave f hf]
    exact hid
  · rw [if_neg hid]
    exact firstStep_failed h _ _

theorem firstStep_create (h : m.Ordered) (p : Project) :
    m.FirstStep (.createProject p) (m.begin (.createProject p)) := by
  rw [begin, create]
  cases p.validate with
  | error e => exact firstStep_failed h _ _
  | ok =>
      dsimp only
      by_cases hid : m.hasProject p.id = true
      · rw [if_pos hid]
        exact firstStep_failed h _ _
      · rw [if_neg hid]
        exact .answered _ (h.putProject p) (fun _ => h.hasProject_putProject p) rfl
          fun _ hop => by cases hop

theorem firstStep_update (h : m.Ordered) (p : Project) :
    m.FirstStep (.updateProject p) (m.begin (.updateProject p)) := by
  rw [begin, update]
  cases p.validate with
  | error e => exact firstStep_failed h _ _
  | ok =>
      dsimp only
      cases m.project? p.id with
      | none => exact firstStep_failed h _ _
      | some stored =>
          exact .answered _ (h.putProject _) (fun _ => h.hasProject_putProject _) rfl
            fun _ hop => by cases hop

/-- **Every first step is one of these**, one case for each operation. -/
theorem firstStep_begin (h : m.Ordered) (op : Operation) : m.FirstStep op (m.begin op) := by
  cases op with
  | createProject p => exact firstStep_create h p
  | updateProject p => exact firstStep_update h p
  | getProject | listProjects | getFile => exact .answered _ h (fun _ hid => hid) rfl nofun
  | listFiles projectId =>
      exact firstStep_withProject h (.listFiles projectId) nofun
  | loadSources projectId =>
      exact firstStep_withProject h (.loadSources projectId) nofun
  | deleteProject id =>
      rw [begin]
      by_cases hid : m.hasProject id = true
      · rw [if_pos hid]
        exact .projectDropped id
      · rw [if_neg hid]
        exact firstStep_failed h _ _
  | saveFile f =>
      rw [begin]
      cases f.validate with
      | error e => exact firstStep_failed h _ _
      | ok =>
          refine firstStep_withProject h (.saveFile f) ?_
          intro g hg
          cases hg
          rfl
  | deleteFile projectId fileName =>
      rw [begin]
      by_cases hfile : (m.file? projectId fileName).isSome = true
      · rw [if_pos hfile]
        exact .fileDropped projectId fileName _
      · rw [if_neg hfile]
        exact firstStep_failed h _ _

theorem FirstStep.ordered {op : Operation} {r : Memory × (Rest ⊕ Answer)} (h : m.FirstStep op r)
    (hm : m.Ordered) : r.1.Ordered := by
  cases h with
  | answered _ hordered => exact hordered
  | fileDropped projectId fileName => exact hm.dropFile projectId fileName
  | projectDropped id => exact hm.dropProject id
  | checked => exact hm

theorem Ordered.finish (h : m.Ordered) (rest : Rest) : (m.finish rest).1.Ordered := by
  cases rest with
  | saveFile f => exact h.putFile f
  | dropFiles id => exact h.dropFiles id
  | listFiles | loadSources => exact h

end Memory

/-! ## Steps of a run -/

/-- The number of the operation that takes a step. -/
def Event.number : Event → Nat
  | .begin number _ | .finish number => number

namespace Interleaving

open Memory (Rest fileKey FirstStep)
open scoped List

variable {es : List Event} {s s' : Interleaving} {e : Event} {number : Nat}

theorem isKnown_iff : s.isKnown number = true ↔
    (∃ rest, (number, rest) ∈ s.pending) ∨ ∃ answer, (number, answer) ∈ s.answers := by
  rw [isKnown, Bool.or_eq_true]
  simp [List.lookup_isSome_iff]

/-- What a step of a run does. -/
inductive Step (s : Interleaving) : Event → Interleaving → Prop
  | answers {number : Nat} {op : Operation} {m : Memory} {answer : Answer}
      (hnew : ¬ s.isKnown number = true) (hfirst : s.memory.FirstStep op (m, .inr answer)) :
      Step s (.begin number op) ⟨m, s.pending, (number, answer) :: s.answers⟩
  | begins {number : Nat} {op : Operation} {m : Memory} {rest : Rest}
      (hnew : ¬ s.isKnown number = true) (hfirst : s.memory.FirstStep op (m, .inl rest)) :
      Step s (.begin number op) ⟨m, (number, rest) :: s.pending, s.answers⟩
  | ends {number : Nat} {rest : Rest} (hpending : (number, rest) ∈ s.pending) :
      Step s (.finish number) ⟨(s.memory.finish rest).1, s.pending.filter fun p => p.1 ≠ number,
        (number, (s.memory.finish rest).2) :: s.answers⟩

theorem step_of_step? (hs : s.memory.Ordered) (h : s.step? e = some s') : Step s e s' := by
  cases e with
  | begin number op =>
      rw [step?, begin?] at h
      by_cases hknown : s.isKnown number = true
      · rw [if_pos hknown] at h
        exact nomatch h
      · rw [if_neg hknown] at h
        have hfirst := Memory.firstStep_begin hs op
        generalize s.memory.begin op = r at h hfirst
        obtain ⟨m, rest | answer⟩ := r
        · rw [← Option.some.inj h]
          exact .begins hknown hfirst
        · rw [← Option.some.inj h]
          exact .answers hknown hfirst
  | finish number =>
      rw [step?, finish?] at h
      obtain ⟨rest, hlookup, rfl⟩ := Option.map_eq_some_iff.mp h
      obtain ⟨before, behind, hpending, -⟩ := List.lookup_eq_some_iff.mp hlookup
      refine .ends ?_
      rw [hpending]
      exact List.mem_append_right before (List.mem_cons_self ..)

/-- A number that was given stays known, and a step makes its own number known. -/
theorem Step.isKnown (h : Step s e s') (hnumber : number = e.number ∨ s.isKnown number = true) :
    s'.isKnown number = true := by
  rw [isKnown_iff]
  cases h with
  | @answers own op m answer =>
      rcases hnumber with rfl | hknown
      · exact Or.inr ⟨answer, List.mem_cons_self ..⟩
      · rcases isKnown_iff.mp hknown with hr | ⟨a, ha⟩
        · exact Or.inl hr
        · exact Or.inr ⟨a, List.mem_cons_of_mem _ ha⟩
  | @begins own op m rest =>
      rcases hnumber with rfl | hknown
      · exact Or.inl ⟨rest, List.mem_cons_self ..⟩
      · rcases isKnown_iff.mp hknown with ⟨r, hr⟩ | ha
        · exact Or.inl ⟨r, List.mem_cons_of_mem _ hr⟩
        · exact Or.inr ha
  | @ends own rest =>
      by_cases hown : number = own
      · subst hown
        exact Or.inr ⟨_, List.mem_cons_self ..⟩
      · rcases isKnown_iff.mp (hnumber.resolve_left hown) with ⟨r, hr⟩ | ⟨a, ha⟩
        · exact Or.inl ⟨r, List.mem_filter.mpr ⟨hr, decide_eq_true hown⟩⟩
        · exact Or.inr ⟨a, List.mem_cons_of_mem _ ha⟩

theorem exists_of_run?_append {s₀ : Interleaving} {es' : List Event}
    (h : s₀.run? (es ++ es') = some s) : ∃ s₁, s₀.run? es = some s₁ ∧ s₁.run? es' = some s := by
  rw [run?, List.foldlM_append] at h
  exact Option.bind_eq_some_iff.mp h

theorem step?_of_run?_singleton (h : s.run? [e] = some s') : s.step? e = some s' := by
  rw [run?, List.foldlM_cons] at h
  obtain ⟨behind, hbehind, heq⟩ := Option.bind_eq_some_iff.mp h
  cases heq
  exact hbehind

/-- A run with an end of which something can be decided. -/
theorem exists_run?_of_any {s₀ : Interleaving} {p : Interleaving → Prop} [DecidablePred p]
    (h : (s₀.run? es).any (fun s => p s) = true) : ∃ s, s₀.run? es = some s ∧ p s := by
  obtain ⟨s, hs, hp⟩ := (Option.any_eq_true _ _).mp h
  exact ⟨s, hs, of_decide_eq_true hp⟩

/-- What holds at the start and is kept by each step holds of every run. -/
theorem run?_induction {s₀ : Interleaving} {P : List Event → Interleaving → Prop} (start : P [] s₀)
    (step : ∀ {es s e s'}, P es s → s.step? e = some s' → P (es ++ [e]) s') (es : List Event)
    {s : Interleaving} (h : s₀.run? es = some s) : P es s := by
  induction es using List.reverseRecOn generalizing s with
  | nil =>
      cases h
      exact start
  | append_singleton es e ih =>
      obtain ⟨before, hbefore, hlast⟩ := exists_of_run?_append h
      exact step (ih hbefore) (step?_of_run?_singleton hlast)

/-! ## What is under way -/

/-- What is known of the operations after the steps `es`. -/
structure Tracks (es : List Event) (s : Interleaving) : Prop where
  ordered : s.memory.Ordered
  started : ∀ {number rest}, (number, rest) ∈ s.pending → .begin number rest.operation ∈ es
  known : ∀ {e}, e ∈ es → s.isKnown e.number = true
  /-- No number is given twice. -/
  once : ∀ {number op op'}, .begin number op ∈ es → .begin number op' ∈ es → op = op'
  /-- A save succeeds at its end. -/
  saved : ∀ {number f v}, .begin number (.saveFile f) ∈ es → (number, .ok v) ∈ s.answers →
    .finish number ∈ es

theorem mem_concat_iff {e' : Event} : e' ∈ es ++ [e] ↔ e' ∈ es ∨ e' = e := by
  rw [List.mem_append, List.mem_singleton]

namespace Tracks

theorem start : Tracks [] .start := ⟨Memory.ordered_empty, nofun, nofun, nofun, nofun⟩

/-- An operation that is under way has one rest. -/
theorem rest_eq (h : Tracks es s) {rest rest' : Rest} (hr : (number, rest) ∈ s.pending)
    (hr' : (number, rest') ∈ s.pending) : rest = rest' :=
  Rest.operation_injective (h.once (h.started hr) (h.started hr'))

/-- A new number was given to no operation before. -/
theorem once_begin (h : Tracks es s) {op : Operation} (hnew : ¬ s.isKnown number = true)
    {other : Nat} {op₁ op₂ : Operation} (h₁ : .begin other op₁ ∈ es ++ [.begin number op])
    (h₂ : .begin other op₂ ∈ es ++ [.begin number op]) : op₁ = op₂ := by
  rcases mem_concat_iff.mp h₁ with h₁ | h₁
  · rcases mem_concat_iff.mp h₂ with h₂ | h₂
    · exact h.once h₁ h₂
    · cases h₂
      exact absurd (h.known h₁) hnew
  · rcases mem_concat_iff.mp h₂ with h₂ | h₂
    · cases h₁
      exact absurd (h.known h₂) hnew
    · cases h₁
      cases h₂
      rfl

/-- An operation that has been answered does not begin now. -/
theorem begun_of_answered {own : Nat} {op op' : Operation} {answer : Answer}
    (hnew : ¬ s.isKnown number = true)
    (hbegun : .begin own op' ∈ es ∨ Event.begin own op' = .begin number op)
    (hanswer : (own, answer) ∈ s.answers) : .begin own op' ∈ es := by
  rcases hbegun with hbegun | hbegun
  · exact hbegun
  · cases hbegun
    exact absurd (isKnown_iff.mpr (Or.inr ⟨answer, hanswer⟩)) hnew

/-- What is under way behind a step began before it or with it. -/
theorem started_step (h : Tracks es s) (hstep : Step s e s') {own : Nat} {rest : Rest}
    (hr : (own, rest) ∈ s'.pending) : .begin own rest.operation ∈ es ++ [e] := by
  rw [mem_concat_iff]
  cases hstep with
  | answers => exact Or.inl (h.started hr)
  | begins _ hfirst =>
      rcases List.mem_cons.mp hr with hr | hr
      · cases hr
        cases hfirst with
        | projectDropped => exact Or.inr rfl
        | checked _ hop => exact Or.inr (hop ▸ rfl)
      · exact Or.inl (h.started hr)
  | ends => exact Or.inl (h.started (List.mem_filter.mp hr).1)

/-- A save that has succeeded behind a step ended before it or with it. -/
theorem saved_step (h : Tracks es s) (hstep : Step s e s') {own : Nat} {f : SourceFile}
    {v : Value} (hsave : .begin own (.saveFile f) ∈ es ++ [e])
    (hanswer : (own, .ok v) ∈ s'.answers) : .finish own ∈ es ++ [e] := by
  rw [mem_concat_iff] at hsave ⊢
  cases hstep with
  | answers hnew hfirst =>
      rcases List.mem_cons.mp hanswer with hanswer | hanswer
      · cases hanswer
        rcases hsave with hsave | hsave
        · exact absurd (h.known hsave) hnew
        · -- the first step of a save does not succeed
          cases hsave
          cases hfirst with
          | answered _ _ _ _ hfailed =>
              obtain ⟨e, he⟩ := hfailed f rfl
              exact nomatch he
      · exact Or.inl (h.saved (begun_of_answered hnew hsave hanswer) hanswer)
  | begins hnew => exact Or.inl (h.saved (begun_of_answered hnew hsave hanswer) hanswer)
  | ends =>
      rcases List.mem_cons.mp hanswer with hanswer | hanswer
      · obtain ⟨rfl, -⟩ := Prod.mk.inj hanswer
        exact Or.inr rfl
      · exact Or.inl (h.saved (hsave.resolve_right nofun) hanswer)

/-- **Every step keeps track.** -/
theorem step (h : Tracks es s) (hstep : Step s e s') : Tracks (es ++ [e]) s' where
  started := h.started_step hstep
  saved := h.saved_step hstep
  known := by
    intro e' he'
    refine hstep.isKnown ?_
    rcases mem_concat_iff.mp he' with he' | rfl
    · exact Or.inr (h.known he')
    · exact Or.inl rfl
  ordered := by
    cases hstep with
    | answers _ hfirst | begins _ hfirst => exact hfirst.ordered h.ordered
    | ends => exact h.ordered.finish _
  once := by
    cases hstep with
    | answers hnew | begins hnew => exact h.once_begin hnew
    | ends =>
        intro own op₁ op₂ h₁ h₂
        exact h.once ((mem_concat_iff.mp h₁).resolve_right nofun)
          ((mem_concat_iff.mp h₂).resolve_right nofun)

end Tracks

theorem tracks_of_run? (h : start.run? es = some s) : Tracks es s :=
  run?_induction Tracks.start (fun ht hstep => ht.step (step_of_step? ht.ordered hstep)) es h

/-! ## Files and their projects -/

theorem sublist_concat {part : List Event} (h : part <+ es) (e : Event) : part <+ es ++ [e] :=
  h.trans (List.sublist_append_left es [e])

theorem concat_sublist_concat {part : List Event} (h : part <+ es) (e : Event) :
    part ++ [e] <+ es ++ [e] :=
  h.append (List.Sublist.refl [e])

/-- **The project of a file was deleted, from the first step to the last, within a save of the file**,
    and this save is the last one of its name. -/
def Straddled (es : List Event) (f : SourceFile) : Prop :=
  ∃ k j before after, es = before ++ .finish k :: after ∧
    [.begin k (.saveFile f), .begin j (.deleteProject f.projectId), .finish j] <+ before ∧
    ∀ k' g, .begin k' (.saveFile g) ∈ es → .finish k' ∈ after → fileKey g ≠ fileKey f

/-- No step but the end of a save of the same name makes it another save. -/
theorem Straddled.step {f : SourceFile} (h : Straddled es f) (ht : Tracks es s) (hstep : Step s e s')
    (hother : ∀ k g, e = .finish k → .begin k (.saveFile g) ∈ es → fileKey g ≠ fileKey f) :
    Straddled (es ++ [e]) f := by
  obtain ⟨k, j, before, after, hes, hwithin, hlast⟩ := h
  refine ⟨k, j, before, after ++ [e], ?_, hwithin, ?_⟩
  · rw [hes, List.append_assoc]
    rfl
  intro k' g hsave hend
  rcases mem_concat_iff.mp hsave with hsave | rfl
  · rcases mem_concat_iff.mp hend with hend | hend
    · exact hlast k' g hsave hend
    · exact hother k' g hend.symm hsave
  · -- a save that begins now has not ended
    have hend : .finish k' ∈ es := by
      rw [hes]
      exact List.mem_append_right _ (List.mem_cons_of_mem _
        ((mem_concat_iff.mp hend).resolve_right nofun))
    cases hstep with
    | answers hnew | begins hnew => exact absurd (ht.known hend) hnew

/-- A file, and a save that is under way, has **its project stored, or the project was deleted since
    the save began**: the deletion is under way and will drop the file, or it has ended, and for a file
    that has been saved it ended before the save did. -/
structure Owned (es : List Event) (s : Interleaving) : Prop where
  saves : ∀ {k f}, (k, .saveFile f) ∈ s.pending → s.memory.hasProject f.projectId = true ∨ ∃ j,
    ((j, .dropFiles f.projectId) ∈ s.pending ∧
        [.begin k (.saveFile f), .begin j (.deleteProject f.projectId)] <+ es) ∨
      [.begin k (.saveFile f), .begin j (.deleteProject f.projectId), .finish j] <+ es
  files : ∀ {f}, f ∈ s.memory.files → s.memory.hasProject f.projectId = true ∨
    (∃ j, (j, .dropFiles f.projectId) ∈ s.pending) ∨ Straddled es f

namespace Owned

theorem start : Owned [] .start := ⟨nofun, nofun⟩

/-- A first step that takes no project away. -/
theorem first (h : Owned es s) (ht : Tracks es s) {op : Operation}
    (hstep : Step s (.begin number op) s')
    (hprojects : ∀ id, s.memory.hasProject id = true → s'.memory.hasProject id = true)
    (hfiles : s'.memory.files ⊆ s.memory.files) (hpending : s.pending ⊆ s'.pending)
    (hsaves : ∀ {k f}, (k, .saveFile f) ∈ s'.pending → (k, .saveFile f) ∈ s.pending ∨
      s'.memory.hasProject f.projectId = true) : Owned (es ++ [.begin number op]) s' where
  saves := by
    intro k f hk
    rcases hsaves hk with hk | hproject
    · refine (h.saves hk).imp (hprojects _) ?_
      rintro ⟨j, ⟨hj, hbegun⟩ | hended⟩
      · exact ⟨j, Or.inl ⟨hpending hj, sublist_concat hbegun _⟩⟩
      · exact ⟨j, Or.inr (sublist_concat hended _)⟩
    · exact Or.inl hproject
  files := by
    intro f hf
    rcases h.files (hfiles hf) with hproject | ⟨j, hj⟩ | hstraddled
    · exact Or.inl (hprojects _ hproject)
    · exact Or.inr (Or.inl ⟨j, hpending hj⟩)
    · exact Or.inr (Or.inr (hstraddled.step ht hstep nofun))

/-- The first step of a deletion: it answers for the files and the saves of its project from now on. -/
theorem first_delete (h : Owned es s) (ht : Tracks es s) {id : String}
    (hstep : Step s (.begin number (.deleteProject id))
      ⟨s.memory.dropProject id, (number, .dropFiles id) :: s.pending, s.answers⟩) :
    Owned (es ++ [.begin number (.deleteProject id)])
      ⟨s.memory.dropProject id, (number, .dropFiles id) :: s.pending, s.answers⟩ where
  saves := by
    intro k f hk
    have hsave : (k, Rest.saveFile f) ∈ s.pending := (List.mem_cons.mp hk).resolve_left nofun
    by_cases hid : f.projectId = id
    · subst hid
      refine Or.inr ⟨number, Or.inl ⟨List.mem_cons_self .., ?_⟩⟩
      exact concat_sublist_concat (List.singleton_sublist.mpr (ht.started hsave)) _
    · refine (h.saves hsave).imp (Memory.hasProject_dropProject hid) ?_
      rintro ⟨j, ⟨hj, hbegun⟩ | hended⟩
      · exact ⟨j, Or.inl ⟨List.mem_cons_of_mem _ hj, sublist_concat hbegun _⟩⟩
      · exact ⟨j, Or.inr (sublist_concat hended _)⟩
  files := by
    intro f hf
    by_cases hid : f.projectId = id
    · subst hid
      exact Or.inr (Or.inl ⟨number, List.mem_cons_self ..⟩)
    · rcases h.files hf with hproject | ⟨j, hj⟩ | hstraddled
      · exact Or.inl (Memory.hasProject_dropProject hid hproject)
      · exact Or.inr (Or.inl ⟨j, List.mem_cons_of_mem _ hj⟩)
      · exact Or.inr (Or.inr (hstraddled.step ht hstep nofun))

section Last

variable {rest : Rest} {f : SourceFile}

/-- What is under way with another rest stays under way. -/
theorem still_pending (ht : Tracks es s) {other : Rest} {j : Nat}
    (hrest : (number, rest) ∈ s.pending) (hj : (j, other) ∈ s.pending) (hne : other ≠ rest) :
    (j, other) ∈ s.pending.filter fun p => p.1 ≠ number := by
  refine List.mem_filter.mpr ⟨hj, decide_eq_true ?_⟩
  rintro rfl
  exact hne (ht.rest_eq hj hrest)

/-- The end of an operation that is not a deletion leaves the deletions under way. -/
theorem saves_last (h : Owned es s) (ht : Tracks es s) (hrest : (number, rest) ∈ s.pending)
    (hne : ∀ id, Rest.dropFiles id ≠ rest) {k : Nat} (hk : (k, .saveFile f) ∈ s.pending) :
    s.memory.hasProject f.projectId = true ∨ ∃ j,
      ((j, .dropFiles f.projectId) ∈ s.pending.filter (fun p => p.1 ≠ number) ∧
        [.begin k (.saveFile f), .begin j (.deleteProject f.projectId)] <+ es ++ [.finish number]) ∨
      [.begin k (.saveFile f), .begin j (.deleteProject f.projectId), .finish j]
        <+ es ++ [.finish number] := by
  refine (h.saves hk).imp_right ?_
  rintro ⟨j, ⟨hj, hbegun⟩ | hended⟩
  · exact ⟨j, Or.inl ⟨still_pending ht hrest hj (hne _), sublist_concat hbegun _⟩⟩
  · exact ⟨j, Or.inr (sublist_concat hended _)⟩

/-- The end of an operation leaves the account of a file that it does not touch. -/
theorem files_last (h : Owned es s) (ht : Tracks es s) (hrest : (number, rest) ∈ s.pending)
    (hne : Rest.dropFiles f.projectId ≠ rest)
    (hother : ∀ g, Rest.saveFile g = rest → fileKey g ≠ fileKey f) (hf : f ∈ s.memory.files) :
    s.memory.hasProject f.projectId = true ∨
      (∃ j, (j, .dropFiles f.projectId) ∈ s.pending.filter (fun p => p.1 ≠ number)) ∨
      Straddled (es ++ [.finish number]) f := by
  rcases h.files hf with hproject | ⟨j, hj⟩ | hstraddled
  · exact Or.inl hproject
  · exact Or.inr (Or.inl ⟨j, still_pending ht hrest hj hne⟩)
  · refine Or.inr (Or.inr (hstraddled.step ht (.ends hrest) ?_))
    intro k g hk hsave
    cases hk
    exact hother g (Rest.operation_injective (ht.once hsave (ht.started hrest)))

theorem last_save (h : Owned es s) (ht : Tracks es s) (hrest : (number, .saveFile f) ∈ s.pending)
    (answers : List (Nat × Answer)) : Owned (es ++ [.finish number])
      ⟨s.memory.putFile f, s.pending.filter fun p => p.1 ≠ number, answers⟩ where
  saves := fun hk => h.saves_last ht hrest nofun (List.mem_filter.mp hk).1
  files := by
    intro g hg
    rcases (ht.ordered.mem_putFile f).mp hg with rfl | ⟨hg, hkey⟩
    · rcases h.saves hrest with hproject | ⟨j, ⟨hj, -⟩ | hended⟩
      · exact Or.inl hproject
      · exact Or.inr (Or.inl ⟨j, still_pending ht hrest hj nofun⟩)
      · exact Or.inr (Or.inr ⟨number, j, es, [], rfl, hended, nofun⟩)
    · refine h.files_last ht hrest nofun ?_ hg
      intro f' hf'
      cases hf'
      exact Ne.symm hkey

theorem last_delete (h : Owned es s) (ht : Tracks es s) {id : String}
    (hrest : (number, .dropFiles id) ∈ s.pending) (answers : List (Nat × Answer)) :
    Owned (es ++ [.finish number])
      ⟨s.memory.dropFiles id, s.pending.filter fun p => p.1 ≠ number, answers⟩ where
  saves := by
    intro k f hk
    have hsave : (k, Rest.saveFile f) ∈ s.pending := (List.mem_filter.mp hk).1
    refine (h.saves hsave).imp_right ?_
    rintro ⟨j, ⟨hj, hbegun⟩ | hended⟩
    · by_cases hjn : j = number
      · -- the deletion that answers for the save ends now
        subst hjn
        exact ⟨j, Or.inr (concat_sublist_concat hbegun _)⟩
      · exact ⟨j, Or.inl ⟨List.mem_filter.mpr ⟨hj, decide_eq_true hjn⟩, sublist_concat hbegun _⟩⟩
    · exact ⟨j, Or.inr (sublist_concat hended _)⟩
  files := by
    intro f hf
    obtain ⟨hf, hid⟩ := List.mem_filter.mp hf
    refine h.files_last ht hrest ?_ nofun hf
    intro heq
    cases heq
    exact of_decide_eq_true hid rfl

end Last

/-- **Every step keeps the account of the files.** -/
theorem step (h : Owned es s) (ht : Tracks es s) (hstep : Step s e s') : Owned (es ++ [e]) s' := by
  cases hstep with
  | answers hnew hfirst =>
      cases hfirst with
      | answered answer hordered hprojects hfiles hsave =>
          refine h.first ht (.answers hnew (.answered _ hordered hprojects hfiles hsave)) hprojects ?_
            (List.Subset.refl _) Or.inl
          intro f hf
          exact hfiles ▸ hf
      | fileDropped projectId fileName answer =>
          exact h.first ht (.answers hnew (.fileDropped projectId fileName _))
            (fun _ hid => hid) (List.filter_subset_self _) (List.Subset.refl _) Or.inl
  | begins hnew hfirst =>
      cases hfirst with
      | projectDropped id => exact h.first_delete ht (.begins hnew (.projectDropped id))
      | checked rest hop hsave =>
          refine h.first ht (.begins hnew (.checked _ hop hsave)) (fun _ hid => hid)
            (List.Subset.refl _) (List.subset_cons_self ..) ?_
          intro k f hk
          rcases List.mem_cons.mp hk with hk | hk
          · cases hk
            exact Or.inr (hsave f rfl)
          · exact Or.inl hk
  | @ends number rest hpending =>
      cases rest with
      | saveFile f => exact h.last_save ht hpending _
      | dropFiles id => exact h.last_delete ht hpending _
      | listFiles | loadSources =>
          constructor
          case saves => exact fun hk => h.saves_last ht hpending nofun (List.mem_filter.mp hk).1
          case files => exact fun hf => h.files_last ht hpending nofun nofun hf

end Owned

theorem owned_of_run? (h : start.run? es = some s) : Tracks es s ∧ Owned es s := by
  refine run?_induction (P := fun es s => Tracks es s ∧ Owned es s) ⟨Tracks.start, Owned.start⟩ ?_ es h
  rintro es s e s' ⟨ht, ho⟩ hstep
  have hstep := step_of_step? ht.ordered hstep
  exact ⟨ht.step hstep, ho.step ht hstep⟩

/-! ## Files that have been saved -/

/-- The operation deletes a file, alone or with its project. -/
def deletes (f : SourceFile) : Operation → Prop
  | .deleteFile projectId fileName => (projectId, fileName) = fileKey f
  | .deleteProject id => id = f.projectId
  | _ => False

/-- What became of a file `f` that had been saved when the steps `after` began: it is stored or a
    later save of its name has replaced it, or a deletion took a step that may have dropped it. -/
def Kept (before after : List Event) (f : SourceFile) (s : Interleaving) : Prop :=
  (∃ g ∈ s.memory.files, fileKey g = fileKey f ∧
    (g = f ∨ ∃ k, .begin k (.saveFile g) ∈ before ++ after ∧ .finish k ∈ after)) ∨
  (∃ j op, .begin j op ∈ after ∧ deletes f op) ∨
  ∃ j, .begin j (.deleteProject f.projectId) ∈ before ∧ .finish j ∈ after

section Kept

variable {before after : List Event} {f : SourceFile}

/-- A step that leaves the file which has the name. -/
theorem Kept.of_stored (h : Kept before after f s)
    (hfiles : ∀ g ∈ s.memory.files, fileKey g = fileKey f → g ∈ s'.memory.files) (e : Event) :
    Kept before (after ++ [e]) f s' := by
  rcases h with ⟨g, hg, hkey, hsaved⟩ | ⟨j, op, hbegun, hdeletes⟩ | ⟨j, hbegun, hended⟩
  · refine Or.inl ⟨g, hfiles g hg hkey, hkey, hsaved.imp_right ?_⟩
    rintro ⟨k, hk, hend⟩
    refine ⟨k, ?_, List.mem_append_left _ hend⟩
    rw [← List.append_assoc]
    exact List.mem_append_left _ hk
  · exact Or.inr (Or.inl ⟨j, op, List.mem_append_left _ hbegun, hdeletes⟩)
  · exact Or.inr (Or.inr ⟨j, hbegun, List.mem_append_left _ hended⟩)

/-- **Every step keeps a saved file**, replaces it or is one of a deletion. -/
theorem Kept.step (h : Kept before after f s) (ht : Tracks (before ++ after) s)
    (hstep : Step s e s') : Kept before (after ++ [e]) f s' := by
  have hlast : e ∈ after ++ [e] := List.mem_append_right after (List.mem_singleton_self e)
  cases hstep with
  | answers _ hfirst =>
      cases hfirst with
      | answered _ _ _ hfiles =>
          refine h.of_stored ?_ _
          intro g hg _
          exact hfiles ▸ hg
      | fileDropped projectId fileName =>
          by_cases hkey : (projectId, fileName) = fileKey f
          · exact Or.inr (Or.inl ⟨_, _, hlast, hkey⟩)
          · refine h.of_stored ?_ _
            intro g hg hgf
            refine List.mem_filter.mpr ⟨hg, decide_eq_true ?_⟩
            rw [hgf]
            exact Ne.symm hkey
  | begins _ hfirst =>
      cases hfirst with
      | projectDropped | checked => exact h.of_stored (fun _ hg _ => hg) _
  | @ends number rest hpending =>
      have hbegun := ht.started hpending
      cases rest with
      | listFiles | loadSources => exact h.of_stored (fun _ hg _ => hg) _
      | saveFile g =>
          by_cases hkey : fileKey g = fileKey f
          · refine Or.inl ⟨g, (ht.ordered.mem_putFile g).mpr (Or.inl rfl), hkey, Or.inr ?_⟩
            refine ⟨number, ?_, hlast⟩
            rw [← List.append_assoc]
            exact List.mem_append_left _ hbegun
          · refine h.of_stored ?_ _
            intro g' hg' hgf
            refine (ht.ordered.mem_putFile g).mpr (Or.inr ⟨hg', ?_⟩)
            rw [hgf]
            exact Ne.symm hkey
      | dropFiles id =>
          by_cases hid : id = f.projectId
          · subst hid
            rcases List.mem_append.mp hbegun with hbegun | hbegun
            · exact Or.inr (Or.inr ⟨number, hbegun, hlast⟩)
            · exact Or.inr (Or.inl ⟨number, _, List.mem_append_left _ hbegun, rfl⟩)
          · refine h.of_stored ?_ _
            intro g hg hgf
            refine List.mem_filter.mpr ⟨hg, decide_eq_true ?_⟩
            rw [show g.projectId = f.projectId from congrArg Prod.fst hgf]
            exact Ne.symm hid

/-- A save that ends has stored its file. -/
theorem kept_of_finish {k : Nat} (ht : Tracks es s) (hstep : Step s (.finish k) s')
    (hbegun : .begin k (.saveFile f) ∈ es) : Kept (es ++ [.finish k]) [] f s' := by
  cases hstep with
  | @ends _ rest hpending =>
      have hrest : rest = .saveFile f :=
        Rest.operation_injective (ht.once (ht.started hpending) hbegun)
      subst hrest
      exact Or.inl ⟨f, (ht.ordered.mem_putFile f).mpr (Or.inl rfl), rfl, Or.inl rfl⟩

/-- A run up to the end of an operation, with the step that ends it. -/
theorem exists_step_finish {k : Nat} (h : start.run? (before ++ .finish k :: after) = some s) :
    ∃ s₀ s₁, Tracks before s₀ ∧ Step s₀ (.finish k) s₁ ∧ s₁.run? after = some s := by
  rw [List.append_cons] at h
  obtain ⟨s₁, hs₁, hafter⟩ := exists_of_run?_append h
  obtain ⟨s₀, hs₀, hfinish⟩ := exists_of_run?_append hs₁
  have ht := tracks_of_run? hs₀
  exact ⟨s₀, s₁, ht, step_of_step? ht.ordered (step?_of_run?_singleton hfinish), hafter⟩

/-- An operation that ends has begun. -/
theorem exists_begin_of_finish {k : Nat} (h : start.run? (before ++ .finish k :: after) = some s) :
    ∃ op, .begin k op ∈ before := by
  obtain ⟨s₀, s₁, ht, hstep, -⟩ := exists_step_finish h
  cases hstep with
  | ends hpending => exact ⟨_, ht.started hpending⟩

/-- **Every run keeps the files that it saved**, by induction on the steps after the save. -/
theorem kept_of_run? {k : Nat} (h : start.run? (before ++ .finish k :: after) = some s)
    (hbegun : .begin k (.saveFile f) ∈ before) : Kept (before ++ [.finish k]) after f s := by
  obtain ⟨s₀, s₁, ht₀, hstep, hafter⟩ := exists_step_finish h
  have hend : Tracks ((before ++ [.finish k]) ++ after) s ∧ Kept (before ++ [.finish k]) after f s := by
    refine run?_induction (P := fun es s => Tracks ((before ++ [.finish k]) ++ es) s ∧
      Kept (before ++ [.finish k]) es f s) ?_ ?_ after hafter
    · rw [List.append_nil]
      exact ⟨ht₀.step hstep, kept_of_finish ht₀ hstep hbegun⟩
    · rintro es s e s' ⟨ht, hkept⟩ hstep
      have hstep := step_of_step? ht.ordered hstep
      rw [← List.append_assoc]
      exact ⟨ht.step hstep, hkept.step ht hstep⟩
  exact hend.2

end Kept

/-- **What is stored after operations that overlapped.** Where nothing is under way, the project of a
    file is stored, unless it was deleted from the first step to the last within the save of the file;
    and a save that has succeeded has its file stored, unless a later save of its name has replaced it
    or a deletion dropped it, which began behind the save or had begun before and ended behind it. -/
theorem files_of_run? (h : start.run? es = some s) :
    (s.isQuiet = true → ∀ f ∈ s.memory.files,
      (∃ p ∈ s.memory.projects, p.id = f.projectId) ∨ Straddled es f) ∧
    ∀ k f v, .begin k (.saveFile f) ∈ es → (k, .ok v) ∈ s.answers →
      ∃ before after, es = before ++ .finish k :: after ∧
        ((∃ g, s.memory.file? f.projectId f.fileName = some g ∧
            (g = f ∨ ∃ k', .begin k' (.saveFile g) ∈ es ∧ .finish k' ∈ after)) ∨
          (∃ j op, .begin j op ∈ after ∧ deletes f op) ∨
          ∃ j, .begin j (.deleteProject f.projectId) ∈ before ∧ .finish j ∈ after) := by
  obtain ⟨ht, ho⟩ := owned_of_run? h
  constructor
  · intro hquiet f hf
    have hpending : s.pending = [] := List.isEmpty_iff.mp hquiet
    rcases ho.files hf with hproject | ⟨j, hj⟩ | hstraddled
    · exact Or.inl (Memory.hasProject_iff.mp hproject)
    · rw [hpending] at hj
      exact nomatch hj
    · exact Or.inr hstraddled
  · intro k f v hsave hanswer
    obtain ⟨before, after, hes⟩ := List.append_of_mem (ht.saved hsave hanswer)
    refine ⟨before, after, hes, ?_⟩
    subst hes
    have hbegun : .begin k (.saveFile f) ∈ before := by
      obtain ⟨op, hop⟩ := exists_begin_of_finish h
      rw [ht.once hsave (List.mem_append_left _ hop)]
      exact hop
    rcases kept_of_run? h hbegun with ⟨g, hg, hkey, hsaved⟩ | hdeleted | ⟨j, hj, hended⟩
    · have hfind := ht.ordered.file?_eq_some hg
      obtain ⟨hproject, hname⟩ := Prod.mk.inj hkey
      rw [hproject, hname] at hfind
      rw [← List.append_cons] at hsaved
      exact Or.inl ⟨g, hfind, hsaved⟩
    · exact Or.inr (Or.inl hdeleted)
    · exact Or.inr (Or.inr ⟨j, (mem_concat_iff.mp hj).resolve_right nofun, hended⟩)

/-! ### Three overlaps -/

/-- A project. -/
def plant : Project := ⟨"p", "Plant", none, ⟨0, 0, 0⟩, ⟨0, 0, 0⟩⟩

/-- A file of the project. -/
def pump (content : String) : SourceFile := ⟨"p", "pump.st", content, "", 1, ⟨0, 0, 0⟩⟩

/-- Two saves of one file and a deletion of another project, all of them overlapping. -/
def overlappingSaves : List Event :=
  [.begin 0 (.createProject plant), .begin 1 (.createProject { plant with id := "q" }),
    .begin 2 (.saveFile (pump "1")), .begin 3 (.deleteProject "q"), .begin 4 (.saveFile (pump "2")),
    .finish 4, .finish 3, .finish 2]

/-- The save that ended last is stored, with its project. -/
theorem files_of_run?_overlappingSaves : ∃ s, start.run? overlappingSaves = some s ∧
    s.isQuiet = true ∧ (2, .ok .done) ∈ s.answers ∧
    (∀ f ∈ s.memory.files,
      (∃ p ∈ s.memory.projects, p.id = f.projectId) ∨ Straddled overlappingSaves f) ∧
    (∃ before after, overlappingSaves = before ++ .finish 2 :: after ∧
      ((∃ g, s.memory.file? "p" "pump.st" = some g ∧
          (g = pump "1" ∨ ∃ k', .begin k' (.saveFile g) ∈ overlappingSaves ∧ .finish k' ∈ after)) ∨
        (∃ j op, .begin j op ∈ after ∧ deletes (pump "1") op) ∨
        ∃ j, .begin j (.deleteProject "p") ∈ before ∧ .finish j ∈ after)) ∧
    s.memory.file? "p" "pump.st" = some (pump "1") := by
  obtain ⟨s, hs, hquiet, hanswer, hfile⟩ : ∃ s, start.run? overlappingSaves = some s ∧
      s.isQuiet = true ∧ (2, .ok .done) ∈ s.answers ∧
      s.memory.file? "p" "pump.st" = some (pump "1") := exists_run?_of_any (by decide +kernel)
  obtain ⟨howned, hkept⟩ := files_of_run? hs
  have hsave : .begin 2 (.saveFile (pump "1")) ∈ overlappingSaves := by simp [overlappingSaves]
  exact ⟨s, hs, hquiet, hanswer, howned hquiet, hkept 2 (pump "1") .done hsave hanswer, hfile⟩

/-- A project is deleted within the save of its file. -/
def deletedWithinSave : List Event :=
  [.begin 0 (.createProject plant), .begin 1 (.saveFile (pump "1")), .begin 2 (.deleteProject "p"),
    .finish 2, .finish 1]

/-- A project is created again and a file is saved before the deletion has dropped the files. -/
def savedWithinDeletion : List Event :=
  [.begin 0 (.createProject plant), .begin 1 (.deleteProject "p"), .begin 2 (.createProject plant),
    .begin 3 (.saveFile (pump "1")), .finish 3, .finish 1]

/-- A file is saved a second time. -/
def savedAgain : List Event :=
  [.begin 0 (.createProject plant), .begin 1 (.saveFile (pump "1")), .finish 1,
    .begin 2 (.saveFile (pump "2")), .finish 2]

/-- **A file can outlive its project, and a save that has ended with success can be lost**, to a
    deletion that had begun before it or to a later save. -/
theorem run?_losesFiles :
    (∃ s, start.run? deletedWithinSave = some s ∧ s.isQuiet = true ∧
      pump "1" ∈ s.memory.files ∧ s.memory.projects = []) ∧
    (∃ s, start.run? savedWithinDeletion = some s ∧ s.isQuiet = true ∧
      s.answers.lookup 3 = some (.ok .done) ∧ pump "1" ∉ s.memory.files) ∧
    ∃ s, start.run? savedAgain = some s ∧ s.isQuiet = true ∧
      s.answers.lookup 1 = some (.ok .done) ∧ pump "1" ∉ s.memory.files := by
  refine ⟨?_, ?_, ?_⟩
  all_goals exact exists_run?_of_any (by decide +kernel)

end Interleaving

end StLint.Store
