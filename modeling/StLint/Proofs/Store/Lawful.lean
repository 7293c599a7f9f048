import Mathlib.Data.List.Induction
import StLint.Proofs.Store.History

/-!
# The two stores are lawful

Both stores keep the laws of `Adapter.Lawful`. The store in memory keeps them in the states in which
its maps are in the order of their keys, which are all that it reaches; the tables in every state.

* `memory`, `tables` — the two stores as their callers see them.
* `Memory.run_outcome`, `Tables.run_outcome` — what becomes of each that is asked one operation.
* `Memory.run_write`, `Tables.run_write` — what each answers to a write.
* `adapters_lawful` — the laws of both.
-/

namespace StLint.Store

open Agree (updated)
open Memory (fileKey)

/-- The store in memory. All that it holds can be read, and there is room for every file. -/
def memory : Adapter Memory :=
  ⟨.empty, Memory.run, Memory.projects, Memory.files, .ok, .ok, fun _ => false⟩

/-- The store in tables. -/
def tables : Adapter Tables :=
  ⟨.empty, Tables.run, Tables.projects, Tables.files, readProject, readFile, fun f => maxSize < f.size⟩

/-! ## The store in memory -/

namespace Memory

variable {m : Memory}

theorem outcome_create (h : m.Ordered) (p : Project) :
    memory.Outcome Ordered m (.createProject p) (m.create p) := by
  rw [create]
  cases p.validate with
  | error e => exact .failed e
  | ok =>
      dsimp only
      by_cases hid : m.hasProject p.id = true
      · rw [if_pos hid]
        exact .failed _
      · rw [if_neg hid]
        have hnew : ∀ q ∈ m.projects, q.id ≠ p.id := by
          rw [hasProject_iff] at hid
          simpa using hid
        exact .succeeded _ (h.putProject p) ⟨hnew, h.putProject_perm hnew, rfl⟩

theorem outcome_update (h : m.Ordered) (p : Project) :
    memory.Outcome Ordered m (.updateProject p) (m.update p) := by
  rw [update]
  cases p.validate with
  | error e => exact .failed e
  | ok =>
      dsimp only
      cases hfind : m.project? p.id with
      | none => exact .failed _
      | some stored =>
          have hstored : stored.id = p.id := by simpa using List.find?_some hfind
          refine .succeeded _ (h.putProject _) ⟨?_, Agree.putProject_updated h hfind, rfl⟩
          exact ⟨stored, List.mem_of_find?_eq_some hfind, hstored⟩

theorem outcome_delete (h : m.Ordered) (id : String) :
    memory.Outcome Ordered m (.deleteProject id) (m.run (.deleteProject id)) := by
  rw [run, begin]
  by_cases hid : m.hasProject id = true
  · rw [if_pos hid]
    exact .succeeded _ ((h.dropProject id).dropFiles id) ⟨hasProject_iff.mp hid, rfl, rfl⟩
  · rw [if_neg hid]
    exact .failed _

theorem outcome_save (h : m.Ordered) (f : SourceFile) :
    memory.Outcome Ordered m (.saveFile f) (m.run (.saveFile f)) := by
  rw [run, begin]
  cases f.validate with
  | error e => exact .failed e
  | ok =>
      dsimp only
      rw [withProject]
      by_cases hid : m.hasProject f.projectId = true
      · rw [if_pos hid]
        exact .succeeded _ (h.putFile f) ⟨hasProject_iff.mp hid, rfl, h.putFile_perm f⟩
      · rw [if_neg hid]
        exact .failed _

theorem outcome_deleteFile (h : m.Ordered) (projectId fileName : String) :
    memory.Outcome Ordered m (.deleteFile projectId fileName)
      (m.run (.deleteFile projectId fileName)) := by
  rw [run, begin]
  by_cases hfile : (m.file? projectId fileName).isSome = true
  · rw [if_pos hfile]
    obtain ⟨f, hfind⟩ := Option.isSome_iff_exists.mp hfile
    have hkey : fileKey f = (projectId, fileName) := by simpa using List.find?_some hfind
    exact .succeeded _ (h.dropFile projectId fileName)
      ⟨⟨f, List.mem_of_find?_eq_some hfind, hkey⟩, rfl, rfl⟩
  · rw [if_neg hfile]
    exact .failed _

/-- **What becomes of the maps**, one case for each operation. -/
theorem run_outcome (h : m.Ordered) (op : Operation) : memory.Outcome Ordered m op (m.run op) := by
  cases op with
  | createProject p => exact outcome_create h p
  | updateProject p => exact outcome_update h p
  | deleteProject id => exact outcome_delete h id
  | saveFile f => exact outcome_save h f
  | deleteFile projectId fileName => exact outcome_deleteFile h projectId fileName
  | getProject | listProjects | getFile =>
      refine Adapter.outcome_of_reads h ?_ _
      exact ⟨rfl, rfl⟩
  | listFiles projectId | loadSources projectId =>
      rw [run, begin, withProject]
      by_cases hid : m.hasProject projectId = true
      · rw [if_pos hid]
        refine Adapter.outcome_of_reads h ?_ _
        exact ⟨rfl, rfl⟩
      · rw [if_neg hid]
        refine Adapter.outcome_of_reads h ?_ _
        exact ⟨rfl, rfl⟩

theorem any_eq_hasProject (id : String) : (m.projects.any fun p => p.id = id) = m.hasProject id := by
  rw [hasProject, project?, List.isSome_find?]

theorem any_eq_isSome_file? (projectId fileName : String) :
    (m.files.any fun f => fileKey f = (projectId, fileName)) = (m.file? projectId fileName).isSome := by
  rw [file?, List.isSome_find?]

/-- **What is answered to a write**, one case for each. -/
theorem run_write (m : Memory) (op : Operation) (h : op.isWrite = true) :
    (m.run op).2 = writeAnswer (op.refusal? (fun _ => false) m.projects m.files) := by
  cases op with
  | createProject p =>
      show (m.create p).2 = _
      rw [create, Operation.refusal?, any_eq_hasProject]
      cases p.validate with
      | error e => rfl
      | ok =>
          dsimp only
          cases m.hasProject p.id <;> rfl
  | updateProject p =>
      show (m.update p).2 = _
      rw [update, Operation.refusal?, any_eq_hasProject, hasProject]
      cases p.validate with
      | error e => rfl
      | ok =>
          dsimp only
          cases m.project? p.id <;> rfl
  | deleteProject id =>
      rw [run, begin, Operation.refusal?, any_eq_hasProject]
      cases m.hasProject id <;> rfl
  | saveFile f =>
      rw [run, begin, Operation.refusal?, any_eq_hasProject]
      cases f.validate with
      | error e => rfl
      | ok =>
          dsimp only
          rw [withProject]
          cases m.hasProject f.projectId <;> rfl
  | deleteFile projectId fileName =>
      rw [run, begin, Operation.refusal?, any_eq_isSome_file?]
      cases (m.file? projectId fileName).isSome <;> rfl
  | getProject | listProjects | getFile | listFiles | loadSources => cases h

end Memory

theorem memory_spec : memory.Spec Memory.Ordered where
  good_empty := Memory.ordered_empty
  projects_empty := rfl
  files_empty := rfl
  run := Memory.run_outcome
  write := Memory.run_write
  getProject := by
    intro m id
    rfl
  getFile := by
    intro m projectId fileName
    rfl
  listProjects := by
    intro m
    show Except.ok _ = ((Project.inOrder m.projects).mapM Except.ok).map Value.projects
    rw [Agree.mapM_eq_ok_self fun _ _ => rfl]
    rfl
  listFiles := by
    intro m h projectId
    show _ = if (m.projects.any fun p => p.id = projectId) = true then
      (((m.filesOf projectId).mergeSort fun a b => !(b.fileName < a.fileName)).mapM Except.ok).map
        Value.files else _
    rw [h.mergeSort_filesOf (List.Perm.refl _), Agree.mapM_eq_ok_self fun _ _ => rfl,
      Memory.any_eq_hasProject]
    show (m.run (.listFiles projectId)).2 = _
    rw [Memory.run, Memory.begin, Memory.withProject]
    by_cases hid : m.hasProject projectId = true
    · rw [if_pos hid, if_pos hid]
      rfl
    · rw [if_neg hid, if_neg hid]
  loadSources := by
    intro m projectId
    show (m.run (.loadSources projectId)).2 = (m.run (.listFiles projectId)).2.map _
    rw [Memory.run, Memory.run, Memory.begin, Memory.begin, Memory.withProject, Memory.withProject]
    by_cases hid : m.hasProject projectId = true
    · rw [if_pos hid, if_pos hid]
      rfl
    · rw [if_neg hid, if_neg hid]
      rfl

/-! ## The store in tables -/

namespace Tables

/-- The tables keep no order of their own. -/
abbrev Outcome (t : Tables) (op : Operation) (r : Tables × Answer) : Prop :=
  tables.Outcome (fun _ => True) t op r

variable {t : Tables}

theorem hasProject_iff {id : String} : t.hasProject id = true ↔ ∃ p ∈ t.projects, p.id = id := by
  rw [hasProject, List.any_eq_true]
  simp

theorem outcome_create (p : Project) : t.Outcome (.createProject p) (t.commit (t.create p)) := by
  rw [create]
  cases p.validate with
  | error e => exact .failed e
  | ok =>
      by_cases hid : t.hasProject p.id = true
      · simp only [hid]
        exact .failed _
      · have hnew : ∀ q ∈ t.projects, q.id ≠ p.id := by
          rw [hasProject_iff] at hid
          simpa using hid
        simp only [hid]
        refine .succeeded _ trivial ⟨hnew, ?_, rfl⟩
        exact List.perm_append_singleton p t.projects

theorem outcome_update (p : Project) : t.Outcome (.updateProject p) (t.commit (t.update p)) := by
  rw [update]
  cases p.validate with
  | error e => exact .failed e
  | ok =>
      by_cases hid : t.hasProject p.id = true
      · simp only [hid]
        exact .succeeded _ trivial ⟨hasProject_iff.mp hid, rfl, rfl⟩
      · simp only [hid]
        exact .failed _

theorem outcome_delete (id : String) : t.Outcome (.deleteProject id) (t.commit (t.delete id)) := by
  rw [delete]
  by_cases hid : t.hasProject id = true
  · simp only [hid]
    exact .succeeded _ trivial ⟨hasProject_iff.mp hid, rfl, rfl⟩
  · simp only [hid]
    exact .failed _

theorem outcome_save (f : SourceFile) : t.Outcome (.saveFile f) (t.commit (t.save f)) := by
  rw [save]
  cases f.validate with
  | error e => exact .failed e
  | ok =>
      by_cases hid : t.hasProject f.projectId = true
      · by_cases hsize : maxSize < f.size
        · simp only [hid, hsize]
          exact .failed _
        · simp only [hid, hsize]
          refine .succeeded _ trivial ⟨hasProject_iff.mp hid, rfl, ?_⟩
          show ((t.files.filter fun g => !isFile f.projectId f.fileName g) ++ [f]).Perm _
          rw [Agree.not_isFile_eq]
          exact List.perm_append_singleton f _
      · simp only [hid]
        exact .failed _

theorem outcome_deleteFile (projectId fileName : String) :
    t.Outcome (.deleteFile projectId fileName) (t.commit (t.deleteFile projectId fileName)) := by
  rw [deleteFile]
  by_cases hfile : t.files.any (isFile projectId fileName) = true
  · simp only [hfile]
    refine .succeeded _ trivial ⟨?_, rfl, ?_⟩
    · obtain ⟨f, hf, hkey⟩ := List.any_eq_true.mp hfile
      rw [← Agree.isFile_eq, decide_eq_true_eq] at hkey
      exact ⟨f, hf, hkey⟩
    · show (t.files.filter fun f => !isFile projectId fileName f) = _
      rw [Agree.not_isFile_eq]
      rfl
  · simp only [hfile]
    exact .failed _

/-- **What becomes of the tables**, one case for each operation. -/
theorem run_outcome (op : Operation) : t.Outcome op (t.run op) := by
  cases op with
  | createProject p => exact outcome_create p
  | updateProject p => exact outcome_update p
  | deleteProject id => exact outcome_delete id
  | saveFile f => exact outcome_save f
  | deleteFile projectId fileName => exact outcome_deleteFile projectId fileName
  | getProject | listProjects | getFile | listFiles | loadSources =>
      refine Adapter.outcome_of_reads trivial ?_ _
      exact ⟨rfl, rfl⟩

/-- **What is answered to a write**, one case for each. -/
theorem run_write (t : Tables) (op : Operation) (h : op.isWrite = true) :
    (t.run op).2 = writeAnswer (op.refusal? (fun f => maxSize < f.size) t.projects t.files) := by
  cases op with
  | createProject p =>
      show (t.commit (t.create p)).2 = _
      rw [create, Operation.refusal?, ← hasProject]
      cases p.validate with
      | error e => rfl
      | ok => cases t.hasProject p.id <;> rfl
  | updateProject p =>
      show (t.commit (t.update p)).2 = _
      rw [update, Operation.refusal?, ← hasProject]
      cases p.validate with
      | error e => rfl
      | ok => cases t.hasProject p.id <;> rfl
  | deleteProject id =>
      show (t.commit (t.delete id)).2 = _
      rw [delete, Operation.refusal?, ← hasProject]
      cases t.hasProject id <;> rfl
  | saveFile f =>
      show (t.commit (t.save f)).2 = _
      rw [save, Operation.refusal?, ← hasProject]
      cases f.validate with
      | error e => rfl
      | ok =>
          cases t.hasProject f.projectId with
          | false => rfl
          | true =>
              by_cases hsize : maxSize < f.size
              · simp only [hsize]
                rfl
              · simp only [hsize]
                rfl
  | deleteFile projectId fileName =>
      show (t.commit (t.deleteFile projectId fileName)).2 = _
      rw [deleteFile, Operation.refusal?, Agree.isFile_eq]
      cases t.files.any (isFile projectId fileName) <;> rfl
  | getProject | listProjects | getFile | listFiles | loadSources => cases h

end Tables

theorem tables_spec : tables.Spec fun _ => True where
  good_empty := trivial
  projects_empty := rfl
  files_empty := rfl
  run := fun _ => Tables.run_outcome
  write := Tables.run_write
  getProject := fun _ _ => rfl
  getFile := by
    intro t projectId fileName
    show (t.run (.getFile projectId fileName)).2 = _
    rw [Tables.run, Agree.isFile_eq]
    rfl
  listProjects := fun _ => rfl
  listFiles := by
    intro t _ projectId
    show (t.filesOf projectId).map Value.files = if t.hasProject projectId then _ else _
    rw [Tables.filesOf]
    by_cases hid : t.hasProject projectId = true
    · rw [if_pos hid, if_pos hid]
      rfl
    · rw [if_neg hid, if_neg hid]
      rfl
  loadSources := by
    intro t projectId
    show (t.filesOf projectId).map _ = ((t.filesOf projectId).map Value.files).map _
    cases t.filesOf projectId with
    | error => rfl
    | ok => rfl

/-! ## Both -/

/-- **Both stores are lawful** in every state that they reach. A time whose year has four digits is
    read from its row as it was written, so such a project or file is read back exactly. -/
theorem adapters_lawful : memory.Lawful ∧ tables.Lawful ∧
    (∀ p, isReadable p.createdAt = true ∧ isReadable p.updatedAt = true →
      tables.readProject p = .ok p) ∧
    ∀ f, isReadable f.uploadedAt = true → tables.readFile f = .ok f := by
  refine ⟨memory_spec.lawful, tables_spec.lawful, ?_, ?_⟩
  · intro p hp
    exact readProject_eq_ok_iff.mpr hp
  · intro f hf
    show readFile f = .ok f
    rw [readFile, if_pos hf]

/-- A project created on a day. -/
def plantProject : Project := ⟨"p1", "Plant", none, ⟨0, 0, 0⟩, ⟨0, 0, 0⟩⟩

/-- A file of the project with some content. -/
def plantFile (content : String) : SourceFile := ⟨"p1", "main.st", content, "", content.utf8ByteSize, ⟨0, 1, 0⟩⟩

/-- What both stores are asked: two creations under one id, two versions of a file, and a file of no
    project. -/
def plantOperations : List Operation :=
  [.createProject plantProject, .createProject plantProject, .saveFile (plantFile "x"),
    .saveFile { plantFile "x" with projectId := "p2" }, .saveFile (plantFile "xy")]

/-- What a store is left with after some operations, and the log of them. -/
def Adapter.after {σ : Type} (A : Adapter σ) (ops : List Operation) : Log × σ :=
  ops.foldl (fun r op => ((op, (A.run r.2 op).2) :: r.1, (A.run r.2 op).1)) ([], A.empty)

theorem Adapter.reaches_after {σ : Type} (A : Adapter σ) (ops : List Operation) :
    A.Reaches (A.after ops).1 (A.after ops).2 := by
  induction ops using List.reverseRecOn with
  | nil => exact .start
  | append_singleton ops op ih =>
      rw [after, List.foldl_concat]
      exact ih.step op

/-- **A run of both stores**: the second creation and the file of no project are refused, the later version of
    the file is read back, and a file of the project that is valid can be saved. -/
theorem adapters_lawful_plantOperations :
    (memory.after plantOperations).1.map Prod.snd
      = [.ok .done, .error (.projectNotFound "p2"), .ok .done, .error (.idTaken "p1"), .ok .done] ∧
    (tables.after plantOperations).1.map Prod.snd = (memory.after plantOperations).1.map Prod.snd ∧
    (memory.run (memory.after plantOperations).2 (.getFile "p1" "main.st")).2 = .ok (.file (plantFile "xy")) ∧
    (tables.run (tables.after plantOperations).2 (.getFile "p1" "main.st")).2 = .ok (.file (plantFile "xy")) ∧
    (tables.run (tables.after plantOperations).2 (.saveFile (plantFile "z"))).2 = .ok .done := by
  obtain ⟨hmemory, htables, -, hread⟩ := adapters_lawful
  have hfile : (memory.after plantOperations).1.file? "p1" "main.st" = some (plantFile "xy") := by
    decide +kernel
  have hfile' : (tables.after plantOperations).1.file? "p1" "main.st" = some (plantFile "xy") := by
    decide +kernel
  refine ⟨by decide +kernel, by decide +kernel, ?_, ?_, ?_⟩
  · rw [hmemory.getFile (memory.reaches_after plantOperations), hfile]
    rfl
  · rw [htables.getFile (tables.reaches_after plantOperations), hfile']
    show (tables.readFile (plantFile "xy")).map Value.file = _
    rw [hread _ (by decide +kernel)]
    rfl
  · rw [htables.write (tables.reaches_after plantOperations) _ rfl]
    decide +kernel

end StLint.Store
