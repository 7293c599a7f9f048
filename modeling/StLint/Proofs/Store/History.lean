import StLint.Proofs.Store.Agreement
import StLint.Proofs.Text.Bytes

/-!
# What a store holds

A store is asked one operation after the other, and the **log** of its answers says what it must hold:
the last version of each project and file that was saved and not deleted since. This module states
the laws of a store over its log and derives them from what single operations do.

* `Operation.Changes` — the change that an operation makes when it succeeds.
* `Operation.refusal?` — why a write is refused; it is done where there is no reason.
* `Log.latest?` — what was last saved, read off the log; `Log.project?` and `Log.file?` by its key.
* `Adapter.Lawful` — the laws of a store, in every state that it reaches.
* `Adapter.Spec` — what single operations do; `Adapter.Spec.lawful` derives the laws.
-/

namespace StLint.Store

open Agree (updated)
open Memory (fileKey)

/-! ## Changes -/

/-- What a successful operation needs, and what it makes of the projects `ps` and the files `fs`. -/
def Operation.Changes (ps : List Project) (fs : List SourceFile) (ps' : List Project)
    (fs' : List SourceFile) : Operation → Prop
  | .createProject p => (∀ q ∈ ps, q.id ≠ p.id) ∧ ps'.Perm (p :: ps) ∧ fs' = fs
  | .updateProject p =>
    (∃ q ∈ ps, q.id = p.id) ∧ ps' = ps.map (fun q => if q.id = p.id then updated p q else q) ∧ fs' = fs
  | .deleteProject id =>
    (∃ q ∈ ps, q.id = id) ∧ ps' = ps.filter (fun q => q.id ≠ id) ∧
      fs' = fs.filter (fun f => f.projectId ≠ id)
  | .saveFile f =>
    (∃ q ∈ ps, q.id = f.projectId) ∧ ps' = ps ∧
      fs'.Perm (f :: fs.filter fun g => fileKey g ≠ fileKey f)
  | .deleteFile projectId fileName =>
    (∃ f ∈ fs, fileKey f = (projectId, fileName)) ∧ ps' = ps ∧
      fs' = fs.filter (fun f => fileKey f ≠ (projectId, fileName))
  | _ => ps' = ps ∧ fs' = fs

/-- An operation that changes what is stored. -/
def Operation.isWrite : Operation → Bool
  | .createProject _ | .updateProject _ | .deleteProject _ | .saveFile _ | .deleteFile .. => true
  | _ => false

/-- Why a write is refused where the projects `ps` and the files `fs` are stored. What is written is looked
    at first, then what it is written to. -/
def Operation.refusal? (tooLarge : SourceFile → Bool) (ps : List Project) (fs : List SourceFile) :
    Operation → Option StoreError
  | .createProject p => match p.validate with
    | .error e => some e
    | .ok _ => if ps.any fun q => q.id = p.id then some (.idTaken p.id) else none
  | .updateProject p => match p.validate with
    | .error e => some e
    | .ok _ => if ps.any fun q => q.id = p.id then none else some (.projectNotFound p.id)
  | .deleteProject id => if ps.any fun q => q.id = id then none else some (.projectNotFound id)
  | .saveFile f => match f.validate with
    | .error e => some e
    | .ok _ =>
      if ps.any fun q => q.id = f.projectId then
        if tooLarge f then some (.fileTooLarge f.fileName) else none
      else some (.projectNotFound f.projectId)
  | .deleteFile projectId fileName =>
    if fs.any fun f => fileKey f = (projectId, fileName) then none
    else some (.fileNotFound projectId fileName)
  | _ => none

/-- What is answered to a write that is refused or done. -/
def writeAnswer : Option StoreError → Answer
  | some e => .error e
  | none => .ok .done

/-! ## The log -/

/-- What a store was asked and what it answered, latest first. -/
abbrev Log := List (Operation × Answer)

/-- The project with an id after a successful operation, where `before` is the one before it. -/
def Operation.projectAfter (id : String) (before : Option Project) : Operation → Option Project
  | .createProject p => if p.id = id then some p else before
  | .updateProject p => if p.id = id then before.map (updated p) else before
  | .deleteProject d => if d = id then none else before
  | _ => before

/-- The file with a name after a successful operation, where `before` is the one before it. -/
def Operation.fileAfter (projectId fileName : String) (before : Option SourceFile) :
    Operation → Option SourceFile
  | .saveFile f => if fileKey f = (projectId, fileName) then some f else before
  | .deleteFile p n => if (p, n) = (projectId, fileName) then none else before
  | .deleteProject d => if d = projectId then none else before
  | _ => before

namespace Log

/-- What all successful operations make of one value that is not there at first. -/
def latest? {α : Type} (after : Option α → Operation → Option α) : Log → Option α
  | [] => none
  | (_, .error _) :: log => latest? after log
  | (op, .ok _) :: log => after (latest? after log) op

/-- The project with an id that was last created and not deleted since, with all later updates. -/
def project? (log : Log) (id : String) : Option Project := log.latest? (Operation.projectAfter id)

/-- The file with a name that was last saved and not deleted since, nor its project. -/
def file? (log : Log) (projectId fileName : String) : Option SourceFile :=
  log.latest? (Operation.fileAfter projectId fileName)

end Log

/-! ## Stores -/

/-- A store as its callers see it. What is read of a value that it holds may be an error. -/
structure Adapter (σ : Type) where
  empty : σ
  run : σ → Operation → σ × Answer
  projects : σ → List Project
  files : σ → List SourceFile
  readProject : Project → Except StoreError Project
  readFile : SourceFile → Except StoreError SourceFile
  /-- A file that there is no room for. -/
  tooLarge : SourceFile → Bool

namespace Adapter

variable {σ : Type}

/-- The states that a store reaches, with the log of what it was asked. -/
inductive Reaches (A : Adapter σ) : Log → σ → Prop
  | start : Reaches A [] A.empty
  | step {log : Log} {s : σ} (h : Reaches A log s) (op : Operation) :
      Reaches A ((op, (A.run s op).2) :: log) (A.run s op).1

/-- **The laws of a store.** -/
structure Lawful (A : Adapter σ) : Prop where
  /-- An operation that fails changes nothing. -/
  failure : ∀ {log s}, A.Reaches log s → ∀ op e, (A.run s op).2 = .error e → (A.run s op).1 = s
  success : ∀ {log s}, A.Reaches log s → ∀ op v, (A.run s op).2 = .ok v →
    op.Changes (A.projects s) (A.files s) (A.projects (A.run s op).1) (A.files (A.run s op).1)
  /-- A write is done exactly where there is no reason to refuse it. -/
  write : ∀ {log s}, A.Reaches log s → ∀ op, op.isWrite = true →
    (A.run s op).2 = writeAnswer (op.refusal? A.tooLarge (A.projects s) (A.files s))
  owned : ∀ {log s}, A.Reaches log s → ∀ f ∈ A.files s, ∃ p ∈ A.projects s, p.id = f.projectId
  projectsApart : ∀ {log s}, A.Reaches log s → (A.projects s).Pairwise fun p q => p.id ≠ q.id
  filesApart : ∀ {log s}, A.Reaches log s → (A.files s).Pairwise fun f g =>
    (f.projectId, f.fileName) ≠ (g.projectId, g.fileName)
  getProject : ∀ {log s}, A.Reaches log s → ∀ id, (A.run s (.getProject id)).2 =
    match log.project? id with
    | some p => (A.readProject p).map .project
    | none => .error (.projectNotFound id)
  getFile : ∀ {log s}, A.Reaches log s → ∀ projectId fileName,
    (A.run s (.getFile projectId fileName)).2 =
      match log.file? projectId fileName with
      | some f => (A.readFile f).map .file
      | none => .error (.fileNotFound projectId fileName)
  /-- By the time of the creation, then by id. -/
  listProjects : ∀ {log s}, A.Reaches log s → ∃ ps : List Project, ps.Perm (A.projects s) ∧
    (ps.Pairwise fun p q => p.createdAt.before q.createdAt = true ∨
      p.createdAt = q.createdAt ∧ p.id < q.id) ∧
    (A.run s .listProjects).2 = (ps.mapM A.readProject).map .projects
  /-- By name, in the order of bytes. -/
  listFiles : ∀ {log s}, A.Reaches log s → ∀ projectId,
    ((∀ p ∈ A.projects s, p.id ≠ projectId) →
      (A.run s (.listFiles projectId)).2 = .error (.projectNotFound projectId)) ∧
    ((∃ p ∈ A.projects s, p.id = projectId) →
      ∃ fs : List SourceFile, fs.Perm ((A.files s).filter fun f => f.projectId = projectId) ∧
        (fs.Pairwise fun f g => Text.utf8 f.fileName < Text.utf8 g.fileName) ∧
        (A.run s (.listFiles projectId)).2 = (fs.mapM A.readFile).map .files)
  loadSources : ∀ s projectId, (A.run s (.loadSources projectId)).2 =
    (A.run s (.listFiles projectId)).2.map fun
      | .files fs => .sources ((fs.filter fun f => f.isStructuredText).map fun f =>
          (f.fileName, f.content))
      | v => v

/-- **What becomes of a store** that is asked one operation: it fails and nothing changes, or it
    succeeds and the change is the one of the operation. -/
inductive Outcome (A : Adapter σ) (Good : σ → Prop) (s : σ) (op : Operation) : σ × Answer → Prop
  | failed (e : StoreError) : Outcome A Good s op (s, .error e)
  | succeeded {s' : σ} (v : Value) (hgood : Good s')
      (hchanges : op.Changes (A.projects s) (A.files s) (A.projects s') (A.files s')) :
      Outcome A Good s op (s', .ok v)

/-- An operation that only reads leaves the store as it is. -/
theorem outcome_of_reads {A : Adapter σ} {Good : σ → Prop} {s : σ} {op : Operation} (h : Good s)
    (hop : op.Changes (A.projects s) (A.files s) (A.projects s) (A.files s)) (answer : Answer) :
    A.Outcome Good s op (s, answer) := by
  cases answer with
  | error e => exact .failed e
  | ok v => exact .succeeded v h hop

/-- **What single operations do**, in the states of which `Good` holds. -/
structure Spec (A : Adapter σ) (Good : σ → Prop) : Prop where
  good_empty : Good A.empty
  projects_empty : A.projects A.empty = []
  files_empty : A.files A.empty = []
  run : ∀ {s}, Good s → ∀ op, A.Outcome Good s op (A.run s op)
  write : ∀ s op, op.isWrite = true →
    (A.run s op).2 = writeAnswer (op.refusal? A.tooLarge (A.projects s) (A.files s))
  getProject : ∀ s id, (A.run s (.getProject id)).2 =
    match (A.projects s).find? fun p => p.id = id with
    | some p => (A.readProject p).map .project
    | none => .error (.projectNotFound id)
  getFile : ∀ s projectId fileName, (A.run s (.getFile projectId fileName)).2 =
    match (A.files s).find? fun f => fileKey f = (projectId, fileName) with
    | some f => (A.readFile f).map .file
    | none => .error (.fileNotFound projectId fileName)
  listProjects : ∀ s, (A.run s .listProjects).2
    = ((Project.inOrder (A.projects s)).mapM A.readProject).map .projects
  listFiles : ∀ {s}, Good s → ∀ projectId, (A.run s (.listFiles projectId)).2 =
    if (A.projects s).any fun p => p.id = projectId then
      ((((A.files s).filter fun f => f.projectId = projectId).mergeSort fun a b =>
        !(b.fileName < a.fileName)).mapM A.readFile).map .files
    else .error (.projectNotFound projectId)
  loadSources : ∀ s projectId, (A.run s (.loadSources projectId)).2 =
    (A.run s (.listFiles projectId)).2.map fun
      | .files fs => .sources (SourceFile.sources fs)
      | v => v

end Adapter

/-! ## One change -/

variable {log : Log} {ps ps' : List Project} {fs fs' : List SourceFile} {op : Operation}

namespace Log

/-- What operations keep of a value holds of the latest one. -/
theorem latest?_induction {α : Type} {after : Option α → Operation → Option α} {P : α → Prop}
    (hafter : ∀ before op a, (∀ b, before = some b → P b) → after before op = some a → P a) {a : α}
    (h : log.latest? after = some a) : P a := by
  induction log generalizing a with
  | nil => exact nomatch h
  | cons entry log ih =>
      obtain ⟨op, answer⟩ := entry
      cases answer with
      | error e => exact ih h
      | ok v => exact hafter _ op a (fun _ => ih) h

theorem project?_cons_ok (v : Value) (id : String) :
    Log.project? ((op, .ok v) :: log) id = op.projectAfter id (log.project? id) := rfl

theorem file?_cons_ok (v : Value) (projectId fileName : String) :
    Log.file? ((op, .ok v) :: log) projectId fileName
      = op.fileAfter projectId fileName (log.file? projectId fileName) := rfl

theorem id_of_project? {id : String} {p : Project} (h : log.project? id = some p) : p.id = id := by
  refine latest?_induction (P := fun p : Project => p.id = id) ?_ h
  intro before op p hbefore hp
  cases op with
  | createProject q =>
      rw [Operation.projectAfter] at hp
      by_cases hq : q.id = id
      · rw [if_pos hq] at hp
        rw [← Option.some.inj hp]
        exact hq
      · rw [if_neg hq] at hp
        exact hbefore p hp
  | updateProject q =>
      rw [Operation.projectAfter] at hp
      by_cases hq : q.id = id
      · rw [if_pos hq] at hp
        obtain ⟨stored, hstored, rfl⟩ := Option.map_eq_some_iff.mp hp
        exact hbefore stored hstored
      · rw [if_neg hq] at hp
        exact hbefore p hp
  | deleteProject d =>
      rw [Operation.projectAfter, Option.ite_none_left_eq_some] at hp
      exact hbefore p hp.2
  | _ => exact hbefore p hp

theorem fileKey_of_file? {projectId fileName : String} {f : SourceFile}
    (h : log.file? projectId fileName = some f) : fileKey f = (projectId, fileName) := by
  refine latest?_induction (P := fun f => fileKey f = (projectId, fileName)) ?_ h
  intro before op f hbefore hf
  cases op with
  | saveFile g =>
      rw [Operation.fileAfter] at hf
      by_cases hg : fileKey g = (projectId, fileName)
      · rw [if_pos hg] at hf
        rw [← Option.some.inj hf]
        exact hg
      · rw [if_neg hg] at hf
        exact hbefore f hf
  | deleteFile p n =>
      rw [Operation.fileAfter, Option.ite_none_left_eq_some] at hf
      exact hbefore f hf.2
  | deleteProject d =>
      rw [Operation.fileAfter, Option.ite_none_left_eq_some] at hf
      exact hbefore f hf.2
  | _ => exact hbefore f hf

end Log

/-- What a store holds is what the log says: `projects` and `files`, each once. -/
structure Holds (log : Log) (ps : List Project) (fs : List SourceFile) : Prop where
  projects : ∀ p, p ∈ ps ↔ log.project? p.id = some p
  files : ∀ f, f ∈ fs ↔ log.file? f.projectId f.fileName = some f
  owned : ∀ f ∈ fs, ∃ p ∈ ps, p.id = f.projectId
  projectsApart : ps.Pairwise fun p q => p.id ≠ q.id
  filesApart : fs.Pairwise fun f g => fileKey f ≠ fileKey g

namespace Holds

variable {v : Value}

theorem start : Holds [] [] [] where
  projects := fun _ => ⟨nofun, nofun⟩
  files := fun _ => ⟨nofun, nofun⟩
  owned := nofun
  projectsApart := List.Pairwise.nil
  filesApart := List.Pairwise.nil

theorem failed (h : Holds log ps fs) (op : Operation) (e : StoreError) :
    Holds ((op, .error e) :: log) ps fs :=
  ⟨h.projects, h.files, h.owned, h.projectsApart, h.filesApart⟩

theorem create (h : Holds log ps fs) {p : Project} (hnew : ∀ q ∈ ps, q.id ≠ p.id)
    (hps : ps'.Perm (p :: ps)) : Holds ((.createProject p, .ok v) :: log) ps' fs := by
  have hmem : ∀ q, q ∈ ps' ↔ q = p ∨ q ∈ ps := fun q => hps.mem_iff.trans List.mem_cons
  constructor
  case projects =>
    intro q
    rw [hmem, Log.project?_cons_ok, Operation.projectAfter]
    by_cases hid : p.id = q.id
    · rw [if_pos hid, Option.some_inj]
      refine ⟨fun hq => ?_, fun hq => Or.inl hq.symm⟩
      rcases hq with rfl | hq
      · rfl
      · exact absurd hid.symm (hnew q hq)
    · rw [if_neg hid, ← h.projects]
      refine ⟨fun hq => hq.resolve_left ?_, Or.inr⟩
      rintro rfl
      exact hid rfl
  case files => exact h.files
  case owned =>
    intro f hf
    obtain ⟨q, hq, hid⟩ := h.owned f hf
    exact ⟨q, (hmem q).mpr (Or.inr hq), hid⟩
  case projectsApart =>
    refine (hps.pairwise_iff fun h => h.symm).mpr (List.pairwise_cons.mpr ⟨?_, h.projectsApart⟩)
    exact fun q hq => (hnew q hq).symm
  case filesApart => exact h.filesApart

theorem update (h : Holds log ps fs) (p : Project) :
    Holds ((.updateProject p, .ok v) :: log)
      (ps.map fun q => if q.id = p.id then updated p q else q) fs := by
  have hid : ∀ q : Project, (if q.id = p.id then updated p q else q).id = q.id := by
    intro q
    by_cases hq : q.id = p.id
    · rw [if_pos hq]
      rfl
    · rw [if_neg hq]
  constructor
  case projects =>
    intro q
    rw [List.mem_map, Log.project?_cons_ok, Operation.projectAfter]
    by_cases hq : p.id = q.id
    · rw [if_pos hq, Option.map_eq_some_iff]
      constructor
      · rintro ⟨r, hr, rfl⟩
        rw [hid] at hq ⊢
        exact ⟨r, (h.projects r).mp hr, by rw [if_pos hq.symm]⟩
      · rintro ⟨r, hr, rfl⟩
        have hrid := Log.id_of_project? hr
        refine ⟨r, (h.projects r).mpr ?_, by rw [if_pos (hrid.trans hq.symm)]⟩
        rw [hrid]
        exact hr
    · rw [if_neg hq, ← h.projects]
      constructor
      · rintro ⟨r, hr, rfl⟩
        rw [hid] at hq
        rw [if_neg (Ne.symm hq)]
        exact hr
      · exact fun hmem => ⟨q, hmem, if_neg (Ne.symm hq)⟩
  case files => exact h.files
  case owned =>
    intro f hf
    obtain ⟨q, hq, hqid⟩ := h.owned f hf
    exact ⟨_, List.mem_map_of_mem hq, (hid q).trans hqid⟩
  case projectsApart =>
    refine List.pairwise_map.mpr (h.projectsApart.imp ?_)
    intro q r hqr
    rw [hid, hid]
    exact hqr
  case filesApart => exact h.filesApart

theorem delete (h : Holds log ps fs) (id : String) :
    Holds ((.deleteProject id, .ok v) :: log) (ps.filter fun q => q.id ≠ id)
      (fs.filter fun f => f.projectId ≠ id) := by
  constructor
  case projects =>
    intro q
    rw [List.mem_filter, decide_eq_true_eq, Log.project?_cons_ok, Operation.projectAfter, h.projects]
    by_cases hid : id = q.id
    · rw [if_pos hid]
      exact ⟨fun hq => absurd hid.symm hq.2, nofun⟩
    · rw [if_neg hid]
      exact ⟨And.left, fun hq => ⟨hq, Ne.symm hid⟩⟩
  case files =>
    intro f
    rw [List.mem_filter, decide_eq_true_eq, Log.file?_cons_ok, Operation.fileAfter, h.files]
    by_cases hid : id = f.projectId
    · rw [if_pos hid]
      exact ⟨fun hf => absurd hid.symm hf.2, nofun⟩
    · rw [if_neg hid]
      exact ⟨And.left, fun hf => ⟨hf, Ne.symm hid⟩⟩
  case owned =>
    -- the project of a file that stays has another id
    intro f hf
    obtain ⟨hf, hne⟩ := List.mem_filter.mp hf
    obtain ⟨q, hq, hqid⟩ := h.owned f hf
    refine ⟨q, List.mem_filter.mpr ⟨hq, ?_⟩, hqid⟩
    rw [hqid]
    exact hne
  case projectsApart => exact h.projectsApart.filter _
  case filesApart => exact h.filesApart.filter _

theorem save (h : Holds log ps fs) {f : SourceFile} (hproject : ∃ q ∈ ps, q.id = f.projectId)
    (hfs : fs'.Perm (f :: fs.filter fun g => fileKey g ≠ fileKey f)) :
    Holds ((.saveFile f, .ok v) :: log) ps fs' := by
  have hmem : ∀ g, g ∈ fs' ↔ g = f ∨ (g ∈ fs ∧ fileKey g ≠ fileKey f) := by
    intro g
    rw [hfs.mem_iff, List.mem_cons, List.mem_filter, decide_eq_true_eq]
  constructor
  case projects => exact h.projects
  case files =>
    intro g
    rw [hmem, Log.file?_cons_ok, Operation.fileAfter, h.files]
    show _ ↔ (if fileKey f = fileKey g then _ else _) = _
    by_cases hkey : fileKey f = fileKey g
    · rw [if_pos hkey, Option.some_inj]
      exact ⟨fun hg => (hg.resolve_right fun hg => hg.2 hkey.symm).symm, fun hg => Or.inl hg.symm⟩
    · rw [if_neg hkey]
      refine ⟨fun hg => (hg.resolve_left ?_).1, fun hg => Or.inr ⟨hg, Ne.symm hkey⟩⟩
      rintro rfl
      exact hkey rfl
  case owned =>
    intro g hg
    rcases (hmem g).mp hg with rfl | hg
    · exact hproject
    · exact h.owned g hg.1
  case projectsApart => exact h.projectsApart
  case filesApart =>
    refine (hfs.pairwise_iff fun h => h.symm).mpr
      (List.pairwise_cons.mpr ⟨?_, h.filesApart.filter _⟩)
    intro g hg
    exact (of_decide_eq_true (List.mem_filter.mp hg).2).symm

theorem deleteFile (h : Holds log ps fs) (projectId fileName : String) :
    Holds ((.deleteFile projectId fileName, .ok v) :: log) ps
      (fs.filter fun f => fileKey f ≠ (projectId, fileName)) := by
  constructor
  case projects => exact h.projects
  case files =>
    intro f
    rw [List.mem_filter, decide_eq_true_eq, Log.file?_cons_ok, Operation.fileAfter, h.files]
    show _ ↔ (if (projectId, fileName) = fileKey f then _ else _) = _
    by_cases hkey : (projectId, fileName) = fileKey f
    · rw [if_pos hkey]
      exact ⟨fun hf => absurd hkey.symm hf.2, nofun⟩
    · rw [if_neg hkey]
      exact ⟨And.left, fun hf => ⟨hf, Ne.symm hkey⟩⟩
  case owned => exact fun f hf => h.owned f (List.mem_filter.mp hf).1
  case projectsApart => exact h.projectsApart
  case filesApart => exact h.filesApart.filter _

/-- **Every change keeps what the log says.** -/
theorem succeeded (h : Holds log ps fs) (hop : op.Changes ps fs ps' fs') :
    Holds ((op, .ok v) :: log) ps' fs' := by
  cases op with
  | createProject p =>
      obtain ⟨hnew, hps, rfl⟩ := hop
      exact h.create hnew hps
  | updateProject p =>
      obtain ⟨-, rfl, rfl⟩ := hop
      exact h.update p
  | deleteProject id =>
      obtain ⟨-, rfl, rfl⟩ := hop
      exact h.delete id
  | saveFile f =>
      obtain ⟨hproject, rfl, hfs⟩ := hop
      exact h.save hproject hfs
  | deleteFile projectId fileName =>
      obtain ⟨-, rfl, rfl⟩ := hop
      exact h.deleteFile projectId fileName
  | getProject | listProjects | getFile | listFiles | loadSources =>
      obtain ⟨rfl, rfl⟩ := hop
      exact ⟨h.projects, h.files, h.owned, h.projectsApart, h.filesApart⟩

end Holds

/-! ## Lookups -/

/-- A lookup by a key finds the one value that is there. -/
theorem find?_eq_of_mem_iff {α κ : Type} [DecidableEq κ] {key : α → κ} {k : κ} {as : List α}
    {found : Option α} (hmem : ∀ a, key a = k → (a ∈ as ↔ found = some a))
    (hkey : ∀ a, found = some a → key a = k) : (as.find? fun a => key a = k) = found := by
  cases hfind : as.find? fun a => key a = k with
  | some a =>
      have hak : key a = k := by simpa using List.find?_some hfind
      exact ((hmem a hak).mp (List.mem_of_find?_eq_some hfind)).symm
  | none =>
      rw [List.find?_eq_none] at hfind
      cases found with
      | none => rfl
      | some a =>
          have hak := hkey a rfl
          exact absurd (decide_eq_true hak) (hfind a ((hmem a hak).mpr rfl))

namespace Holds

theorem find?_project (h : Holds log ps fs) (id : String) :
    (ps.find? fun p => p.id = id) = log.project? id := by
  refine find?_eq_of_mem_iff ?_ fun p hp => Log.id_of_project? hp
  rintro p rfl
  exact h.projects p

theorem find?_file (h : Holds log ps fs) (projectId fileName : String) :
    (fs.find? fun f => fileKey f = (projectId, fileName)) = log.file? projectId fileName := by
  refine find?_eq_of_mem_iff ?_ fun f hf => Log.fileKey_of_file? hf
  intro f hf
  obtain ⟨rfl, rfl⟩ := Prod.mk.inj hf
  exact h.files f

end Holds

/-! ## The laws -/

namespace Adapter

variable {σ : Type} {A : Adapter σ} {Good : σ → Prop}

namespace Spec

/-- **Every run holds what its log says**, by induction on the run. -/
theorem holds (hA : A.Spec Good) {s : σ} (h : A.Reaches log s) :
    Good s ∧ Holds log (A.projects s) (A.files s) := by
  induction h with
  | start =>
      refine ⟨hA.good_empty, ?_⟩
      rw [hA.projects_empty, hA.files_empty]
      exact Holds.start
  | step _ op ih =>
      rename_i log s _
      obtain ⟨hgood, hholds⟩ := ih
      have hrun := hA.run hgood op
      generalize A.run s op = r at hrun ⊢
      cases hrun with
      | failed e => exact ⟨hgood, hholds.failed op e⟩
      | succeeded v hgood' hchanges => exact ⟨hgood', hholds.succeeded hchanges⟩

/-- Projects are listed by creation and id, which no two of them share. -/
theorem sorted_inOrder (hapart : ps.Pairwise fun p q => p.id ≠ q.id) :
    (Project.inOrder ps).Pairwise fun p q => p.createdAt.before q.createdAt = true ∨
      p.createdAt = q.createdAt ∧ p.id < q.id := by
  have hkeys : ps.Pairwise fun p q => (p.createdAt, p.id) ≠ (q.createdAt, q.id) :=
    hapart.imp fun hne heq => hne (congrArg Prod.snd heq)
  refine (keySorted_mergeSort (fun p : Project => (p.createdAt, p.id)) isKeyOrder_listing hkeys).imp ?_
  intro p q hpq
  simpa [idBefore] using hpq

/-- The files of one project are listed by name, which no two of them share. -/
theorem sorted_byName (hapart : fs.Pairwise fun f g => fileKey f ≠ fileKey g) (projectId : String) :
    ((fs.filter fun f => f.projectId = projectId).mergeSort fun a b =>
      !(b.fileName < a.fileName)).Pairwise fun f g =>
        Text.utf8 f.fileName < Text.utf8 g.fileName := by
  have hnames : (fs.filter fun f => f.projectId = projectId).Pairwise fun f g =>
      f.fileName ≠ g.fileName := by
    refine List.Pairwise.imp_of_mem ?_ (hapart.filter _)
    intro f g hf hg hne heq
    have hfp : f.projectId = projectId := by simpa using (List.mem_filter.mp hf).2
    have hgp : g.projectId = projectId := by simpa using (List.mem_filter.mp hg).2
    exact hne (Prod.ext (hfp.trans hgp.symm) heq)
  refine (keySorted_mergeSort SourceFile.fileName isKeyOrder_idBefore hnames).imp ?_
  intro f g hfg
  exact Text.utf8_lt_utf8 (of_decide_eq_true hfg)

/-- **A store whose operations do what they should is lawful.** -/
theorem lawful (hA : A.Spec Good) : A.Lawful where
  failure := by
    intro log s h op e he
    have hrun := hA.run (hA.holds h).1 op
    generalize A.run s op = r at hrun he ⊢
    cases hrun with
    | failed => rfl
    | succeeded => exact nomatch he
  success := by
    intro log s h op v hv
    have hrun := hA.run (hA.holds h).1 op
    generalize A.run s op = r at hrun hv ⊢
    cases hrun with
    | failed => exact nomatch hv
    | succeeded _ _ hchanges => exact hchanges
  write := fun _ => hA.write _
  owned := fun h => (hA.holds h).2.owned
  projectsApart := fun h => (hA.holds h).2.projectsApart
  filesApart := fun h => (hA.holds h).2.filesApart
  getProject := by
    intro log s h id
    rw [hA.getProject, (hA.holds h).2.find?_project]
  getFile := by
    intro log s h projectId fileName
    rw [hA.getFile, (hA.holds h).2.find?_file]
  listProjects := by
    intro log s h
    refine ⟨Project.inOrder (A.projects s), List.mergeSort_perm _ _, ?_, hA.listProjects s⟩
    exact sorted_inOrder (hA.holds h).2.projectsApart
  listFiles := by
    intro log s h projectId
    rw [hA.listFiles (hA.holds h).1]
    constructor
    · intro hnone
      rw [if_neg]
      simpa using hnone
    · intro hsome
      refine ⟨_, List.mergeSort_perm _ _, sorted_byName (hA.holds h).2.filesApart projectId, ?_⟩
      rw [if_pos]
      simpa using hsome
  loadSources := hA.loadSources

end Spec

end Adapter

end StLint.Store
