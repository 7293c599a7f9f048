import Mathlib.Data.String.Basic
import StLint.Proofs.Collection.Keyed
import StLint.Store.Memory
import StLint.Store.Tables

/-!
# The two stores agree

The store in memory keeps its values in the order of their keys, the tables keep their rows in the
order in which they were inserted and sort them when they are read. **No answer shows which of the
two it came from**: after the same operations both hold the same values, and every lookup and every
listing depends on the values alone.

* `Memory.Ordered` — the maps in memory are in the order of their keys.
* `Agree` — a memory and tables with the same values.
* `Agree.run` — one operation answers the same and keeps the agreement.
* `runAll_agree` — so does every list of operations on empty stores.
-/

namespace StLint

/-! ## Orders -/

/-- Instants are told apart by their order. -/
theorem Timestamp.isKeyOrder_before : IsKeyOrder Timestamp.before := by
  have hparts : IsKeyOrder _ := IsKeyOrder.pairs (IsKeyOrder.ofLinearOrder (κ := Int))
    (IsKeyOrder.pairs (IsKeyOrder.ofLinearOrder (κ := Nat)) (IsKeyOrder.ofLinearOrder (κ := Nat)))
  refine hparts.comap (f := fun t : Timestamp => (t.day, t.second, t.nanosecond)) ?_
  rintro ⟨d, s, n⟩ ⟨d', s', n'⟩ h
  simp only [Prod.mk.injEq] at h
  obtain ⟨rfl, rfl, rfl⟩ := h
  rfl

namespace Store

def idBefore (a b : String) : Bool := a < b

theorem isKeyOrder_idBefore : IsKeyOrder idBefore := IsKeyOrder.ofLinearOrder

theorem isKeyOrder_fileKeyBefore : IsKeyOrder Memory.fileKeyBefore :=
  IsKeyOrder.pairs isKeyOrder_idBefore isKeyOrder_idBefore

/-- The order in which projects are listed. -/
theorem isKeyOrder_listing : IsKeyOrder fun a b : Timestamp × String =>
    a.1.before b.1 || (decide (a.1 = b.1) && idBefore a.2 b.2) :=
  IsKeyOrder.pairs Timestamp.isKeyOrder_before isKeyOrder_idBefore

/-- A row of the projects can be read if both its times can. -/
theorem readProject_eq_ok_iff {p : Project} :
    readProject p = .ok p ↔ isReadable p.createdAt = true ∧ isReadable p.updatedAt = true := by
  rw [readProject, ← Bool.and_eq_true]
  by_cases hp : (isReadable p.createdAt && isReadable p.updatedAt) = true
  · simp [hp]
  · simp [hp]

/-! ## A memory in order -/

namespace Memory

variable {m : Memory}

/-- The maps are in the order of their keys. -/
structure Ordered (m : Memory) : Prop where
  projects : KeySorted Project.id idBefore m.projects
  files : KeySorted fileKey fileKeyBefore m.files

theorem ordered_empty : empty.Ordered := ⟨List.Pairwise.nil, List.Pairwise.nil⟩

theorem Ordered.putProject (h : m.Ordered) (p : Project) : (m.putProject p).Ordered :=
  ⟨h.projects.insertKeyed isKeyOrder_idBefore, h.files⟩

theorem Ordered.putFile (h : m.Ordered) (f : SourceFile) : (m.putFile f).Ordered :=
  ⟨h.projects, h.files.insertKeyed isKeyOrder_fileKeyBefore⟩

theorem Ordered.dropProject (h : m.Ordered) (id : String) : (m.dropProject id).Ordered :=
  ⟨h.projects.filter _, h.files⟩

theorem Ordered.dropFile (h : m.Ordered) (projectId fileName : String) :
    (m.dropFile projectId fileName).Ordered :=
  ⟨h.projects, h.files.filter _⟩

theorem Ordered.dropFiles (h : m.Ordered) (projectId : String) : (m.dropFiles projectId).Ordered :=
  ⟨h.projects, h.files.filter _⟩

theorem Ordered.eq_of_id_eq (h : m.Ordered) {p q : Project} (hp : p ∈ m.projects)
    (hq : q ∈ m.projects) (hid : p.id = q.id) : p = q :=
  h.projects.eq_of_key_eq isKeyOrder_idBefore hp hq hid

theorem Ordered.eq_of_fileKey_eq (h : m.Ordered) {f g : SourceFile} (hf : f ∈ m.files)
    (hg : g ∈ m.files) (hkey : fileKey f = fileKey g) : f = g :=
  h.files.eq_of_key_eq isKeyOrder_fileKeyBefore hf hg hkey

theorem hasProject_iff {id : String} : m.hasProject id = true ↔ ∃ p ∈ m.projects, p.id = id := by
  rw [hasProject, project?, List.isSome_find?, List.any_eq_true]
  simp

/-- A project with a new id replaces nothing. -/
theorem Ordered.putProject_perm (h : m.Ordered) {p : Project} (hnew : ∀ q ∈ m.projects, q.id ≠ p.id) :
    (m.putProject p).projects.Perm (p :: m.projects) := by
  have hothers : m.projects.filter (fun q => q.id ≠ p.id) = m.projects := by
    simpa [List.filter_eq_self] using hnew
  have hput := insertKeyed_perm (a := p) isKeyOrder_idBefore h.projects
  rw [hothers] at hput
  exact hput

/-- A file replaces the one with its name. -/
theorem Ordered.putFile_perm (h : m.Ordered) (f : SourceFile) :
    (m.putFile f).files.Perm (f :: m.files.filter fun g => fileKey g ≠ fileKey f) :=
  insertKeyed_perm isKeyOrder_fileKeyBefore h.files

/-- The files of a project stand in the order of their names. -/
theorem Ordered.filesOf_sorted (h : m.Ordered) (projectId : String) :
    KeySorted SourceFile.fileName idBefore (m.filesOf projectId) := by
  -- the keys of one project differ in the file name alone, so their order is that of the names
  refine List.Pairwise.imp_of_mem ?_ (h.files.filter fun f => f.projectId = projectId)
  intro f g hf hg hfg
  have hfp : f.projectId = projectId := by simpa using (List.mem_filter.mp hf).2
  have hgp : g.projectId = projectId := by simpa using (List.mem_filter.mp hg).2
  simpa [fileKey, fileKeyBefore, hfp, hgp, idBefore] using hfg

/-- Sorting the files of a project by name brings them into the order of the map. -/
theorem Ordered.mergeSort_filesOf (h : m.Ordered) {projectId : String} {fs : List SourceFile}
    (hfs : fs.Perm (m.filesOf projectId)) :
    fs.mergeSort (fun a b => !(b.fileName < a.fileName)) = m.filesOf projectId := by
  have hsorted := h.filesOf_sorted projectId
  refine mergeSort_eq_of_keys SourceFile.fileName isKeyOrder_idBefore hfs ?_ ?_
  · refine hsorted.imp ?_
    intro f g hfg
    rw [isKeyOrder_idBefore.asymm hfg]
    rfl
  · intro f hf g hg hname
    exact hsorted.eq_of_key_eq isKeyOrder_idBefore hf hg hname

end Memory

/-! ## The agreement -/

/-- A memory and tables that hold the same values, where every row can be read. -/
structure Agree (m : Memory) (t : Tables) : Prop where
  ordered : m.Ordered
  projects : m.projects.Perm t.projects
  files : m.files.Perm t.files
  projectsReadable : ∀ p ∈ t.projects, readProject p = .ok p
  filesReadable : ∀ f ∈ t.files, readFile f = .ok f

/-- What both stores can keep: times with a year of four digits and sizes of less than 64 bits. -/
def Operation.fits : Operation → Bool
  | .createProject p | .updateProject p => isReadable p.createdAt && isReadable p.updatedAt
  | .saveFile f => isReadable f.uploadedAt && f.size < 2 ^ 63
  | _ => true

/-- Both stores answer alike and agree afterwards. -/
def AgreeAfter (r : Memory × Answer) (s : Tables × Answer) : Prop := r.2 = s.2 ∧ Agree r.1 s.1

theorem agree_empty : Agree .empty .empty where
  ordered := Memory.ordered_empty
  projects := List.Perm.nil
  files := List.Perm.nil
  projectsReadable := fun _ h => nomatch h
  filesReadable := fun _ h => nomatch h

namespace Agree

variable {m : Memory} {t : Tables}

/-! ### What is found and listed -/

theorem hasProject_eq (h : Agree m t) (id : String) : m.hasProject id = t.hasProject id := by
  rw [Memory.hasProject, Memory.project?, List.isSome_find?, Tables.hasProject, h.projects.any_eq]

theorem project?_eq (h : Agree m t) (id : String) :
    m.project? id = t.projects.find? fun p => p.id = id := by
  refine find?_eq_of_perm h.projects ?_
  intro p hp q hq hpid hqid
  simp only [decide_eq_true_eq] at hpid hqid
  exact h.ordered.eq_of_id_eq hp hq (hpid.trans hqid.symm)

theorem isFile_eq (projectId fileName : String) :
    (fun f : SourceFile => decide (Memory.fileKey f = (projectId, fileName)))
      = Tables.isFile projectId fileName := by
  funext f
  simp [Memory.fileKey, Tables.isFile]

/-- The rows of other files are those with other keys. -/
theorem not_isFile_eq (projectId fileName : String) :
    (fun f => !Tables.isFile projectId fileName f)
      = fun f => decide (Memory.fileKey f ≠ (projectId, fileName)) := by
  funext f
  rw [← isFile_eq]
  simp

theorem file?_eq (h : Agree m t) (projectId fileName : String) :
    m.file? projectId fileName = t.files.find? (Tables.isFile projectId fileName) := by
  rw [Memory.file?, isFile_eq]
  refine find?_eq_of_perm h.files ?_
  intro f hf g hg hfkey hgkey
  rw [← isFile_eq, decide_eq_true_eq] at hfkey hgkey
  exact h.ordered.eq_of_fileKey_eq hf hg (hfkey.trans hgkey.symm)

/-- **Projects are listed alike**: no two of them stand level. -/
theorem inOrder_eq (h : Agree m t) : Project.inOrder m.projects = Project.inOrder t.projects := by
  symm
  refine mergeSort_congr_of_keys (fun p : Project => (p.createdAt, p.id)) isKeyOrder_listing
    h.projects.symm ?_
  intro p hp q hq hkey
  exact h.ordered.eq_of_id_eq hp hq (congrArg Prod.snd hkey)

/-- **The files of a project are listed alike**: in memory they stand in the order of their names. -/
theorem mergeSort_files_eq (h : Agree m t) (projectId : String) :
    (t.files.filter fun f => f.projectId = projectId).mergeSort (fun a b => !(b.fileName < a.fileName))
      = m.filesOf projectId :=
  h.ordered.mergeSort_filesOf (h.files.symm.filter _)

/-- Rows that can be read are read as they are. -/
theorem mapM_eq_ok_self {α ε : Type} {f : α → Except ε α} {as : List α}
    (h : ∀ a ∈ as, f a = .ok a) : as.mapM f = .ok as := by
  induction as with
  | nil => rfl
  | cons a as ih =>
      rw [List.mapM_cons, h a (List.mem_cons_self ..), ih fun b hb => h b (List.mem_cons_of_mem a hb)]
      rfl

theorem mapM_readProject (h : Agree m t) :
    (Project.inOrder t.projects).mapM readProject = .ok (Project.inOrder m.projects) := by
  rw [h.inOrder_eq]
  refine mapM_eq_ok_self ?_
  intro p hp
  exact h.projectsReadable p (List.mem_mergeSort.mp hp)

theorem filesOf_eq (h : Agree m t) (projectId : String) :
    t.filesOf projectId = if m.hasProject projectId then .ok (m.filesOf projectId)
      else .error (.projectNotFound projectId) := by
  rw [Tables.filesOf, h.mergeSort_files_eq, h.hasProject_eq]
  have hread : (m.filesOf projectId).mapM readFile = .ok (m.filesOf projectId) := by
    refine mapM_eq_ok_self ?_
    intro f hf
    exact h.filesReadable f (h.files.mem_iff.mp (List.mem_filter.mp hf).1)
  rw [hread]

/-! ### What is changed -/

/-- A new project is put in its place in memory and behind the others in the table. -/
theorem create (h : Agree m t) {p : Project} (hp : readProject p = .ok p) :
    AgreeAfter (m.create p) (t.commit (t.create p)) := by
  rw [Memory.create, Tables.create]
  cases hv : p.validate with
  | error e => exact ⟨rfl, h⟩
  | ok =>
      rw [h.hasProject_eq]
      by_cases hid : t.hasProject p.id = true
      · simp only [hid]
        exact ⟨rfl, h⟩
      · simp only [hid]
        refine ⟨rfl, h.ordered.putProject p, ?_, h.files, ?_, h.filesReadable⟩
        · have hnew : ∀ q ∈ m.projects, q.id ≠ p.id := by
            rw [← h.hasProject_eq, Memory.hasProject_iff] at hid
            simpa using hid
          have hput := h.ordered.putProject_perm hnew
          exact (hput.trans (h.projects.cons p)).trans (List.perm_append_singleton p t.projects).symm
        · intro q hq
          rcases List.mem_append.mp hq with hq | hq
          · exact h.projectsReadable q hq
          · rw [List.mem_singleton.mp hq]
            exact hp

/-- A project with what an update replaces. -/
def updated (p stored : Project) : Project :=
  { stored with name := p.name, description := p.description, updatedAt := p.updatedAt }

/-- The key of an update is in its place already, so the map changes at this one value. -/
theorem putProject_updated (h : m.Ordered) {p stored : Project}
    (hfind : m.project? p.id = some stored) :
    (m.putProject (updated p stored)).projects
      = m.projects.map fun q => if q.id = p.id then updated p q else q := by
  have hstored : stored.id = p.id := by simpa using List.find?_some hfind
  rw [← hstored]
  exact insertKeyed_eq_map isKeyOrder_idBefore h.projects (updated p)
    (List.mem_of_find?_eq_some hfind) rfl

theorem update (h : Agree m t) {p : Project} (hp : readProject p = .ok p) :
    AgreeAfter (m.update p) (t.commit (t.update p)) := by
  rw [Memory.update, Tables.update]
  cases hv : p.validate with
  | error e => exact ⟨rfl, h⟩
  | ok =>
      dsimp only
      cases hfind : m.project? p.id with
      | none =>
          have hid : t.hasProject p.id = false := by
            rw [← h.hasProject_eq, Memory.hasProject, hfind]
            rfl
          simp only [hid]
          exact ⟨rfl, h⟩
      | some stored =>
          have hid : t.hasProject p.id = true := by
            rw [← h.hasProject_eq, Memory.hasProject, hfind]
            rfl
          simp only [hid]
          refine ⟨rfl, h.ordered.putProject _, ?_, h.files, ?_, h.filesReadable⟩
          · show (m.putProject (updated p stored)).projects.Perm _
            rw [putProject_updated h.ordered hfind]
            exact h.projects.map _
          · intro q hq
            obtain ⟨row, hrow, rfl⟩ := List.mem_map.mp hq
            have hread := h.projectsReadable row hrow
            by_cases hrid : row.id = p.id
            · -- the time of creation is the stored one, and the time of the update a given one
              rw [if_pos hrid, readProject_eq_ok_iff]
              exact ⟨(readProject_eq_ok_iff.mp hread).1, (readProject_eq_ok_iff.mp hp).2⟩
            · rw [if_neg hrid]
              exact hread

theorem delete (h : Agree m t) (id : String) :
    AgreeAfter (m.run (.deleteProject id)) (t.commit (t.delete id)) := by
  rw [Memory.run, Memory.begin, Tables.delete, h.hasProject_eq]
  by_cases hid : t.hasProject id = true
  · simp only [hid]
    refine ⟨rfl, (h.ordered.dropProject id).dropFiles id, h.projects.filter _, h.files.filter _, ?_, ?_⟩
    · intro p hp
      exact h.projectsReadable p (List.mem_filter.mp hp).1
    · intro f hf
      exact h.filesReadable f (List.mem_filter.mp hf).1
  · simp only [hid]
    exact ⟨rfl, h⟩

/-- A file is put in the place of the one with its name. -/
theorem save (h : Agree m t) {f : SourceFile} (hf : readFile f = .ok f) (hsize : f.size ≤ maxSize) :
    AgreeAfter (m.run (.saveFile f)) (t.commit (t.save f)) := by
  rw [Memory.run, Memory.begin, Tables.save]
  cases hv : f.validate with
  | error e => exact ⟨rfl, h⟩
  | ok =>
      dsimp only
      rw [Memory.withProject, h.hasProject_eq]
      by_cases hid : t.hasProject f.projectId = true
      · have hfits : ¬ maxSize < f.size := Nat.not_lt.mpr hsize
        simp only [hid, hfits]
        refine ⟨rfl, h.ordered.putFile f, h.projects, ?_, h.projectsReadable, ?_⟩
        · -- the table loses the row with this key, if there is one, and gains one at its end
          have hput := h.ordered.putFile_perm f
          refine hput.trans ?_
          rw [not_isFile_eq]
          exact ((h.files.filter _).cons f).trans (List.perm_append_singleton f _).symm
        · intro g hg
          rcases List.mem_append.mp hg with hg | hg
          · exact h.filesReadable g (List.mem_filter.mp hg).1
          · rw [List.mem_singleton.mp hg]
            exact hf
      · simp only [hid]
        exact ⟨rfl, h⟩

theorem deleteFile (h : Agree m t) (projectId fileName : String) :
    AgreeAfter (m.run (.deleteFile projectId fileName))
      (t.commit (t.deleteFile projectId fileName)) := by
  have hfound : (m.file? projectId fileName).isSome
      = t.files.any (Tables.isFile projectId fileName) := by
    rw [h.file?_eq, List.isSome_find?]
  rw [Memory.run, Memory.begin, Tables.deleteFile, hfound]
  by_cases hany : t.files.any (Tables.isFile projectId fileName) = true
  · simp only [hany]
    refine ⟨rfl, h.ordered.dropFile projectId fileName, h.projects, ?_, h.projectsReadable, ?_⟩
    · show (m.files.filter _).Perm (t.files.filter _)
      rw [not_isFile_eq]
      exact h.files.filter _
    · intro f hf
      exact h.filesReadable f (List.mem_filter.mp hf).1
  · simp only [hany]
    exact ⟨rfl, h⟩

/-! ### One operation -/

/-- **One operation answers the same** in both stores and keeps the agreement. -/
theorem run (h : Agree m t) {op : Operation} (hop : op.fits = true) :
    AgreeAfter (m.run op) (t.run op) := by
  cases op with
  | createProject p =>
      exact h.create (readProject_eq_ok_iff.mpr (Bool.and_eq_true_iff.mp hop))
  | getProject id =>
      refine ⟨?_, h⟩
      simp only [Memory.run, Memory.begin, Tables.run, h.project?_eq]
      cases hfind : t.projects.find? fun p => p.id = id with
      | none => rfl
      | some p =>
          dsimp only
          rw [h.projectsReadable p (List.mem_of_find?_eq_some hfind)]
          rfl
  | listProjects =>
      refine ⟨?_, h⟩
      simp only [Memory.run, Memory.begin, Tables.run, h.mapM_readProject]
      rfl
  | updateProject p =>
      exact h.update (readProject_eq_ok_iff.mpr (Bool.and_eq_true_iff.mp hop))
  | deleteProject id => exact h.delete id
  | saveFile f =>
      simp only [Operation.fits, Bool.and_eq_true, decide_eq_true_eq] at hop
      have hread : readFile f = .ok f := by rw [readFile, if_pos hop.1]
      exact h.save hread (Nat.le_pred_of_lt hop.2)
  | getFile projectId fileName =>
      refine ⟨?_, h⟩
      simp only [Memory.run, Memory.begin, Tables.run, h.file?_eq]
      cases hfind : t.files.find? (Tables.isFile projectId fileName) with
      | none => rfl
      | some f =>
          dsimp only
          rw [h.filesReadable f (List.mem_of_find?_eq_some hfind)]
          rfl
  | deleteFile projectId fileName => exact h.deleteFile projectId fileName
  | listFiles projectId | loadSources projectId =>
      rw [Memory.run, Memory.begin, Memory.withProject, Tables.run, h.filesOf_eq]
      by_cases hid : m.hasProject projectId = true
      · simp only [hid]
        exact ⟨rfl, h⟩
      · simp only [hid]
        exact ⟨rfl, h⟩

end Agree

/-! ## Lists of operations -/

/-- **A run answers the same** in two stores that agree. -/
theorem Agree.runAll {m : Memory} {t : Tables} (h : Agree m t) {ops : List Operation}
    (hops : ∀ op ∈ ops, op.fits = true) :
    (m.runAll ops).2 = (t.runAll ops).2 ∧ Agree (m.runAll ops).1 (t.runAll ops).1 := by
  induction ops generalizing m t with
  | nil => exact ⟨rfl, h⟩
  | cons op ops ih =>
      obtain ⟨hanswer, hafter⟩ := h.run (hops op (List.mem_cons_self ..))
      obtain ⟨hanswers, hend⟩ := ih hafter fun o ho => hops o (List.mem_cons_of_mem op ho)
      refine ⟨?_, hend⟩
      rw [Memory.runAll, Tables.runAll, hanswer, hanswers]

/-- **No answer tells the two stores apart**, whatever they are asked from the start on. -/
theorem runAll_agree (ops : List Operation) (hops : ∀ op ∈ ops, op.fits = true) :
    (Memory.empty.runAll ops).2 = (Tables.empty.runAll ops).2 :=
  (agree_empty.runAll hops).1

/-- Two projects of one moment and two files, saved against their order, and every kind of change. -/
def changesAgainstOrder : List Operation :=
  let noon : Timestamp := ⟨19844, 43200, 0⟩
  let later : Timestamp := ⟨19844, 43200, 500⟩
  let project (id name : String) : Project := ⟨id, name, none, noon, later⟩
  let file (id name content : String) : SourceFile := ⟨id, name, content, "", 2 ^ 40, later⟩
  [.createProject (project "b" "Mixer"), .createProject (project "a" " "),
    .createProject (project "a" "Pump"), .createProject (project "b" "Again"),
    .updateProject (project "b" "Mixer 2"), .updateProject (project "c" "Valve"),
    .saveFile (file "a" "z.st" "1"), .saveFile (file "a" "m.txt" "2"),
    .saveFile (file "a" "k.ST" "3"), .saveFile (file "a" "z.st" "4"),
    .saveFile (file "c" "k.st" "5"), .saveFile (file "a" "src/k.st" "6"),
    .listProjects, .listFiles "a", .loadSources "a", .getFile "a" "z.st",
    .deleteFile "a" "m.txt", .deleteFile "a" "m.txt", .deleteProject "a", .getFile "a" "z.st",
    .listFiles "a", .getProject "b"]

/-- Every change and every listing, answered alike. -/
theorem runAll_agree_changesAgainstOrder :
    (∀ op ∈ changesAgainstOrder, op.fits = true) ∧
      (Memory.empty.runAll changesAgainstOrder).2 = (Tables.empty.runAll changesAgainstOrder).2 ∧
      ((Tables.empty.runAll changesAgainstOrder).2.map fun
        | .ok (.sources ss) => ss.map Prod.fst
        | .ok (.files fs) => fs.map SourceFile.fileName
        | .ok _ => []
        | .error e => [e.kind])
      = [[], ["invalid_input"], [], ["conflict"], [], ["project_not_found"], [], [], [], [],
          ["project_not_found"], ["invalid_input"], [],
          ["k.ST", "m.txt", "z.st"], ["k.ST", "z.st"], [], [], ["file_not_found"], [],
          ["file_not_found"], ["project_not_found"], []] := by
  have hfits : ∀ op ∈ changesAgainstOrder, op.fits = true := by decide
  have hsame := runAll_agree changesAgainstOrder hfits
  refine ⟨hfits, hsame, ?_⟩
  rw [← hsame]
  decide +kernel

end Store

end StLint
