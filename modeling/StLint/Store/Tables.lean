import StLint.Number.Machine
import StLint.Store.Basic

/-!
# A store in database tables

Two tables of rows in the order in which they were inserted. Rows are selected by key and sorted
when they are read; the rows of a deleted project go in one transaction with those of its files.

Times are kept as text with a year of four digits. A row whose year does not fit is **written but
cannot be read again**, and the order of the texts is the order of the times.
-/

namespace StLint.Store

/-- The rows of both tables. -/
structure Tables where
  projects : List Project
  files : List SourceFile
  deriving DecidableEq, Repr, Inhabited

/-- A time that can be read from its text. -/
def isReadable (t : Timestamp) : Bool :=
  let year := (Timestamp.dateOfDay t.day).1
  0 ≤ year && year ≤ 9999

/-- The error of a row that cannot be read. -/
def unreadable : StoreError := .database "unreadable timestamp"

/-- A row of the projects. -/
def readProject (p : Project) : Except StoreError Project :=
  if isReadable p.createdAt && isReadable p.updatedAt then .ok p else .error unreadable

/-- A row of the files. -/
def readFile (f : SourceFile) : Except StoreError SourceFile :=
  if isReadable f.uploadedAt then .ok f else .error unreadable

/-- The largest size that a row holds. -/
def maxSize : Nat := limit63 - 1

namespace Tables

/-- Empty tables. -/
def empty : Tables := ⟨[], []⟩

/-- There is a project with an id. -/
def hasProject (t : Tables) (id : String) : Bool := t.projects.any fun p => p.id = id

/-- A row is the file with a name. -/
def isFile (projectId fileName : String) (f : SourceFile) : Bool :=
  f.projectId = projectId && f.fileName = fileName

/-- The rows of the files of a project by name, all of them readable. -/
def filesOf (t : Tables) (projectId : String) : Except StoreError (List SourceFile) :=
  if t.hasProject projectId then
    ((t.files.filter fun f => f.projectId = projectId).mergeSort fun a b =>
      !(b.fileName < a.fileName)).mapM readFile
  else .error (.projectNotFound projectId)

/-- Inserts a project. -/
def create (t : Tables) (p : Project) : Except StoreError Tables := do
  p.validate
  if t.hasProject p.id then throw (.idTaken p.id)
  return { t with projects := t.projects ++ [p] }

/-- Updates the rows of a project. -/
def update (t : Tables) (p : Project) : Except StoreError Tables := do
  p.validate
  unless t.hasProject p.id do throw (.projectNotFound p.id)
  return { t with
    projects := t.projects.map fun row =>
      if row.id = p.id then
        { row with name := p.name, description := p.description, updatedAt := p.updatedAt }
      else row }

/-- Deletes the rows of a project and of its files. -/
def delete (t : Tables) (id : String) : Except StoreError Tables := do
  unless t.hasProject id do throw (.projectNotFound id)
  return { projects := t.projects.filter fun p => p.id ≠ id
           files := t.files.filter fun f => f.projectId ≠ id }

/-- Inserts a file in place of one with its name. -/
def save (t : Tables) (f : SourceFile) : Except StoreError Tables := do
  f.validate
  unless t.hasProject f.projectId do throw (.projectNotFound f.projectId)
  if maxSize < f.size then throw (.fileTooLarge f.fileName)
  return { t with files := (t.files.filter fun g => !isFile f.projectId f.fileName g) ++ [f] }

/-- Deletes the row of a file. -/
def deleteFile (t : Tables) (projectId fileName : String) : Except StoreError Tables := do
  unless t.files.any (isFile projectId fileName) do throw (.fileNotFound projectId fileName)
  return { t with files := t.files.filter fun f => !isFile projectId fileName f }

/-- The tables after a change; one that fails changes nothing. -/
def commit (t : Tables) : Except StoreError Tables → Tables × Answer
  | .ok t' => (t', .ok .done)
  | .error e => (t, .error e)

/-- One operation. -/
def run (t : Tables) : Operation → Tables × Answer
  | .createProject p => t.commit (t.create p)
  | .getProject id =>
    (t, match t.projects.find? fun p => p.id = id with
      | some p => (readProject p).map .project
      | none => .error (.projectNotFound id))
  | .listProjects => (t, ((Project.inOrder t.projects).mapM readProject).map .projects)
  | .updateProject p => t.commit (t.update p)
  | .deleteProject id => t.commit (t.delete id)
  | .saveFile f => t.commit (t.save f)
  | .getFile projectId fileName =>
    (t, match t.files.find? (isFile projectId fileName) with
      | some f => (readFile f).map .file
      | none => .error (.fileNotFound projectId fileName))
  | .listFiles projectId => (t, (t.filesOf projectId).map .files)
  | .deleteFile projectId fileName => t.commit (t.deleteFile projectId fileName)
  | .loadSources projectId =>
    (t, (t.filesOf projectId).map fun fs => .sources (SourceFile.sources fs))

/-- Operations one after the other, with their answers. -/
def runAll (t : Tables) : List Operation → Tables × List Answer
  | [] => (t, [])
  | op :: ops => (((t.run op).1.runAll ops).1, (t.run op).2 :: ((t.run op).1.runAll ops).2)

end Tables

end StLint.Store
