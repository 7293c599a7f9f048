import StLint.Digest.Sha256
import StLint.Pou.Parse
import StLint.Time.Timestamp

/-!
# Stored projects

A project has an id and a name; a file belongs to one project and has one name in it. A store
knows ten operations on them.

* `StoreError` — why an operation fails.
* `Project.validate`, `SourceFile.validate` — what is refused before a store is looked at.
* `Operation`, `Value` — what a store is asked and what it answers.
-/

namespace StLint.Store

open Text

/-- Why an operation of a store fails. -/
inductive StoreError where
  | database (message : String)
  | serialization (message : String)
  | projectNotFound (id : String)
  | fileNotFound (projectId fileName : String)
  | conflict (message : String)
  | invalidInput (message : String)
  | internal (message : String)
  deriving DecidableEq, Repr

namespace StoreError

/-- The word for the kind of an error. -/
def kind : StoreError → String
  | database _ => "database"
  | serialization _ => "serialization"
  | projectNotFound _ => "project_not_found"
  | fileNotFound _ _ => "file_not_found"
  | conflict _ => "conflict"
  | invalidInput _ => "invalid_input"
  | internal _ => "internal"

/-- The message of an error. -/
def message : StoreError → String
  | database m | serialization m | conflict m | invalidInput m | internal m => m
  | projectNotFound id => "Project not found: " ++ id
  | fileNotFound projectId fileName =>
    "File not found: " ++ fileName ++ " in project " ++ projectId

/-- The text of an error. -/
def text (e : StoreError) : String := "[" ++ e.kind ++ "] " ++ e.message

/-- A project whose id is taken. -/
def idTaken (id : String) : StoreError := .conflict ("Project id already exists: " ++ id)

/-- A project without an id. -/
def emptyId : StoreError := .invalidInput "Project id is empty"

/-- A project without a name. -/
def emptyName : StoreError := .invalidInput "Project name is empty"

/-- A file without a name. -/
def emptyFileName : StoreError := .invalidInput "File name is empty"

/-- A file name that holds a path. -/
def pathInFileName (fileName : String) : StoreError :=
  .invalidInput ("File name must not contain a path: " ++ fileName)

/-- A file whose size cannot be stored. -/
def fileTooLarge (fileName : String) : StoreError := .invalidInput ("File too large: " ++ fileName)

end StoreError

/-- A project. -/
structure Project where
  id : String
  name : String
  description : Option String
  createdAt : Timestamp
  updatedAt : Timestamp
  deriving DecidableEq, Repr, Inhabited

namespace Project

/-- An id and a name that are not blank. -/
def validate (p : Project) : Except StoreError Unit :=
  if allBlank p.id.toList then .error .emptyId
  else if allBlank p.name.toList then .error .emptyName
  else .ok ()

/-- Projects are listed by the time of their creation, then by id. -/
def before (a b : Project) : Bool :=
  a.createdAt.before b.createdAt || (a.createdAt = b.createdAt && a.id < b.id)

/-- Projects in the order in which they are listed. -/
def inOrder (ps : List Project) : List Project := ps.mergeSort fun a b => !b.before a

end Project

/-- A source file of a project. -/
structure SourceFile where
  projectId : String
  fileName : String
  content : String
  /-- The digest of the content. -/
  contentHash : String
  /-- The size of the content in bytes. -/
  size : Nat
  uploadedAt : Timestamp
  deriving DecidableEq, Repr, Inhabited

namespace SourceFile

/-- A file with the digest and size of its content. -/
def of (projectId fileName content : String) (uploadedAt : Timestamp) : SourceFile :=
  ⟨projectId, fileName, content, Sha256.hex content, content.utf8ByteSize, uploadedAt⟩

/-- The text after the last dot. -/
def extension? (name : List Char) : Option (List Char) :=
  if name.contains '.' then some ((name.reverse.takeWhile (· ≠ '.')).reverse) else none

/-- The name has an extension of the language. -/
def isStructuredText (f : SourceFile) : Bool :=
  (extension? f.fileName.toList).any Pou.supportsExtension

/-- A name that is not blank and holds no path. -/
def validate (f : SourceFile) : Except StoreError Unit :=
  let name := trim f.fileName.toList
  if name.isEmpty then .error .emptyFileName
  else if name.any fun c => c = '/' || c = '\\' then .error (.pathInFileName f.fileName)
  else .ok ()

/-- The name and content of each file of the language. -/
def sources (fs : List SourceFile) : List (String × String) :=
  (fs.filter isStructuredText).map fun f => (f.fileName, f.content)

end SourceFile

/-- What a store is asked. -/
inductive Operation where
  | createProject (p : Project)
  | getProject (id : String)
  | listProjects
  /-- Replaces the name, the description and the time of the last update. -/
  | updateProject (p : Project)
  /-- Deletes a project with its files. -/
  | deleteProject (id : String)
  /-- Saves a file in place of one with its name. -/
  | saveFile (f : SourceFile)
  | getFile (projectId fileName : String)
  | listFiles (projectId : String)
  | deleteFile (projectId fileName : String)
  /-- The files of the language, for reading. -/
  | loadSources (projectId : String)
  deriving Repr

/-- What a store answers. -/
inductive Value where
  | done
  | project (p : Project)
  | projects (ps : List Project)
  | file (f : SourceFile)
  | files (fs : List SourceFile)
  | sources (ss : List (String × String))
  deriving DecidableEq, Repr

/-- An answer or an error. -/
abbrev Answer := Except StoreError Value

end StLint.Store
