import StLint.Collection.Basic
import StLint.Store.Basic

/-!
# A store in memory

Two maps, each behind a lock of its own. An operation takes one lock after the other and never
both, so it is **one step or two**, and steps of several operations may alternate.

* `Memory.begin` — the first step: the answer, or what remains to be done.
* `Memory.finish` — the second step.
* `Memory.run` — an operation alone.
* `Interleaving` — several operations at the same time.
-/

namespace StLint.Store

/-- The maps, in the order of their keys. -/
structure Memory where
  projects : List Project
  files : List SourceFile
  deriving DecidableEq, Repr, Inhabited

namespace Memory

/-- Nothing is stored. -/
def empty : Memory := ⟨[], []⟩

/-- What names a file. -/
def fileKey (f : SourceFile) : String × String := (f.projectId, f.fileName)

/-- Files are ordered by project, then by name. -/
def fileKeyBefore (a b : String × String) : Bool := a.1 < b.1 || (a.1 = b.1 && a.2 < b.2)

/-- The project with an id. -/
def project? (m : Memory) (id : String) : Option Project := m.projects.find? fun p => p.id = id

/-- There is a project with an id. -/
def hasProject (m : Memory) (id : String) : Bool := (m.project? id).isSome

/-- The file with a name. -/
def file? (m : Memory) (projectId fileName : String) : Option SourceFile :=
  m.files.find? fun f => fileKey f = (projectId, fileName)

/-- One more project, or one in place of another. -/
def putProject (m : Memory) (p : Project) : Memory :=
  { m with projects := insertKeyed Project.id (fun a b => a < b) p m.projects }

/-- One more file, or one in place of another. -/
def putFile (m : Memory) (f : SourceFile) : Memory :=
  { m with files := insertKeyed fileKey fileKeyBefore f m.files }

/-- Without a project. -/
def dropProject (m : Memory) (id : String) : Memory :=
  { m with projects := m.projects.filter fun p => p.id ≠ id }

/-- Without a file. -/
def dropFile (m : Memory) (projectId fileName : String) : Memory :=
  { m with files := m.files.filter fun f => fileKey f ≠ (projectId, fileName) }

/-- Without the files of a project. -/
def dropFiles (m : Memory) (projectId : String) : Memory :=
  { m with files := m.files.filter fun f => f.projectId ≠ projectId }

/-- The files of a project in the order of their names. -/
def filesOf (m : Memory) (projectId : String) : List SourceFile :=
  m.files.filter fun f => f.projectId = projectId

/-! ## Steps -/

/-- What remains of an operation after its first step. -/
inductive Rest where
  /-- The project was there. -/
  | saveFile (f : SourceFile)
  /-- The project was removed. -/
  | dropFiles (projectId : String)
  /-- The project was there. -/
  | listFiles (projectId : String)
  /-- The project was there. -/
  | loadSources (projectId : String)
  deriving Repr

/-- Ends the first step, unless the project is missing. -/
def withProject (m : Memory) (id : String) (rest : Rest) : Memory × (Rest ⊕ Answer) :=
  if m.hasProject id then (m, .inl rest) else (m, .inr (.error (.projectNotFound id)))

/-- The step of a creation. -/
def create (m : Memory) (p : Project) : Memory × Answer :=
  match p.validate with
  | .error e => (m, .error e)
  | .ok _ => if m.hasProject p.id then (m, .error (.idTaken p.id)) else (m.putProject p, .ok .done)

/-- The step of an update. The time of the creation stays. -/
def update (m : Memory) (p : Project) : Memory × Answer :=
  match p.validate with
  | .error e => (m, .error e)
  | .ok _ =>
    match m.project? p.id with
    | none => (m, .error (.projectNotFound p.id))
    | some stored =>
      (m.putProject { stored with
          name := p.name, description := p.description, updatedAt := p.updatedAt },
        .ok .done)

/-- The first step of an operation. -/
def begin (m : Memory) : Operation → Memory × (Rest ⊕ Answer)
  | .createProject p => ((m.create p).1, .inr (m.create p).2)
  | .getProject id =>
    (m, .inr (match m.project? id with
      | some p => .ok (.project p)
      | none => .error (.projectNotFound id)))
  | .listProjects => (m, .inr (.ok (.projects (Project.inOrder m.projects))))
  | .updateProject p => ((m.update p).1, .inr (m.update p).2)
  | .deleteProject id =>
    if m.hasProject id then (m.dropProject id, .inl (.dropFiles id))
    else (m, .inr (.error (.projectNotFound id)))
  | .saveFile f =>
    match f.validate with
    | .error e => (m, .inr (.error e))
    | .ok _ => m.withProject f.projectId (.saveFile f)
  | .getFile projectId fileName =>
    (m, .inr (match m.file? projectId fileName with
      | some f => .ok (.file f)
      | none => .error (.fileNotFound projectId fileName)))
  | .listFiles projectId => m.withProject projectId (.listFiles projectId)
  | .deleteFile projectId fileName =>
    if (m.file? projectId fileName).isSome then (m.dropFile projectId fileName, .inr (.ok .done))
    else (m, .inr (.error (.fileNotFound projectId fileName)))
  | .loadSources projectId => m.withProject projectId (.loadSources projectId)

/-- The second step of an operation. -/
def finish (m : Memory) : Rest → Memory × Answer
  | .saveFile f => (m.putFile f, .ok .done)
  | .dropFiles projectId => (m.dropFiles projectId, .ok .done)
  | .listFiles projectId => (m, .ok (.files (m.filesOf projectId)))
  | .loadSources projectId => (m, .ok (.sources (SourceFile.sources (m.filesOf projectId))))

/-- An operation with no other one between its steps. -/
def run (m : Memory) (op : Operation) : Memory × Answer :=
  match m.begin op with
  | (m, .inl rest) => m.finish rest
  | (m, .inr answer) => (m, answer)

/-- Operations one after the other, with their answers. -/
def runAll (m : Memory) : List Operation → Memory × List Answer
  | [] => (m, [])
  | op :: ops => (((m.run op).1.runAll ops).1, (m.run op).2 :: ((m.run op).1.runAll ops).2)

end Memory

/-! ## Operations at the same time

Several operations on one store in memory, whose steps alternate in any order. Each operation has a
number, and **its second step comes after its first one**. -/

/-- One step of one operation. -/
inductive Event where
  | begin (number : Nat) (op : Operation)
  | finish (number : Nat)

/-- A store with the operations that are under way, and the answers of those that are not. -/
structure Interleaving where
  memory : Memory
  pending : List (Nat × Memory.Rest)
  answers : List (Nat × Answer)

namespace Interleaving

/-- Nothing is stored and nothing is under way. -/
def start : Interleaving := ⟨.empty, [], []⟩

/-- Nothing is under way. -/
def isQuiet (s : Interleaving) : Bool := s.pending.isEmpty

/-- A number was given to an operation. -/
def isKnown (s : Interleaving) (number : Nat) : Bool :=
  (s.pending.lookup number).isSome || (s.answers.lookup number).isSome

/-- The first step of an operation with a new number. -/
def begin? (s : Interleaving) (number : Nat) (op : Operation) : Option Interleaving :=
  if s.isKnown number then none
  else match s.memory.begin op with
    | (m, .inl rest) => some ⟨m, (number, rest) :: s.pending, s.answers⟩
    | (m, .inr answer) => some ⟨m, s.pending, (number, answer) :: s.answers⟩

/-- The second step of an operation that is under way. -/
def finish? (s : Interleaving) (number : Nat) : Option Interleaving :=
  (s.pending.lookup number).map fun rest =>
    ⟨(s.memory.finish rest).1, s.pending.filter (fun p => p.1 ≠ number),
      (number, (s.memory.finish rest).2) :: s.answers⟩

/-- One step. -/
def step? (s : Interleaving) : Event → Option Interleaving
  | .begin number op => s.begin? number op
  | .finish number => s.finish? number

/-- Several steps, unless one of them is impossible. -/
def run? (s : Interleaving) (es : List Event) : Option Interleaving := es.foldlM step? s

end Interleaving

end StLint.Store
