import StLint.Collection.Basic
import StLint.Pou.Parse
import StLint.Text.Basic

/-!
# Files and directories

A tree of directories, each with its entries in the order of their names.

* `FileTree.find?` — what a path leads to.
* `FileTree.sources` — the source files in and below a directory, **each directory at the place of
  its name**.
-/

namespace StLint.CommandLine

open Text

/-- A file or a directory. -/
inductive FileTree where
  /-- The text of a file, unless it is no text. -/
  | file (text : Option String)
  | directory (entries : List (String × FileTree))
  deriving Repr, Inhabited

namespace FileTree

/-- The entries of a directory; a file has none. -/
def entries : FileTree → List (String × FileTree)
  | file _ => []
  | directory es => es

/-- A directory. -/
def isDirectory : FileTree → Bool
  | file _ => false
  | directory _ => true

/-! ## Building -/

/-- A tree with one more file under a path. -/
def insert (text : Option String) : List String → FileTree → FileTree
  | [], _ => .file text
  | name :: path, t =>
    let below := (t.entries.lookup name).getD (.directory [])
    .directory (insertKeyed Prod.fst (fun a b => a < b) (name, insert text path below) t.entries)

/-- The components of a path. -/
def components (path : String) : List String := (splitOn '/' path.toList).map String.ofList

/-- A component that names nothing: the directory itself. -/
def isHere (name : String) : Bool := name = "" || name = "."

/-- The tree of some files, given by their paths. -/
def ofFiles (files : List (String × Option String)) : FileTree :=
  files.foldl (fun t (path, text) => t.insert text ((components path).filter fun c => !isHere c))
    (.directory [])

/-! ## Finding -/

/-- What components lead to; `above` are the directories around, the nearest first. -/
def walk? (above : List FileTree) (t : FileTree) : List String → Option FileTree
  | [] => some t
  | name :: path =>
    if !t.isDirectory then none
    else if isHere name then walk? above t path
    else if name = ".." then
      match above with
      | [] => none
      | parent :: above => walk? above parent path
    else (t.entries.lookup name).bind fun below => walk? (t :: above) below path

/-- What a path leads to, from the top of the tree. -/
def find? (t : FileTree) (path : String) : Option FileTree :=
  if path.toList.head? = some '/' then none else walk? [] t (components path)

/-- The name of what a path leads to: its last component that names something. -/
def label (path : String) : String :=
  (((components path).filter fun c => !isHere c).getLast?).getD path

/-! ## Source files -/

/-- The extension of a file name; a dot in front of a name begins none. -/
def extension? (name : String) : Option (List Char) :=
  let reversed := name.toList.reverse
  match reversed.dropWhile (· ≠ '.') with
  | _ :: _ :: _ => some (reversed.takeWhile (· ≠ '.')).reverse
  | _ => none

/-- A file name with an extension of the language. -/
def isSourceName (name : String) : Bool := (extension? name).any Pou.supportsExtension

mutual

/-- The source files that an entry is or holds, with their names. -/
def sourcesOf (name : String) : FileTree → List (String × Option String)
  | file text => if isSourceName name then [(name, text)] else []
  | directory es => sourcesOfAll es

/-- The source files that some entries are or hold. -/
def sourcesOfAll : List (String × FileTree) → List (String × Option String)
  | [] => []
  | (name, t) :: es => sourcesOf name t ++ sourcesOfAll es

end

/-- The files that a path stands for: itself, or the source files of a directory. -/
def sources (path : String) : FileTree → List (String × Option String)
  | file text => [(label path, text)]
  | directory es => sourcesOfAll es

end FileTree

end StLint.CommandLine
