import StLint.CommandLine.Run

/-!
# The program

Reads the files that a command asks for and runs it. What cannot be read as a file may be a
directory; **its files are then named on standard input**, one path a line, as `find` lists them.
-/

open StLint.CommandLine

/-- The text of a file, if there is one. -/
def readText? (path : String) : IO (Option String) := do
  try return some (← IO.FS.readFile path) catch _ => return none

/-- The lines of standard input that are not empty. -/
partial def readPaths (input : IO.FS.Stream) (read : List String) : IO (List String) := do
  let line ← input.getLine
  if line.isEmpty then return read.reverse
  let path := String.ofList (line.toList.filter fun c => c != '\n' && c != '\r')
  readPaths input (if path.isEmpty then read else path :: read)

/-- A file under its path. -/
def readNamed (path : String) : IO (String × Option String) := do return (path, ← readText? path)

/-- What the paths of a command lead to. -/
def readFiles (paths : List String) : IO Files := do
  let named ← paths.mapM readNamed
  let listed ← if named.all fun n => n.2.isSome then pure []
    else (← readPaths (← IO.getStdin) []).mapM readNamed
  let tree := FileTree.ofFiles listed
  return fun path => match named.lookup path with
    | some (some text) => some (.file (some text))
    | _ => tree.find? path

/-- Runs the command of the arguments. -/
def main (args : List String) : IO UInt32 := do
  let paths := match Command.ofArguments args with
    | .ok c => c.paths
    | .error _ => []
  let outcome := run args (← readFiles paths)
  IO.print outcome.stdout
  return outcome.exit.toUInt32
