import ViewTree.CommandLine.Run

/-!
# The program

The command line on real files: the operations of `FileSystem` by those of the
system, and the outcome of a run printed.
-/

namespace ViewTree.RealFiles

/-- The failure of an operation of the system. -/
def failure : IO.Error → FileError
  | .noFileOrDirectory .. => .notFound
  | .alreadyExists .. => .exists
  | .inappropriateType _ 21 _ => .isDirectory
  | .inappropriateType .. => .notDirectory
  | .invalidArgument _ 36 _ => .nameTooLong
  | e => .other e.toString

/-- Runs an operation of the system and keeps its failure. -/
def attempt {α : Type} (action : IO α) : IO (Except FileError α) := do
  try
    return .ok (← action)
  catch e => return .error (failure e)

/-- The files below a directory, each as the names from the directory down. -/
partial def below (dir : String) : IO (List (List String)) := do
  let path := (← IO.currentDir) / dir
  let entries ← path.readDir
  let mut found := []
  for entry in entries do
    if ← entry.path.isDir then
      let inner ← below entry.path.toString
      found := found ++ inner.map fun names => entry.fileName :: names
    else found := found ++ [[entry.fileName]]
  return found

/-- Whether there is a directory at a path. -/
def isDirectory (path : String) : IO Bool := do
  let p := (← IO.currentDir) / path
  p.isDir

/-- Whether there is a file at a path. -/
def isFile (path : String) : IO Bool := do
  let p := (← IO.currentDir) / path
  return (← p.pathExists) && !(← p.isDir)

/-- The text of a file. -/
def readText (path : String) : IO (Except FileError String) := do
  if ← isDirectory path then return .error .isDirectory
  match ← attempt (IO.FS.readBinFile ⟨path⟩) with
  | .error e => return .error e
  | .ok bytes =>
    match String.fromUTF8? bytes with
    | some text => return .ok text
    | none => return .error .notUtf8

/-- The operations on real files. -/
def system : FileSystem IO where
  isFile := isFile
  isDirectory := isDirectory
  readText := readText
  writeText path text := do
    if ← isDirectory path then return .error .isDirectory
    attempt (IO.FS.writeFile ⟨path⟩ text)
  makeDirectory path := attempt (IO.FS.createDir ⟨path⟩)
  removeFile path := do
    let _ ← attempt (IO.FS.removeFile ⟨path⟩)
  filesBelow path := do
    match ← attempt (below path) with
    | .ok found => return found
    | .error _ => return []

end ViewTree.RealFiles

/-- Runs the command of the command line. -/
def main (arguments : List String) : IO UInt32 := do
  let command := ViewTree.CommandLine.parse arguments
  let outcome ← ViewTree.CommandLine.run ViewTree.RealFiles.system command
  IO.print outcome.stdout
  IO.eprint outcome.stderr
  return outcome.exit.toUInt32
