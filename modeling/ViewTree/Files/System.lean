import ViewTree.Files.Path

/-!
# File systems

What the compiler asks of the file system, as a record of operations, so that the
same code runs on real files and on a tree of files in memory.
-/

namespace ViewTree

/-- Why a file operation failed. -/
inductive FileError where
  | notFound
  | exists
  | notDirectory
  | isDirectory
  | nameTooLong
  | zeroByteInName
  | notUtf8
  /-- Any other reason, in the words of the system. -/
  | other (message : String)
deriving DecidableEq, Repr

/-- The wording of a failure. -/
def FileError.message : FileError → String
  | notFound => "No such file or directory (os error 2)"
  | .exists => "File exists (os error 17)"
  | notDirectory => "Not a directory (os error 20)"
  | isDirectory => "Is a directory (os error 21)"
  | nameTooLong => "File name too long (os error 36)"
  | zeroByteInName => "file name contained an unexpected NUL byte"
  | notUtf8 => "stream did not contain valid UTF-8"
  | other message => message

/-- The operations on files that the compiler uses. Paths are texts as a user writes
them. -/
structure FileSystem (m : Type → Type) where
  isFile : String → m Bool
  isDirectory : String → m Bool
  /-- The text of a file. -/
  readText : String → m (Except FileError String)
  /-- Writes a file, which is made if it is not there. -/
  writeText : String → String → m (Except FileError Unit)
  /-- Makes a directory in one that is there. -/
  makeDirectory : String → m (Except FileError Unit)
  /-- Removes a file, if it can be removed. -/
  removeFile : String → m Unit
  /-- The files below a directory, each as the names from the directory down. -/
  filesBelow : String → m (List (List String))

namespace FileSystem

variable {m : Type → Type} [Monad m]

/-- Whether there is anything at a path. -/
def pathExists (fs : FileSystem m) (path : String) : m Bool := do
  if ← fs.isFile path then pure true else fs.isDirectory path

/-- Makes a directory, unless there is one. -/
def ensureDirectory (fs : FileSystem m) (path : String) : m (Except FileError Unit) := do
  match ← fs.makeDirectory path with
  | .ok () => pure (.ok ())
  | .error e => if ← fs.isDirectory path then pure (.ok ()) else pure (.error e)

/-- Makes directories each of which lies in the next. Those further up are made only if
one cannot be made without them. -/
def ensureDirectories (fs : FileSystem m) : List String → m (Except FileError Unit)
  | [] => pure (.ok ())
  | path :: above => do
    if path.isEmpty then pure (.ok ())
    else
      match ← fs.ensureDirectory path with
      | .error .notFound =>
        match ← fs.ensureDirectories above with
        | .error e => pure (.error e)
        | .ok () => fs.ensureDirectory path
      | result => pure result

/-- Makes a directory and those above it. -/
def createDirectories (fs : FileSystem m) (path : String) : m (Except FileError Unit) :=
  fs.ensureDirectories (path :: FilePath.parents path)

end FileSystem

end ViewTree
