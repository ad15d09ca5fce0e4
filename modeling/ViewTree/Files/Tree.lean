import ViewTree.Files.System
import ViewTree.Text.Basic

/-!
# A file system in memory

A tree of files as a list of places with what is there. A place is the list of
names from the root down. Every operation of `FileSystem` is a function on trees.
-/

namespace ViewTree

/-- What a file holds: a text, or bytes that are no text in UTF-8. -/
inductive FileContents where
  | text (s : String)
  | binary (bytes : List UInt8)
deriving DecidableEq, Repr

/-- What is at a place. -/
inductive FileEntry where
  | file (contents : FileContents)
  | directory
deriving DecidableEq, Repr

/-- The names from the root down. -/
abbrev Place := List String

/-- Files and directories, and the directory that relative paths start from. The
root is always a directory. -/
structure FileTree where
  current : Place := []
  entries : List (Place × FileEntry) := []
deriving DecidableEq, Repr, Inhabited

namespace FileTree

/-- What is at a place. -/
def entry? (t : FileTree) (place : Place) : Option FileEntry :=
  if place = [] then some .directory else t.entries.lookup place

/-- The tree with an entry at a place, which replaces the one that is there. -/
def insert (t : FileTree) (place : Place) (entry : FileEntry) : FileTree :=
  { t with entries := t.entries.filter (fun e => e.1 != place) ++ [(place, entry)] }

/-- The tree without the entry at a place and those below it. -/
def erase (t : FileTree) (place : Place) : FileTree :=
  { t with entries := t.entries.filter fun e => !place.isPrefixOf e.1 }

/-- The files below a place, each with the names from the place down. -/
def filesAt (t : FileTree) (place : Place) : List (Place × FileContents) :=
  t.entries.filterMap fun (p, e) =>
    match e with
    | .file contents =>
      if place.isPrefixOf p then some (p.drop place.length, contents) else none
    | .directory => none

/-- The bytes that a name may have. -/
def nameLimit : Nat := 255

/-- The bytes that a path may have. -/
def pathLimit : Nat := 4095

/-- What is wrong with a path as a text, if anything. -/
def pathError? (path : String) : Option FileError :=
  if Text.has path (Char.ofNat 0) then some .zeroByteInName
  else if path.utf8ByteSize > pathLimit then some .nameTooLong
  else none

/-- What is wrong with a name, if anything. -/
def nameError? (name : String) : Option FileError :=
  if name.utf8ByteSize > nameLimit then some .nameTooLong else none

/-- The directory that a name leads to from a directory. -/
def enter (t : FileTree) (place : Place) (name : String) : Except FileError Place :=
  if name = "." then .ok place
  else if name = ".." then .ok place.dropLast
  else
    match nameError? name, t.entry? (place ++ [name]) with
    | some e, _ => .error e
    | none, some .directory => .ok (place ++ [name])
    | none, some (.file _) => .error .notDirectory
    | none, none => .error .notFound

/-- The directory that names lead to from a directory. -/
def walk (t : FileTree) : Place → List String → Except FileError Place
  | place, [] => .ok place
  | place, name :: rest =>
    match t.enter place name with
    | .error e => .error e
    | .ok next => t.walk next rest

/-- The names of a path. -/
def names (path : String) : List String :=
  ((Text.splitAt '/' path.toList).filter (· != [])).map String.ofList

/-- Whether a path asks for a directory by its last character. -/
def endsInSlash (path : String) : Bool := path.toList.getLast? == some '/'

/-- The place that a path starts from. -/
def start (t : FileTree) (path : String) : Place :=
  if path.toList.head? = some '/' then [] else t.current

/-- Where a path ends. -/
inductive Spot where
  /-- At a directory that it leads to without a name: the root, or by `.` or `..`. -/
  | reached (place : Place)
  /-- At a name in a directory, whether or not there is anything. -/
  | named (directory : Place) (name : String)
deriving DecidableEq, Repr

/-- Where a path ends. All but its last name must lead to directories. -/
def resolve (t : FileTree) (path : String) : Except FileError Spot :=
  match pathError? path with
  | some e => .error e
  | none =>
    if path.isEmpty then .error .notFound
    else
      match t.walk (t.start path) (names path).dropLast, (names path).getLast? with
      | .error e, _ => .error e
      | .ok place, none => .ok (.reached place)
      | .ok place, some name =>
        if name = "." then .ok (.reached place)
        else if name = ".." then .ok (.reached place.dropLast)
        else .ok (.named place name)

/-- The place of what is at a path, and what it is. -/
def locate (t : FileTree) (path : String) : Except FileError (Place × FileEntry) :=
  match t.resolve path with
  | .error e => .error e
  | .ok (.reached place) => .ok (place, .directory)
  | .ok (.named dir name) =>
    match nameError? name, t.entry? (dir ++ [name]) with
    | some e, _ => .error e
    | none, none => .error .notFound
    | none, some .directory => .ok (dir ++ [name], .directory)
    | none, some (.file contents) =>
      if endsInSlash path then .error .notDirectory else .ok (dir ++ [name], .file contents)

/-- What is at a path, if anything. -/
def entryAt? (t : FileTree) (path : String) : Option FileEntry :=
  match t.locate path with
  | .ok (_, entry) => some entry
  | .error _ => none

/-- Whether there is a file at a path. -/
def isFile (t : FileTree) (path : String) : Bool :=
  match t.entryAt? path with
  | some (.file _) => true
  | _ => false

/-- Whether there is a directory at a path. -/
def isDirectory (t : FileTree) (path : String) : Bool := t.entryAt? path == some .directory

/-- The text of the file at a path. -/
def readText (t : FileTree) (path : String) : Except FileError String :=
  match t.locate path with
  | .error e => .error e
  | .ok (_, .file (.text s)) => .ok s
  | .ok (_, .file (.binary _)) => .error .notUtf8
  | .ok (_, .directory) => .error .isDirectory

/-- The tree with the file at a path written. A path that asks for a directory is
refused, also where there is nothing. -/
def write (t : FileTree) (path : String) (contents : FileContents) : Except FileError FileTree :=
  match t.resolve path with
  | .error e => .error e
  | .ok (.reached _) => .error .isDirectory
  | .ok (.named dir name) =>
    if endsInSlash path then .error .isDirectory
    else
      match nameError? name, t.entry? (dir ++ [name]) with
      | some e, _ => .error e
      | none, some .directory => .error .isDirectory
      | none, _ => .ok (t.insert (dir ++ [name]) (.file contents))

/-- The tree with a directory made at a path, where there must be nothing. -/
def makeDirectory (t : FileTree) (path : String) : Except FileError FileTree :=
  match t.resolve path with
  | .error e => .error e
  | .ok (.reached _) => .error .exists
  | .ok (.named dir name) =>
    match nameError? name, t.entry? (dir ++ [name]) with
    | some e, _ => .error e
    | none, some _ => .error .exists
    | none, none => .ok (t.insert (dir ++ [name]) .directory)

/-- The tree without the file at a path. -/
def removeFile (t : FileTree) (path : String) : FileTree :=
  match t.locate path with
  | .ok (place, .file _) => t.erase place
  | _ => t

/-- The files below the directory at a path. -/
def filesBelow (t : FileTree) (path : String) : List Place :=
  match t.locate path with
  | .ok (place, .directory) => (t.filesAt place).map Prod.fst
  | _ => []

/-- Keeps a changed tree as the state, and the state as it is after a failure. -/
def change (result : Except FileError FileTree) : StateM FileTree (Except FileError Unit) :=
  match result with
  | .ok t => do
    set t
    return .ok ()
  | .error e => return .error e

/-- The operations on a tree, which is the state. -/
def system : FileSystem (StateM FileTree) where
  isFile path := return (← get).isFile path
  isDirectory path := return (← get).isDirectory path
  readText path := return (← get).readText path
  writeText path text := do change ((← get).write path (.text text))
  makeDirectory path := do change ((← get).makeDirectory path)
  removeFile path := modify fun t => t.removeFile path
  filesBelow path := return (← get).filesBelow path

end FileTree

end ViewTree
