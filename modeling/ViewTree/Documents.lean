import ViewTree.Files.System
import ViewTree.Json.Reader

/-!
# Finding and reading documents

Documents are files whose names end in `.app.json`. A directory stands for the
documents below it, ordered by path, and a file for itself.
-/

namespace ViewTree

/-- A document that was read. -/
structure SourceDocument where
  path : String
  text : String
  value : Json
deriving Repr

/-- Why a document could not be read. -/
inductive DocumentError where
  | unreadable (path : String) (error : FileError)
  | notJson (path fault : String)
deriving DecidableEq, Repr

namespace DocumentError

/-- What lies behind the failure. -/
def reason : DocumentError → String
  | unreadable _ error => error.message
  | notJson _ fault => fault

/-- The wording of the failure. -/
def message : DocumentError → String
  | unreadable path error => "failed to read " ++ path ++ ": " ++ error.message
  | notJson path fault => path ++ " is not valid JSON: " ++ fault

end DocumentError

namespace Documents

/-- The end of a document's name. -/
def suffix : List Char := ".app.json".toList

/-- What is in front of `ending`, if the text ends so. -/
def beforeEnding? (ending cs : List Char) : Option (List Char) :=
  if ending.isSuffixOf cs then some (cs.take (cs.length - ending.length)) else none

/-- Whether a file of this name is a document. -/
def isDocumentName (name : String) : Bool := suffix.isSuffixOf name.toList

/-- Whether one path comes before another or is the same, name by name. -/
def ordered : List String → List String → Bool
  | [], _ => true
  | _ :: _, [] => false
  | a :: as, b :: bs => a < b || (a == b && ordered as bs)

/-- The name of a document without its ending, which names its output directory. -/
def stem (path : String) : String :=
  let cs := (FilePath.fileName path).toList
  String.ofList (((beforeEnding? suffix cs).or (beforeEnding? ".json".toList cs)).getD cs)

variable {m : Type → Type} [Monad m]

/-- The documents that a path stands for. -/
def find (fs : FileSystem m) (root : String) : m (List String) := do
  if ← fs.isFile root then pure [root]
  else
    let files ← fs.filesBelow root
    let found := files.filter fun names => (names.getLast?.map isDocumentName).getD false
    pure ((found.mergeSort ordered).map fun names => FilePath.join root (Text.join "/" names))

/-- Reads a document. -/
def read (fs : FileSystem m) (path : String) : m (Except DocumentError SourceDocument) := do
  match ← fs.readText path with
  | .error e => pure (.error (.unreadable path e))
  | .ok text =>
    match Json.parse text with
    | .error fault => pure (.error (.notJson path fault))
    | .ok value => pure (.ok { path, text, value })

/-- Reads documents one after the other, up to the first that fails. -/
def readAll (fs : FileSystem m) : List String → m (Except DocumentError (List SourceDocument))
  | [] => pure (.ok [])
  | path :: rest => do
    match ← read fs path with
    | .error e => pure (.error e)
    | .ok document =>
      match ← readAll fs rest with
      | .error e => pure (.error e)
      | .ok documents => pure (.ok (document :: documents))

end Documents

end ViewTree
