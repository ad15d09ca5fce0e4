import ViewTree.Compile
import ViewTree.Files.System
import ViewTree.Json.Typed

/-!
# The cache of outputs

The output of a document is kept in a file named after the document's path, with a
digest of the document's text and the options. It is used as long as the digest is
the same.
-/

namespace ViewTree

/-- An output kept with the digest of what it was made from. -/
structure CacheEntry where
  hash : String
  output : Output
deriving DecidableEq, Repr

namespace Cache

/-- What is digested: the text of a document and the options, with a zero byte
between them. -/
def hashedText (text : String) (options : Options) : String :=
  text ++ "\x00" ++ options.toJson.render

/-- The digest of the text of a document and the options. -/
def hash (text : String) (options : Options) : String :=
  Digest.hexOfText (hashedText text options)

/-! ## Entries as JSON -/

/-- An artifact as a JSON value. -/
def artifactJson (f : Artifact) : Json :=
  .object
    [("path", .string f.path), ("kind", .string f.kind.name), ("contents", .string f.contents)]

/-- An output as a JSON value. -/
def outputJson (o : Output) : Json :=
  .object
    [("platform", .string o.platform.name), ("files", .array (o.files.map artifactJson)),
     ("fingerprint", .string o.fingerprint)]

/-- An entry as a JSON value. -/
def entryJson (e : CacheEntry) : Json :=
  .object [("hash", .string e.hash), ("output", outputJson e.output)]

/-! ## Entries as texts -/

open Json (Fault)

/-- The parts of an artifact read so far. -/
structure ArtifactDraft where
  path : Option String := none
  kind : Option ArtifactKind := none
  contents : Option String := none

/-- An artifact as a record. -/
def artifactShape : Json.RecordShape ArtifactDraft where
  title := "struct Artifact"
  names := ["path", "kind", "contents"]
  read draft name cs :=
    match name with
    | "path" => (Json.readText cs).map fun (s, r) => ({ draft with path := some s }, r)
    | "kind" =>
      (Json.readChoice ArtifactKind.names cs).map fun (k, r) => ({ draft with kind := some k }, r)
    | _ => (Json.readText cs).map fun (s, r) => ({ draft with contents := some s }, r)

/-- Reads an artifact, all of whose fields must be there. -/
def readArtifact (cs : List Char) : Except Fault (Artifact × List Char) := do
  let (draft, rest) ← artifactShape.readRecord {} cs
  let path ← Json.required "path" draft.path rest
  let kind ← Json.required "kind" draft.kind rest
  let contents ← Json.required "contents" draft.contents rest
  .ok ({ path, kind, contents }, rest)

/-- The parts of an output read so far. -/
structure OutputDraft where
  platform : Option Platform := none
  files : Option (List Artifact) := none
  fingerprint : Option String := none

/-- An output as a record. -/
def outputShape : Json.RecordShape OutputDraft where
  title := "struct CompileOutput"
  names := ["platform", "files", "fingerprint"]
  read draft name cs :=
    match name with
    | "platform" =>
      (Json.readChoice Platform.names cs).map fun (p, r) => ({ draft with platform := some p }, r)
    | "files" =>
      (Json.readList readArtifact cs).map fun (fs, r) => ({ draft with files := some fs }, r)
    | _ => (Json.readText cs).map fun (s, r) => ({ draft with fingerprint := some s }, r)

/-- Reads an output, all of whose fields must be there. -/
def readOutput (cs : List Char) : Except Fault (Output × List Char) := do
  let (draft, rest) ← outputShape.readRecord {} cs
  let platform ← Json.required "platform" draft.platform rest
  let files ← Json.required "files" draft.files rest
  let fingerprint ← Json.required "fingerprint" draft.fingerprint rest
  .ok ({ platform, files, fingerprint }, rest)

/-- The parts of an entry read so far. -/
structure EntryDraft where
  hash : Option String := none
  output : Option Output := none

/-- An entry as a record. -/
def entryShape : Json.RecordShape EntryDraft where
  title := "struct CacheEntry"
  names := ["hash", "output"]
  read draft name cs :=
    match name with
    | "hash" => (Json.readText cs).map fun (s, r) => ({ draft with hash := some s }, r)
    | _ => (readOutput cs).map fun (o, r) => ({ draft with output := some o }, r)

/-- Reads an entry, both of whose fields must be there. -/
def readEntry (cs : List Char) : Except Fault (CacheEntry × List Char) := do
  let (draft, rest) ← entryShape.readRecord {} cs
  let hash ← Json.required "hash" draft.hash rest
  let output ← Json.required "output" draft.output rest
  .ok ({ hash, output }, rest)

/-- The entry written in a text. -/
def parseEntry (text : String) : Option CacheEntry :=
  (Json.readWhole readEntry text.toList).toOption

/-! ## Files -/

/-- A character of a document's path in the name of its entry. -/
def safeChar (c : Char) : Char := if c = '/' ∨ c = '\\' ∨ c = ':' then '_' else c

/-- The file of a document's entry. -/
def entryPath (dir key : String) : String :=
  FilePath.join dir (String.ofList (key.toList.map safeChar) ++ ".json")

variable {m : Type → Type} [Monad m]

/-- Makes the directory of a cache, if there is none. -/
def prepare (fs : FileSystem m) (dir : String) : m Unit := do
  if ← fs.pathExists dir then pure ()
  else
    let _ ← fs.createDirectories dir

/-- The output kept for a document, if it was made from what the digest says. A file
that is no entry is removed. -/
def fetch (fs : FileSystem m) (dir key hash : String) : m (Option Output) := do
  match ← fs.readText (entryPath dir key) with
  | .error _ => pure none
  | .ok text =>
    match parseEntry text with
    | some entry => pure (if entry.hash = hash then some entry.output else none)
    | none =>
      fs.removeFile (entryPath dir key)
      pure none

/-- Keeps the output of a document. A failure is of no consequence. -/
def store (fs : FileSystem m) (dir key hash : String) (output : Output) : m Unit := do
  let _ ← fs.writeText (entryPath dir key) (entryJson { hash, output }).render

end Cache

end ViewTree
