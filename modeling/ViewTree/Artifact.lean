import ViewTree.Component

/-!
# The output of a compilation

An output is a list of artifacts: a file for each component, the two stylesheets,
and the contexts module if there are contexts. Its fingerprint is a digest of every
path and every content.
-/

namespace ViewTree

/-- What an artifact is. -/
inductive ArtifactKind where
  | component
  | globalStylesheet
  | styleModule
  | contexts
deriving DecidableEq, Repr

namespace ArtifactKind

/-- The name of a kind of artifact. -/
def name : ArtifactKind → String
  | component => "component"
  | globalStylesheet => "globalStylesheet"
  | styleModule => "styleModule"
  | contexts => "contexts"

/-- All kinds, in the order of an output. -/
def all : List ArtifactKind := [component, globalStylesheet, styleModule, contexts]

/-- The kinds by their names. -/
def names : List (String × ArtifactKind) := all.map fun kind => (kind.name, kind)

end ArtifactKind

/-- A file of the output; its path starts at the root of the output. -/
structure Artifact where
  path : String
  kind : ArtifactKind
  contents : String
deriving DecidableEq, Repr

/-- The result of a compilation. -/
structure Output where
  platform : Platform
  files : List Artifact
  fingerprint : String
deriving DecidableEq, Repr

namespace Output

/-- Whether the text ends a line. -/
def endsLine (s : String) : Bool := s.toList.getLast? == some '\n'

/-- Appends a section to a sheet. It starts on a line of its own, after a blank line
unless it is the first text, and it ends its last line; a blank section adds nothing. -/
def appendSection (sheet text : String) : String :=
  if Text.isBlank text then sheet
  else
    let gap := if sheet.isEmpty then "" else if endsLine sheet then "\n" else "\n\n"
    sheet ++ gap ++ text ++ if endsLine text then "" else "\n"

/-- Appends sections to a sheet, one after the other. -/
def appendSections (sheet : String) (sections : List String) : String :=
  sections.foldl appendSection sheet

/-- What is digested for the fingerprint: each path and each content, with a zero
byte after each. -/
def fingerprintText (files : List Artifact) : String :=
  Text.join "" (files.map fun f => f.path ++ "\x00" ++ f.contents ++ "\x00")

/-- The fingerprint of a list of files. -/
def fingerprintOf (files : List Artifact) : String := Digest.hexOfText (fingerprintText files)

/-- The path of the contexts module. -/
def contextsPath : String := "contexts.js"

/-- The artifacts of an app, given its component files. -/
def artifacts (app : App) (components : List ComponentFile) (contexts : Contexts)
    (options : Options) : List Artifact :=
  let dir := ComponentFile.dropSlashes options.styleDir
  (components.map fun c => { path := c.path, kind := .component, contents := c.source }) ++
    [{ path := dir ++ "/" ++ ComponentFile.globalSheet
       kind := .globalStylesheet
       contents := appendSections app.styleSheet (components.flatMap ComponentFile.styleSheet) },
     { path := dir ++ "/" ++ ComponentFile.styleModuleSheet
       kind := .styleModule
       contents :=
         appendSections app.styleModule (components.flatMap ComponentFile.styleModule) }] ++
    if contexts.isEmpty then []
    else [{ path := contextsPath, kind := .contexts, contents := contexts.render }]

/-- The output made of an app's component files. -/
def assemble (app : App) (components : List ComponentFile) (contexts : Contexts)
    (options : Options) (platform : Platform) : Output :=
  let files := artifacts app components contexts options
  { platform, files, fingerprint := fingerprintOf files }

/-- The artifact with a path. -/
def file? (o : Output) (path : String) : Option Artifact := o.files.find? fun f => f.path == path

/-- The artifacts of a kind. -/
def ofKind (o : Output) (kind : ArtifactKind) : List Artifact :=
  o.files.filter fun f => f.kind == kind

end Output

end ViewTree
