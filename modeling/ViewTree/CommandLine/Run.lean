import ViewTree.Cache
import ViewTree.CommandLine.Arguments
import ViewTree.Documents
import ViewTree.Options.Config

/-!
# Running commands

`compile` writes the output of every document below the output directory, each in a
directory of its own if there are several; `check` only reports problems. A problem
of a document does not keep the others from being compiled, while a failing file
operation ends the run.
-/

namespace ViewTree.CommandLine

/-- What a run leaves besides files: its exit code and what it printed. -/
structure Outcome where
  exit : Nat
  stdout : String := ""
  stderr : String := ""
deriving DecidableEq, Repr

/-- The outcome of a run that a failure ended, after what was printed before it. -/
def Outcome.failed (stderr message : String) : Outcome :=
  { exit := 2, stderr := stderr ++ "error: " ++ message ++ "\n" }

/-- What is printed about a problem of a document. -/
def problemLines (path : String) (p : Problem) : String :=
  path ++ ": " ++ p.describe ++ "\n" ++
    Text.join "" (p.related.map fun r => "    related: " ++ r ++ "\n")

/-- What is printed about the problems of a document. -/
def report (path : String) (problems : List Problem) : String :=
  Text.join "" (problems.map (problemLines path))

/-- A problem as a JSON value. -/
def problemJson (p : Problem) : Json :=
  .object
    [("code", .string p.rule.code), ("kind", .string p.kind.name), ("message", .string p.message),
     ("guarantee", .string p.rule.guarantee), ("path", .string p.path),
     ("related", .array (p.related.map .string))]

variable {m : Type → Type} [Monad m]

/-- The options of a run: those of the configuration file, if one is named, with the
platform asked for. -/
def loadOptions (fs : FileSystem m) (config : Option String) (platform : Option Platform) :
    m (Except String Options) := do
  match config with
  | none => pure (.ok { platform })
  | some path =>
    match ← fs.readText path with
    | .error e => pure (.error ("reading config " ++ path ++ ": " ++ e.message))
    | .ok text =>
      match Options.parse text with
      | .error fault => pure (.error ("parsing config " ++ path ++ ": " ++ fault))
      | .ok options => pure (.ok { options with platform := platform.or options.platform })

/-- The documents of a run. -/
def documents (fs : FileSystem m) (input : String) :
    m (Except String (List SourceDocument)) := do
  if ← fs.pathExists input then
    let paths ← Documents.find fs input
    if paths.isEmpty then
      pure (.error ("no *.app.json documents found under " ++ input))
    else
      match ← Documents.readAll fs paths with
      | .error e => pure (.error (e.message ++ ": " ++ e.reason))
      | .ok documents => pure (.ok documents)
  else pure (.error ("input " ++ input ++ " does not exist"))

/-- Compiles a document, or takes its output from the cache in `cacheDir`. -/
def compileOne (fs : FileSystem m) (options : Options) (cacheDir : Option String)
    (document : SourceDocument) : m (Except (List Problem) Output) := do
  match cacheDir with
  | none => pure (compile document.value options)
  | some dir =>
    let hash := Cache.hash document.text options
    match ← Cache.fetch fs dir document.path hash with
    | some output => pure (.ok output)
    | none =>
      match compile document.value options with
      | .error problems => pure (.error problems)
      | .ok output =>
        Cache.store fs dir document.path hash output
        pure (.ok output)

/-- Writes a file, with the directories that it lies in. -/
def writeFile (fs : FileSystem m) (path contents : String) : m (Except FileError Unit) := do
  match ← fs.ensureDirectories (FilePath.parents path) with
  | .error e => pure (.error e)
  | .ok () => fs.writeText path contents

/-- Writes artifacts below a directory, up to the first failure. -/
def writeFiles (fs : FileSystem m) (dir : String) : List Artifact → m (Except FileError Unit)
  | [] => pure (.ok ())
  | file :: rest => do
    match ← writeFile fs (FilePath.join dir file.path) file.contents with
    | .error e => pure (.error e)
    | .ok () => writeFiles fs dir rest

/-- What a run has printed, and whether every document compiled. -/
structure Progress where
  stderr : String := ""
  ok : Bool := true

/-- Compiles documents one after the other and writes their outputs. -/
def compileAll (fs : FileSystem m) (options : Options) (cacheDir : Option String)
    (dirOf : SourceDocument → String) : List SourceDocument → Progress → m Outcome
  | [], progress => pure { exit := if progress.ok then 0 else 1, stderr := progress.stderr }
  | document :: rest, progress => do
    match ← compileOne fs options cacheDir document with
    | .error problems =>
      compileAll fs options cacheDir dirOf rest
        { stderr := progress.stderr ++ report document.path problems, ok := false }
    | .ok output =>
      let dir := dirOf document
      match ← writeFiles fs dir output.files with
      | .error e =>
        pure (.failed progress.stderr ("writing output to " ++ dir ++ ": " ++ e.message))
      | .ok () => compileAll fs options cacheDir dirOf rest progress

/-- The directory of a document's output: `out`, or a directory in it if there are
several documents. -/
def outputDir (out : String) (many : Bool) (document : SourceDocument) : String :=
  if many then FilePath.join out (Documents.stem document.path) else out

/-- Runs `compile`. -/
def runCompile (fs : FileSystem m) (a : CompileArguments) : m Outcome := do
  match ← loadOptions fs a.config a.platform with
  | .error message => pure (.failed "" message)
  | .ok options =>
    let options := if a.sequential then { options with parallel := false } else options
    match ← documents fs a.input with
    | .error message => pure (.failed "" message)
    | .ok documents =>
      let cacheDir := if a.noCache then none else some a.cacheDir
      match cacheDir with
      | some dir => Cache.prepare fs dir
      | none => pure ()
      compileAll fs options cacheDir (outputDir a.out (1 < documents.length)) documents {}

/-- The problems of each document that has any. -/
def problemsOf (options : Options) (documents : List SourceDocument) :
    List (String × List Problem) :=
  documents.filterMap fun d =>
    match compile d.value options with
    | .ok _ => none
    | .error problems => some (d.path, problems)

/-- Runs `check`. -/
def runCheck (fs : FileSystem m) (a : CheckArguments) : m Outcome := do
  match ← documents fs a.input with
  | .error message => pure (.failed "" message)
  | .ok documents =>
    let found := problemsOf { platform := a.platform } documents
    let problems := found.flatMap Prod.snd
    let exit := if problems.isEmpty then 0 else 1
    if a.json then
      pure { exit, stdout := Json.pretty 0 (.array (problems.map problemJson)) ++ "\n" }
    else
      pure
        { exit
          stdout := if problems.isEmpty then "ok\n" else ""
          stderr := Text.join "" (found.map fun (path, ps) => report path ps) }

/-- How the program is used, in short. -/
def usage : String :=
  "Usage: uitree compile <INPUT> [--platform <PLATFORM>] [--out <OUT>] [--config <CONFIG>]\n" ++
  "                      [--no-cache] [--cache-dir <CACHE_DIR>] [--sequential]\n" ++
  "       uitree check <INPUT> [--platform <PLATFORM>] [--json]\n"

/-- Runs a command. -/
def run (fs : FileSystem m) : Command → m Outcome
  | .compile a => runCompile fs a
  | .check a => runCheck fs a
  | .version => pure { exit := 0, stdout := "uitree 0.1.0\n" }
  | .help => pure { exit := 0, stdout := usage }
  | .unfit => pure { exit := 2, stderr := usage }

end ViewTree.CommandLine
