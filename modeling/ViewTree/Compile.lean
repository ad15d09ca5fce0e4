import ViewTree.Artifact
import ViewTree.Json.Reader
import ViewTree.Load.App

/-!
# Compiling documents

A document is loaded, named and checked; if nothing is wrong with it, every
component becomes a file. A compilation gives the whole output or every problem of
the first stage that fails, never both.
-/

namespace ViewTree

/-- The names and contexts of an app, and the problems of the whole app. -/
structure Analysis where
  naming : Naming
  table : NameTable
  contexts : Contexts
  problems : List Problem

/-- Names the app, binds its contexts and checks the imports of every file. -/
def App.analyze (app : App) : Analysis :=
  let resolution := Names.resolve app {}
  let (table, nameProblems) :=
    match resolution.outcome with
    | .ok table => (table, [])
    | .error problems => ({}, problems)
  let (bound, table) := Contexts.bind app resolution.naming table
  let (contexts, contextProblems) :=
    match bound with
    | .ok contexts => (contexts, [])
    | .error problems => ([], problems)
  { naming := resolution.naming, table, contexts
    problems := nameProblems ++ contextProblems ++ app.importProblems resolution.naming }

/-- The files of the components, the next of which is number `index`, and the
problems of those that could not be written. -/
def componentFiles (s : Scope) : (index : Nat) → List Node → List ComponentFile × List Problem
  | _, [] => ([], [])
  | index, c :: rest =>
    let (files, problems) := componentFiles s (index + 1) rest
    match ComponentFile.ofComponent s index c with
    | .ok file => (file :: files, problems)
    | .error found => (files, found ++ problems)

/-- Compiles an app. -/
def App.compile (app : App) (options : Options) : Except (List Problem) Output :=
  let platform := options.resolvePlatform app.platform
  let analysis := app.analyze
  if analysis.problems.isEmpty then
    let scope : Scope :=
      { app, options, platform
        naming := analysis.naming, table := analysis.table, contexts := analysis.contexts }
    let (files, problems) := componentFiles scope 0 app.components
    if problems.isEmpty then .ok (Output.assemble app files analysis.contexts options platform)
    else .error problems
  else .error analysis.problems

/-- Compiles a document. -/
def compile (document : Json) (options : Options) : Except (List Problem) Output :=
  match Load.app document with
  | .ok app => app.compile options
  | .error problems => .error problems

/-- Compiles the text of a document. -/
def compileText (source : String) (options : Options) : Except (List Problem) Output :=
  match Json.parse source with
  | .ok document => compile document options
  | .error fault => .error [{ rule := .document, cause := .notJson fault, path := "$" }]

end ViewTree
