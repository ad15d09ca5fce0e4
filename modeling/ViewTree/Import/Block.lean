import ViewTree.Import.Spec
import ViewTree.Names.Naming

/-!
# The imports of one file

Imports of the document come first and must not contradict each other or the
functions of the file. Imports the compiler adds yield to them: an entry whose
local name is taken is dropped. The block lists sources in the order they first
appear, those of the compiler first.
-/

namespace ViewTree

/-- What a local name is bound to. -/
structure ImportBinding where
  source : String
  symbol : Symbol
  path : String
deriving DecidableEq, Repr

/-- Everything imported from one source. -/
structure SourceGroup where
  defaults : List String := []
  everythings : List String := []
  /-- Symbols with their local names. -/
  named : List (String × String) := []
deriving DecidableEq, Repr

/-- Appends an item that is not there yet. -/
def pushNew {α : Type} [BEq α] (items : List α) (a : α) : List α :=
  if items.contains a then items else items ++ [a]

namespace SourceGroup

/-- Adds a symbol under a local name. -/
def add (g : SourceGroup) (symbol : Symbol) (name : String) : SourceGroup :=
  match symbol with
  | .default => { g with defaults := pushNew g.defaults name }
  | .everything => { g with everythings := pushNew g.everythings name }
  | .named s => { g with named := pushNew g.named (s, name) }

/-- Adds several symbols. -/
def addAll (g : SourceGroup) (entries : List (Symbol × String)) : SourceGroup :=
  entries.foldl (fun g (symbol, name) => g.add symbol name) g

/-- A statement that imports `what` from a source. -/
def statement (what source : String) : String := "import " ++ what ++ " from '" ++ source ++ "';"

/-- The single symbols of a source, each with its local name where that differs. -/
def renderNamed (g : SourceGroup) : String :=
  Text.join ", " (g.named.map fun (symbol, name) =>
    if symbol = name then symbol else symbol ++ " as " ++ name)

/-- What the first statement of a source takes: the first default and the single
symbols, between braces. -/
def renderFirst (g : SourceGroup) : Option String :=
  let braced := "\x7b " ++ g.renderNamed ++ " \x7d"
  match g.defaults, g.renderNamed.isEmpty with
  | [], true => none
  | [], false => some braced
  | d :: _, true => some d
  | d :: _, false => some (d ++ ", " ++ braced)

/-- The import statements of a source. -/
def render (g : SourceGroup) (source : String) : List String :=
  let first := g.renderFirst.toList.map fun what => statement what source
  let defaults := (g.defaults.drop 1).map fun d => statement d source
  let everythings := g.everythings.map fun n => statement ("* as " ++ n) source
  if g.defaults.isEmpty && g.everythings.isEmpty && g.named.isEmpty then
    ["import '" ++ source ++ "';"]
  else first ++ defaults ++ everythings

end SourceGroup

/-- The imports of a file. -/
structure ImportBlock where
  groups : Keyed SourceGroup := []
  locals : Keyed ImportBinding := []
deriving DecidableEq, Repr

namespace ImportBlock

/-- Whether a local name is bound. -/
def binds (b : ImportBlock) (name : String) : Bool := b.locals.has name

/-- The import statements, one a line. -/
def render (b : ImportBlock) : String :=
  Text.join "\n" (b.groups.flatMap fun (source, g) => g.render source)

/-- Adds entries to the group of a source, which is made if there is none. -/
def addTo (groups : Keyed SourceGroup) (source : String) (entries : List (Symbol × String)) :
    Keyed SourceGroup :=
  groups.put source (((groups.lookup source).getD {}).addAll entries)

/-! ## Imports of the document -/

/-- The functions of a file with the places of their definitions. -/
abbrev Reserved := Keyed String

/-- One entry of an import, with the import. -/
abbrev Entry := Import × Symbol × String

/-- The entries of imports, in order. -/
def entriesOf (imports : List Import) : List Entry :=
  imports.flatMap fun i => i.entries.map fun (symbol, name) => (i, symbol, name)

/-- The problem of an import under the name of one of the file's functions. -/
def reservedProblem (i : Import) (name path : String) : Problem :=
  { rule := .distinctImports, cause := .importReserved name i.source path, path := i.path
    related := [path] }

/-- The problem of a local name that stands for two things. -/
def reboundProblem (i : Import) (symbol : Symbol) (name : String) (b : ImportBinding) : Problem :=
  { rule := .distinctImports
    cause := .importRebound name symbol.describe i.source b.symbol.describe b.source b.path
    path := i.path
    related := [b.path] }

/-- The local names bound so far, and the problems found. -/
structure Checked where
  locals : Keyed ImportBinding := []
  problems : List Problem := []

/-- Checks one entry of the document against the functions of the file and against
earlier entries. -/
def checkEntry (reserved : Reserved) (state : Checked) (entry : Entry) : Checked :=
  let (i, symbol, name) := entry
  match reserved.lookup name, state.locals.lookup name with
  | some path, _ => { state with problems := state.problems ++ [reservedProblem i name path] }
  | none, some b =>
    if b.source = i.source ∧ b.symbol = symbol then state
    else { state with problems := state.problems ++ [reboundProblem i symbol name b] }
  | none, none =>
    let binding : ImportBinding := { source := i.source, symbol, path := i.path }
    { state with locals := state.locals ++ [(name, binding)] }

/-- Checks the imports of the document. -/
def check (reserved : Reserved) (user : List Import) : Checked :=
  (entriesOf user).foldl (checkEntry reserved) {}

/-! ## Imports of the compiler -/

/-- Takes the entries of an import whose local names are free, one after the other. -/
def takeFree (reserved : Reserved) (i : Import) :
    List (Symbol × String) → Keyed ImportBinding → List (Symbol × String) × Keyed ImportBinding
  | [], locals => ([], locals)
  | (symbol, name) :: rest, locals =>
    if locals.has name || reserved.has name then takeFree reserved i rest locals
    else
      let binding : ImportBinding := { source := i.source, symbol, path := i.path }
      let (kept, locals) := takeFree reserved i rest (locals ++ [(name, binding)])
      ((symbol, name) :: kept, locals)

/-- Adds an import of the compiler. One of which nothing is left adds no source. -/
def addImplicit (reserved : Reserved) (block : ImportBlock) (i : Import) : ImportBlock :=
  let (kept, locals) := takeFree reserved i i.entries block.locals
  if kept.isEmpty && i.kind != .effects then { block with locals }
  else { groups := addTo block.groups i.source kept, locals }

/-- Adds an import of the document that has been checked. -/
def addUser (block : ImportBlock) (i : Import) : ImportBlock :=
  { block with groups := addTo block.groups i.source i.entries }

/-- The import block of a file, or the problems of the document's imports. -/
def collect (user implicit : List Import) (reserved : Reserved) :
    Except (List Problem) ImportBlock :=
  let checked := check reserved user
  if checked.problems.isEmpty then
    let block := implicit.foldl (addImplicit reserved) { locals := checked.locals }
    .ok (user.foldl addUser block)
  else .error checked.problems

end ImportBlock

/-! ## Files of an app -/

/-- The imports of the document that hold in a component's file: those of the app,
then those of the component's nodes. -/
def App.userImports (app : App) (component : Node) : List Import :=
  app.imports ++ component.nodes.flatMap fun n => n.head.imports

/-- The functions a component's file declares, with the places of their
definitions. -/
def Naming.functions (naming : Naming) (component : Node) : ImportBlock.Reserved :=
  component.definitions.filterMap fun d =>
    (naming.nameOf d.head).map fun name => (name, d.head.path)

/-- Appends the problems that do not read like one that is there. -/
def addNewProblems (problems found : List Problem) : List Problem :=
  found.foldl (fun ps p => if ps.any (Problem.same p) then ps else ps ++ [p]) problems

/-- The problems of the imports of every file. One of the app's own imports shows in
every file and is listed once. -/
def App.importProblems (app : App) (naming : Naming) : List Problem :=
  app.components.foldl
    (fun problems c =>
      addNewProblems problems
        (ImportBlock.check (naming.functions c) (app.userImports c)).problems)
    []

end ViewTree
