import ViewTree.Import.Block
import ViewTree.Markup.Render
import ViewTree.Statement

/-!
# Component files

Each component of an app becomes one file: its imports, its function, and a
function for every definition inside it. The sheets of the definitions and the
blocks of the classes are collected alongside.
-/

namespace ViewTree

/-- A function of a component file, ready to be written. -/
structure Function where
  /-- What stands in front of the function. -/
  exported : String
  name : String
  params : Option Pattern
  consumers : List Consumer
  /-- The names that are bound more than once. -/
  redeclared : List String
  /-- What the style helpers need declared. -/
  setup : List String
  statements : List Statement
  /-- What the function returns, laid out and shielded. -/
  markup : Option String
deriving Repr

namespace Function

/-- The declarations of the consumed contexts. -/
def consumerLines (f : Function) : List String :=
  f.consumers.map fun c =>
    c.declare (if f.redeclared.contains c.localName then "var" else "const")

/-- The return of the function. -/
def returnText (f : Function) : String :=
  match f.markup with
  | some m =>
    if Text.has m '\n' then "return (\n" ++ Text.indent m ++ "\n);"
    else "return " ++ m ++ ";"
  | none => "return null;"

/-- The body of the function. -/
def lines (f : Function) : List String :=
  f.consumerLines ++ f.setup ++ f.statements.map (fun s => Text.shield s.render) ++ [f.returnText]

/-- The function, laid out and shielded. -/
def render (f : Function) : String :=
  let params := (f.params.map fun p => Text.shield p.render).getD ""
  f.exported ++ "function " ++ f.name ++ "(" ++ params ++ ") \x7b\n" ++
    Text.indent (Text.join "\n" f.lines) ++ "\n\x7d"

/-- Markup inside the contexts that a definition provides, the first outermost. -/
def provide (providers : List Provider) (markup : Option String) : Option String :=
  providers.foldr
    (fun p inner =>
      let opening := p.identifier ++ ".Provider value=" ++ Markup.braces (Text.shield p.value)
      some (Markup.wrap opening (p.identifier ++ ".Provider") inner.toList))
    markup

/-- The pattern of a definition's props. -/
def paramsOf (head : Head) : Option Pattern :=
  match head.kind with
  | .component params => params
  | _ => none

/-- What stands in front of a function: a component is the default export of its
file, and a definition with a name can be used from other files. -/
def exportWord (isComponent : Bool) (head : Head) : String :=
  if isComponent then "export default " else if head.name.isSome then "export " else ""

/-- The function of a definition of the component at place `index`. -/
def ofDefinition (s : Scope) (index : Nat) (definition : Node) (isComponent : Bool) :
    Emit Function := do
  let head := definition.head
  let params := paramsOf head
  let consumers := s.contexts.consumers head
  let providers := s.contexts.providers head
  let outer := (params.map Pattern.boundNames).getD [] ++ consumers.map Consumer.localName
  let (statements, redeclared) :=
    Statement.markRedeclared (head.expressions.map Statement.ofExpression) outer
  Noted.note
    { hooks := (if consumers.isEmpty then [] else ["useContext"]) ++ Statement.hooks statements
      contexts := consumers.map Consumer.identifier ++ providers.map Provider.identifier }
  let markup := Markup.root s index definition
  Noted.note markup.notes
  pure
    { exported := exportWord isComponent head
      name := s.functionName head
      params, consumers, redeclared, statements
      setup := s.platform.stylePrelude markup.notes.usage
      markup := provide providers markup.value }

end Function

/-- A component's file and what it adds to the stylesheets. -/
structure ComponentFile where
  name : String
  path : String
  source : String
  styleSheet : List String
  styleModule : List String
deriving DecidableEq, Repr

namespace ComponentFile

/-- A directory without slashes at its end. -/
def dropSlashes (dir : String) : String :=
  String.ofList (Text.dropEndWhile (· == '/') dir.toList)

/-- The way from a component directory back to the root of the output. -/
def toRoot (componentDir : String) : String :=
  let segments := (Text.splitAt '/' componentDir.toList).filter fun p => p != [] && p != ['.']
  if segments.isEmpty then "./" else Text.join "" (segments.map fun _ => "../")

/-- The names of the two stylesheets. -/
def globalSheet : String := "global.css"

@[inherit_doc globalSheet]
def styleModuleSheet : String := "app.scss"

/-- The functions of a component: its own, then those of its inner definitions. -/
def functions (s : Scope) (index : Nat) (component : Node) : Emit (List Function) :=
  Noted.eachIndexed (fun i d => Function.ofDefinition s index d (i == 0)) component.definitions

/-- The import of a component of another file. -/
def referenceImport (r : Reference) : Import :=
  let source := "./" ++ r.file
  if r.isDefault then Import.ofDefault source r.identifier
  else Import.ofNames source [r.identifier]

/-- The imports of the stylesheets, which the root component has on platforms with
stylesheets. -/
def sheetImports (s : Scope) (index : Nat) : List Import :=
  if s.platform.importsStylesheets && index == s.app.rootIndex then
    let dir := toRoot s.options.componentDir ++ dropSlashes s.options.styleDir
    [Import.ofSource (dir ++ "/" ++ globalSheet), Import.ofSource (dir ++ "/" ++ styleModuleSheet)]
  else []

/-- An import of symbols, if there are any. -/
def namesImport (source : String) (names : List String) : List Import :=
  if names.isEmpty then [] else [Import.ofNames source names]

/-- The imports the compiler adds to a file for stylesheets, hooks, contexts, style helpers
and elements. -/
def plainImports (s : Scope) (index : Nat) (needs : Needs) : List Import :=
  sheetImports s index ++
    namesImport "react" needs.hooks.eraseDups ++
    namesImport (toRoot s.options.componentDir ++ "contexts") needs.contexts.eraseDups ++
    s.platform.styleImports needs.usage s.options.runtimeModule ++
    needs.tags.eraseDups.filterMap s.platform.elementImport

/-- The imports the compiler adds to a file for components of other files. -/
def referenceImports (needs : Needs) : List Import :=
  needs.references.eraseDups.map referenceImport

/-- The imports the compiler adds to a file on account of what it needs. -/
def implicitImports (s : Scope) (index : Nat) (needs : Needs) : List Import :=
  plainImports s index needs ++ referenceImports needs

/-- The text of a file: imports, then functions with a blank line between them. -/
def sourceText (imports : ImportBlock) (functions : List Function) : String :=
  let block := imports.render
  (if block.isEmpty then "" else block ++ "\n\n") ++
    Text.unshield (Text.join "\n\n" (functions.map Function.render)) ++ "\n"

/-- The path of a component's file. -/
def pathOf (s : Scope) (name : String) : String :=
  dropSlashes s.options.componentDir ++ "/" ++ name ++ "." ++ s.platform.extension

/-- The blocks of the classes of a component, in document order. -/
def classBlocks (s : Scope) (component : Node) : List String :=
  component.nodes.filterMap fun n =>
    (Style.resolve s.platform s.app.styleFormats s.naming n.head).css

/-- The file of the component at place `index`, or the problems of its imports. -/
def ofComponent (s : Scope) (index : Nat) (component : Node) :
    Except (List Problem) ComponentFile := do
  let written := functions s index component
  let imports ← ImportBlock.collect (s.app.userImports component)
    (implicitImports s index written.notes) (s.naming.functions component)
  let name := s.functionName component.head
  let definitions := component.definitions
  pure
    { name
      path := pathOf s name
      source := sourceText imports written.value
      styleSheet := definitions.filterMap fun d => d.head.styleSheet
      styleModule :=
        (definitions.filterMap fun d => d.head.styleModule) ++ classBlocks s component }

end ComponentFile

end ViewTree
