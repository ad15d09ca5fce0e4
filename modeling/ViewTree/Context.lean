import ViewTree.Names.Naming
import ViewTree.Text.Uppercase

/-!
# Contexts

A context is provided by one definition of the app and can be used by any. Each
gets an identifier of its own, and one module of the output creates them all.
-/

namespace ViewTree

/-- A context of the app. -/
structure Context where
  name : String
  /-- The name of the context object in the emitted code. -/
  identifier : String
  /-- What the providing definition is called. -/
  provider : String
  /-- Where the providing definition stands. -/
  path : String
deriving DecidableEq, Repr

/-- A context object that wraps the markup of its provider. -/
structure Provider where
  identifier : String
  value : String
deriving DecidableEq, Repr

/-- A context bound to a local name at the start of a function. -/
structure Consumer where
  localName : String
  identifier : String
deriving DecidableEq, Repr

/-- The declaration of a consumed context with the given keyword. -/
def Consumer.declare (c : Consumer) (keyword : String) : String :=
  keyword ++ " " ++ c.localName ++ " = useContext(" ++ c.identifier ++ ");"

/-- The contexts of an app by name, in document order. -/
abbrev Contexts := Keyed Context

namespace Contexts

/-- The identifier a context asks for: `theme` becomes `ThemeContext`. -/
def identifierBase (name : String) : String := Text.capitalize name ++ "Context"

/-- What wraps the markup of a definition. -/
def providers (contexts : Contexts) (head : Head) : List Provider :=
  head.provides.filterMap fun p =>
    (contexts.lookup p.name).map fun c => { identifier := c.identifier, value := p.value }

/-- What a definition binds at its start. -/
def consumers (contexts : Contexts) (head : Head) : List Consumer :=
  head.uses.filterMap fun name =>
    (contexts.lookup name).map fun c => { localName := name, identifier := c.identifier }

/-- The module that creates the contexts. -/
def render (contexts : Contexts) : String :=
  "import \x7b createContext \x7d from 'react';\n\n" ++
    Text.join "" (contexts.map fun (_, c) =>
      "export const " ++ c.identifier ++ " = createContext(undefined);\n")

/-! ## Binding -/

/-- The contexts found so far. -/
structure Binding where
  contexts : Contexts := []
  table : NameTable
  problems : List Problem := []

/-- Everything the definitions of an app provide, in document order. -/
def provisions (app : App) : List (Head × Provision) :=
  app.definitions.flatMap fun d => d.head.provides.map fun p => (d.head, p)

/-- Everything the definitions of an app use, in document order, with the number of
each use. -/
def uses (app : App) : List (Head × String × Nat) :=
  app.definitions.flatMap fun d => d.head.uses.zipIdx.map fun (name, i) => (d.head, name, i)

/-- The problem of a context that an earlier definition provides. -/
def repeatedProvider (naming : Naming) (head : Head) (earlier : Context) : Problem :=
  { rule := .singleProvider
    cause := .repeatedProvider earlier.name earlier.provider (naming.display head)
    path := head.path
    related := [earlier.path] }

/-- Adds a provided context under a fresh identifier. -/
def provide (naming : Naming) (state : Binding) (head : Head) (p : Provision) : Binding :=
  match state.contexts.lookup p.name with
  | some earlier =>
    { state with problems := state.problems ++ [repeatedProvider naming head earlier] }
  | none =>
    let (identifier, table) := state.table.claim (identifierBase p.name)
    let context : Context :=
      { name := p.name, identifier, provider := naming.display head, path := head.path }
    { state with table, contexts := state.contexts ++ [(p.name, context)] }

/-- The problems of uses that no definition provides for. -/
def unprovided (naming : Naming) (app : App) (contexts : Contexts) : List Problem :=
  ((uses app).filter fun (_, name, _) => !contexts.has name).map fun (head, name, i) =>
    { rule := .knownContext
      cause := .unprovided (naming.display head) name
      path := head.path ++ ".useContexts[" ++ Text.decimal i ++ "]" }

/-- Binds the contexts of an app. Identifiers are taken from the table also when
problems are found. -/
def bind (app : App) (naming : Naming) (table : NameTable) :
    Except (List Problem) Contexts × NameTable :=
  let state := (provisions app).foldl (fun state (head, p) => provide naming state head p)
    { table }
  let problems := state.problems ++ unprovided naming app state.contexts
  (if problems.isEmpty then .ok state.contexts else .error problems, state.table)

end Contexts

end ViewTree
