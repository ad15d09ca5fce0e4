import ViewTree.Digest
import ViewTree.Names.Registry
import ViewTree.Node
import ViewTree.Problem
import ViewTree.Text.Identifier

/-!
# Naming the nodes of an app

Names are given in three rounds: explicit names of definitions in document order,
then definitions without a name after their owner and position, then classes of
nodes with style that can land in a stylesheet. A node keeps the first name and
the first class it is given.
-/

namespace ViewTree

/-- Names by the position of the nodes they are given to. -/
abbrev Assigned := List (List Nat × String)

/-- Gives a name to the node at a position, unless it has one. -/
def Assigned.give (assigned : Assigned) (position : List Nat) (name : String) : Assigned :=
  if (assigned.lookup position).isSome then assigned else assigned ++ [(position, name)]

/-- The names and classes given so far. -/
structure Naming where
  names : Assigned := []
  classes : Assigned := []
deriving DecidableEq, Repr, Inhabited

namespace Naming

/-- The name given to a node. -/
def nameOf (naming : Naming) (head : Head) : Option String := naming.names.lookup head.position

/-- The class given to a node. -/
def classOf (naming : Naming) (head : Head) : Option String :=
  naming.classes.lookup head.position

/-- What a node is called in messages: its name, else the one in the document, else
its place. -/
def display (naming : Naming) (head : Head) : String :=
  ((naming.nameOf head).or head.name).getD head.path

/-- Gives a node a name. -/
def giveName (naming : Naming) (head : Head) (name : String) : Naming :=
  { naming with names := naming.names.give head.position name }

/-- Gives a node a class. -/
def giveClass (naming : Naming) (head : Head) (name : String) : Naming :=
  { naming with classes := naming.classes.give head.position name }

end Naming

/-- What a component's name in the document stands for. -/
structure ComponentEntry where
  identifier : String
  /-- The place of the component whose file holds the function. -/
  owner : Nat
  topLevel : Bool
  path : String
deriving DecidableEq, Repr

/-- The components by their names in the document, and every identifier taken. -/
structure NameTable where
  components : Keyed ComponentEntry := []
  identifiers : Registry := {}
deriving DecidableEq, Repr, Inhabited

namespace NameTable

/-- The component a type stands for. -/
def component? (table : NameTable) (type : String) : Option ComponentEntry :=
  table.components.lookup type

/-- Takes an identifier like the one asked for, and gives it. -/
def claim (table : NameTable) (base : String) : String × NameTable :=
  let (name, identifiers) := table.identifiers.claim base
  (name, { table with identifiers })

end NameTable

namespace Names

/-! ## Explicit names -/

/-- A definition with the component it belongs to and that component's place. -/
structure Owned where
  owner : Nat
  component : Node
  definition : Node

/-- Every definition of the app with its owner, in document order. -/
def ownedDefinitions (app : App) : List Owned :=
  app.components.zipIdx.flatMap fun (component, owner) =>
    component.definitions.map fun definition => { owner, component, definition }

/-- The state of the first round. -/
structure Explicit where
  table : NameTable := {}
  naming : Naming := {}
  problems : List Problem := []

/-- The problem of a name that an earlier definition has. -/
def repeatedName (head : Head) (name : String) (earlier : ComponentEntry) : Problem :=
  { rule := .distinctComponents, cause := .repeatedComponent name, path := head.path
    related := [earlier.path] }

/-- Names one definition, if the document does. -/
def nameExplicit (state : Explicit) (d : Owned) : Explicit :=
  let head := d.definition.head
  match head.name with
  | none => state
  | some name =>
    match state.table.component? name with
    | some earlier =>
      { state with problems := state.problems ++ [repeatedName head name earlier] }
    | none =>
      let (identifier, table) := state.table.claim (Text.toIdentifier name)
      let entry : ComponentEntry :=
        { identifier, owner := d.owner, path := head.path
          topLevel := head.position == d.component.head.position }
      { state with
        table := { table with components := table.components ++ [(name, entry)] }
        naming := state.naming.giveName head identifier }

/-- The first round. -/
def explicitNames (app : App) (naming : Naming) : Explicit :=
  (ownedDefinitions app).foldl nameExplicit { naming }

/-! ## Definitions without a name -/

/-- The places of a node below its owner, joined. -/
def relativePosition (owner head : Head) : String :=
  Text.join "_" ((head.position.drop owner.position.length).map Text.decimal)

/-- Names one definition of a component after its owner, unless it has a name. -/
def nameAnonymous (component : Node) (ownerName : String) (state : NameTable × Naming)
    (definition : Node) : NameTable × Naming :=
  let head := definition.head
  match state.2.nameOf head with
  | some _ => state
  | none =>
    let (name, table) :=
      state.1.claim (ownerName ++ "Part" ++ relativePosition component.head head)
    (table, state.2.giveName head name)

/-- Names the definitions of one component that are not named yet. -/
def nameInline (state : NameTable × Naming) (component : Node) : NameTable × Naming :=
  let ownerName := (state.2.nameOf component.head).getD "Component"
  ((component.nodes.drop 1).filter Node.isDefinition).foldl (nameAnonymous component ownerName)
    state

/-- The second round. -/
def anonymousNames (app : App) (table : NameTable) (naming : Naming) : NameTable × Naming :=
  app.components.foldl nameInline (table, naming)

/-! ## Classes -/

/-- Six digits that tell places apart. -/
def pathDigits (path : String) : String :=
  String.ofList ((Digest.hexOfText path).toList.take 6)

/-- The state of the third round: the name of the definition passed last. -/
structure Classing where
  registry : Registry := { separator := "-" }
  naming : Naming := {}
  owner : String := "component"

/-- What a class name starts with: the node's name in the document, or its owner's. -/
def classStem (head : Head) (owner : String) : String :=
  match head.name, head.isDefinition with
  | some name, false => Text.toKebab name
  | _, _ => Text.toKebab owner

/-- Gives one node a class, if some of its style can land in a stylesheet. -/
def classNode (state : Classing) (node : Node) : Classing :=
  let head := node.head
  let owner :=
    if head.isDefinition then (state.naming.nameOf head).getD state.owner else state.owner
  if head.hasStaticStyle then
    let (name, registry) :=
      state.registry.claim (classStem head owner ++ "-" ++ pathDigits head.path)
    { registry, owner, naming := state.naming.giveClass head name }
  else { state with owner }

/-- Gives classes to the nodes of one component. -/
def classComponent (state : Classing) (component : Node) : Classing :=
  let owner := (state.naming.nameOf component.head).getD "component"
  component.nodes.foldl classNode { state with owner }

/-- The third round. -/
def classNames (app : App) (naming : Naming) : Naming :=
  (app.components.foldl classComponent { naming }).naming

/-! ## All rounds -/

/-- The names of an app: the table or the problems, and what was given. -/
structure Resolution where
  outcome : Except (List Problem) NameTable
  naming : Naming

/-- Names an app whose nodes may have names already. If an explicit name comes
twice, only explicit names are given. -/
def resolve (app : App) (before : Naming) : Resolution :=
  let explicit := explicitNames app before
  if explicit.problems.isEmpty then
    let (table, named) := anonymousNames app explicit.table explicit.naming
    { outcome := .ok table, naming := classNames app named }
  else { outcome := .error explicit.problems, naming := explicit.naming }

end Names

end ViewTree
