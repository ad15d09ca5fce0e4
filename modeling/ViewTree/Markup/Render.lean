import ViewTree.Context
import ViewTree.Markup.Jsx
import ViewTree.Markup.Needs
import ViewTree.Options
import ViewTree.Style.Resolved

/-!
# Rendering nodes

Nodes are rendered from the bottom up: the content of a node becomes a list of
items, one for each piece, and the node puts them between its tags. Texts from the
document are shielded, so that laying out the items leaves them alone.
-/

namespace ViewTree

/-- What every component of an app is written with. -/
structure Scope where
  app : App
  naming : Naming
  table : NameTable
  contexts : Contexts
  options : Options
  platform : Platform

namespace Scope

/-- The name of a node's function. -/
def functionName (s : Scope) (head : Head) : String := s.naming.display head

/-- The style of a node, if it has any effect. -/
def styleOf (s : Scope) (head : Head) : Option ResolvedStyle :=
  let style := Style.resolve s.platform s.app.styleFormats s.naming head
  if style.isEmpty then none else some style

/-- The name of the file of a component. -/
def fileName (s : Scope) (owner : Nat) : String :=
  match s.app.components[owner]? with
  | some component => s.functionName component.head
  | none => ""

end Scope

namespace Markup

/-! ## Attributes -/

/-- The classes, the style fragments and the other attributes of an element. -/
structure Attributes where
  classes : List Value := []
  fragments : List Fragment := []
  others : List String := []

/-- Whether an attribute adds to the classes. -/
def isClassKey (platform : Platform) (key : String) : Bool :=
  match platform.classAttribute with
  | some attr => key == attr || key == "class"
  | none => false

/-- Adds one attribute. A style joins the fragments, if there are any. -/
def Attributes.add (platform : Platform) (a : Attributes) (key : String) (value : Value) :
    Attributes :=
  if isClassKey platform key then { a with classes := a.classes ++ [value] }
  else if key == "style" && !a.fragments.isEmpty then
    { a with fragments := a.fragments ++ [.dynamic value.code] }
  else { a with others := a.others ++ [Text.shield (attributeText key value)] }

/-- Adds one entry of the props. -/
def Attributes.addEntry (platform : Platform) (a : Attributes) : PropEntry → Attributes
  | .spread code =>
    { a with others := a.others ++ ["\x7b..." ++ Text.shield code ++ "\x7d"] }
  | .attributes values => values.foldl (fun a (key, value) => a.add platform key value) a

/-- The attributes of an element: what its styles say, then its props. -/
def Attributes.collect (platform : Platform) (props : List PropEntry)
    (styles : List ResolvedStyle) : Attributes :=
  let start : Attributes :=
    { classes := (styles.filterMap ResolvedStyle.className).map fun c => .literal (.string c)
      fragments := styles.flatMap ResolvedStyle.runtime }
  props.foldl (Attributes.addEntry platform) start

/-- The class attribute, if the platform has one and there are classes. -/
def Attributes.renderClass (platform : Platform) (a : Attributes) : List String :=
  match platform.classAttribute, classValue a.classes with
  | some attr, some value => [attr ++ "=" ++ Text.shield value]
  | _, _ => []

/-- The attributes as they are written: classes first, styles last. -/
def attributes (platform : Platform) (props : List PropEntry) (styles : List ResolvedStyle) :
    Emit (List String) :=
  let a := Attributes.collect platform props styles
  match platform.styleAttribute a.fragments with
  | none => pure (a.renderClass platform ++ a.others)
  | some style => do
    Noted.note { usage := platform.styleUsage a.fragments }
    pure (a.renderClass platform ++ a.others ++ ["style=" ++ braces (Text.shield style)])

/-! ## Nodes -/

/-- The tag of an element: the function of a component, or the type itself. -/
def tagOf (s : Scope) (index : Nat) (type : String) : Emit String :=
  match s.table.component? type with
  | some entry => do
    if entry.owner ≠ index then
      Noted.note
        { references := [⟨s.fileName entry.owner, entry.identifier, entry.topLevel⟩] }
    pure entry.identifier
  | none => do
    Noted.note { tags := [type] }
    pure type

/-- An element, given what stands below it; `inherited` is the style of the
definition whose root it is. -/
def elementNode (s : Scope) (index : Nat) (head : Head) (type : String)
    (inherited : Option ResolvedStyle) (children : Emit (List String)) : Emit String := do
  let tag ← tagOf s index type
  let attrs ← attributes s.platform head.props (inherited.toList ++ (s.styleOf head).toList)
  let items ← children
  pure (elementText tag attrs items)

/-- Whether the content is a single element or component. -/
def isSingleElement : List Content → Bool
  | [.node head _ _] =>
    match head.kind with
    | .element _ => true
    | .component _ => true
    | _ => false
  | _ => false

/-- Content as one expression: the element itself, a fragment, or nothing. -/
def single (contents : List Content) (items : List String) : Option String :=
  match items with
  | [] => none
  | [i] => if isSingleElement contents then some i else some (wrap "" "" [i])
  | items => some (wrap "" "" items)

/-- Content as one expression, `null` if there is none. -/
def singleOrNull (contents : List Content) (items : List String) : String :=
  (single contents items).getD "null"

/-- A loop over data. -/
def loopText (data : String) (var : Pattern) (index : Option String) (inner : String) : String :=
  let params :=
    match index with
    | some i => var.render ++ ", " ++ i
    | none => var.render
  "\x7b" ++ Text.shield (operand data) ++ ".map((" ++ Text.shield params ++ ") => (\n" ++
    Text.indent inner ++ "\n))\x7d"

/-- A choice without an alternative. -/
def whenText (condition inner : String) : String :=
  "\x7b" ++ Text.shield (operand condition) ++ " && (\n" ++ Text.indent inner ++ "\n)\x7d"

/-- A choice with an alternative. -/
def chooseText (condition inner other : String) : String :=
  "\x7b" ++ Text.shield (operand condition) ++ " ? (\n" ++ Text.indent inner ++ "\n) : (\n" ++
    Text.indent other ++ "\n)\x7d"

mutual

/-- One piece of content. -/
def content (s : Scope) (index : Nat) : Content → Emit String
  | .text t => pure (Text.shield (textItem t))
  | .literal v => pure (Text.shield (braces v.render))
  | .script code => pure (braces (Text.shield code))
  | .node head children fallback =>
    match head.kind with
    | .component _ => pure ("<" ++ s.functionName head ++ " />")
    | .element type => elementNode s index head type none (contents s index children)
    | .script code => pure (braces (Text.shield code))
    | .map data var i => do
      let items ← contents s index children
      pure (loopText data var i (singleOrNull children items))
    | .branch condition => do
      let items ← contents s index children
      if fallback.isEmpty then pure (whenText condition (singleOrNull children items))
      else
        let others ← contents s index fallback
        pure (chooseText condition (singleOrNull children items) (singleOrNull fallback others))

/-- Content piece by piece. -/
def contents (s : Scope) (index : Nat) : List Content → Emit (List String)
  | [] => pure []
  | c :: rest => do
    let first ← content s index c
    let others ← contents s index rest
    pure (first :: others)

end

/-- The markup of a definition. Its own style goes to its root, if that is a single
element, and otherwise to a container around everything. -/
def root (s : Scope) (index : Nat) (definition : Node) : Emit (Option String) :=
  match s.styleOf definition.head with
  | none => do
    let items ← contents s index definition.children
    pure (single definition.children items)
  | some style =>
    let contained : Emit (Option String) := do
      let items ← contents s index definition.children
      Noted.note { tags := [s.platform.container] }
      let attrs ← attributes s.platform [] [style]
      pure (some (elementText s.platform.container attrs items))
    match definition.children with
    | [.node head children _] =>
      match head.kind with
      | .element type => do
        let only ← elementNode s index head type (some style) (contents s index children)
        pure (some only)
      | _ => contained
    | _ => contained

end Markup

end ViewTree
