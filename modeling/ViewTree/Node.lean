import ViewTree.Import.Spec
import ViewTree.Pattern
import ViewTree.Platform
import ViewTree.Script
import ViewTree.Style.Entry

/-!
# The tree of nodes

A node is a head with its own data and the content below it. Content is text, a
literal, a script or a further node; only an `If` node has content in its
`fallback`. `Node.nodes` lists a node and all nodes below it in document order.
-/

namespace ViewTree

/-- A statement of a component, in one of its short forms. -/
inductive Expression where
  | script (code : String)
  | state (getter setter : String) (initial : Option Value)
  | var (pattern : Pattern) (value : String)
  | ref (name : String) (initial : Option Value)
  /-- Without dependencies the effect runs after every rendering. -/
  | effect (body : String) (dependencies : Option (List String))
deriving Repr

/-- One entry of the props of an element. -/
inductive PropEntry where
  | attributes (values : Keyed Value)
  | spread (code : String)
deriving Repr

/-- A context a component provides, with the code of its value. -/
structure Provision where
  name : String
  value : String
deriving DecidableEq, Repr

/-- What a node is. -/
inductive NodeKind where
  /-- The definition of a component, with the pattern of its props. -/
  | component (params : Option Pattern)
  | element (tag : String)
  | map (data : String) (var : Pattern) (index : Option String)
  | branch (condition : String)
  | script (code : String)
deriving Repr

/-- The data of one node, without what is below it. -/
structure Head where
  kind : NodeKind
  /-- Where the node stands in the document. -/
  path : String
  /-- The places of the node and its ancestors among their siblings. -/
  position : List Nat
  name : Option String := none
  props : List PropEntry := []
  expressions : List Expression := []
  imports : List Import := []
  style : List StyleEntry := []
  provides : List Provision := []
  uses : List String := []
  styleSheet : Option String := none
  styleModule : Option String := none
deriving Repr

/-- What stands below a node. -/
inductive Content where
  | text (text : String)
  /-- A number, a truth value or `null`. -/
  | literal (value : Json)
  | script (code : String)
  | node (head : Head) (children fallback : List Content)
deriving Repr

/-- A node with everything below it. -/
structure Node where
  head : Head
  children : List Content
  /-- What an `If` node shows when its condition fails. -/
  fallback : List Content
deriving Repr

/-- The node, if the content is one. -/
def Content.node? : Content → Option Node
  | .node head children fallback => some ⟨head, children, fallback⟩
  | _ => none

/-- The node as content. -/
def Node.toContent (n : Node) : Content := .node n.head n.children n.fallback

/-- Whether the head is that of a component's definition. -/
def Head.isDefinition (h : Head) : Bool :=
  match h.kind with
  | .component _ => true
  | _ => false

/-- The type of a node as documents write it. -/
def Head.typeName (h : Head) : String :=
  match h.kind with
  | .component _ => "Component"
  | .element tag => tag
  | .map _ _ _ => "Map"
  | .branch _ => "If"
  | .script _ => "Script"

/-- Whether some style of the node can land in a stylesheet. -/
def Head.hasStaticStyle (h : Head) : Bool := h.style.any StyleEntry.isStatic

mutual

/-- The nodes of a piece of content in document order. -/
def Content.nodes : Content → List Node
  | .node head children fallback =>
    ⟨head, children, fallback⟩ :: (contentNodes children ++ contentNodes fallback)
  | .text _ => []
  | .literal _ => []
  | .script _ => []

/-- The nodes of a list of content in document order. -/
def contentNodes : List Content → List Node
  | [] => []
  | c :: rest => c.nodes ++ contentNodes rest

end

namespace Node

/-- Whether the node defines a component. -/
def isDefinition (n : Node) : Bool := n.head.isDefinition

/-- The nodes right below a node: its children, then its fallback. -/
def childNodes (n : Node) : List Node := (n.children ++ n.fallback).filterMap Content.node?

/-- The node and every node below it, in document order. -/
def nodes (n : Node) : List Node := n.toContent.nodes

/-- The definitions among the nodes, in document order. -/
def definitions (n : Node) : List Node := n.nodes.filter isDefinition

end Node

/-- A whole app. -/
structure App where
  name : Option String := none
  platform : Option Platform := none
  dependencies : Keyed String := []
  imports : List Import := []
  styleSheet : String := ""
  styleModule : String := ""
  styleFormats : Keyed Predicate := []
  rootComponent : Option String := none
  components : List Node := []
deriving Repr

namespace App

/-- Every node of the app in document order. -/
def nodes (app : App) : List Node := app.components.flatMap Node.nodes

/-- Every definition of the app in document order. -/
def definitions (app : App) : List Node := app.components.flatMap Node.definitions

/-- The place of the root component: the one the document names, else the first. -/
def rootIndex (app : App) : Nat :=
  match app.rootComponent with
  | some root => (app.components.findIdx? fun c => c.head.name == some root).getD 0
  | none => 0

end App

end ViewTree
