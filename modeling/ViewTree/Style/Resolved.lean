import ViewTree.Names.Naming
import ViewTree.Target

/-!
# Styles of nodes on a platform

The entries of a node are split into the rules of its class block and the
fragments assembled at run time. Neighbouring plain maps become one fragment.
-/

namespace ViewTree

/-- The style of a node on a platform. -/
structure ResolvedStyle where
  /-- The node's class, if it has rules. -/
  className : Option String := none
  /-- The block of the class. -/
  css : Option String := none
  runtime : List Fragment := []
deriving Repr, Inhabited

/-- Whether the style changes nothing. -/
def ResolvedStyle.isEmpty (s : ResolvedStyle) : Bool := s.className.isNone && s.runtime.isEmpty

namespace Style

/-- Appends a plain map: into the last fragment, if that is a plain map too. -/
def pushObject (style : StyleMap) : List Fragment → List Fragment
  | [] => [.object style]
  | [.object last] => [.object (last.putAll style)]
  | f :: rest => f :: pushObject style rest

/-- The rules and the fragments so far. -/
structure Parts where
  rules : List String := []
  runtime : List Fragment := []

/-- Adds what a projection says. -/
def Parts.add (parts : Parts) : Projection → Parts
  | .rule text => { parts with rules := parts.rules ++ [text] }
  | .runtime fragment => { parts with runtime := parts.runtime ++ [fragment] }
  | .dropped => parts

/-- Where an entry other than a plain map goes. -/
def project (platform : Platform) (formats : Keyed Predicate) : StyleEntry → Projection
  | .plain style => .runtime (.object style)
  | .conditional predicate style => .runtime (.conditional predicate style)
  | .dynamic code => .runtime (.dynamic code)
  | .format format style =>
    match formats.lookup format with
    | some predicate => platform.formatEntry format predicate style
    | none => .dropped
  | .selector selector style => platform.selectorEntry selector style
  | .text text => platform.textEntry text

/-- Adds one entry. -/
def addEntry (platform : Platform) (formats : Keyed Predicate) (parts : Parts)
    (entry : StyleEntry) : Parts :=
  match entry with
  | .plain style => { parts with runtime := pushObject style parts.runtime }
  | entry => parts.add (project platform formats entry)

/-- The rules and the fragments of a list of entries. -/
def split (platform : Platform) (formats : Keyed Predicate) (entries : List StyleEntry) : Parts :=
  entries.foldl (addEntry platform formats) {}

/-- The block of a class. -/
def classBlock (className : String) (rules : List String) : String :=
  "." ++ className ++ " \x7b\n" ++ Text.indent (Text.join "\n" rules) ++ "\n\x7d\n"

/-- The style of a node; its class is used only if there are rules. -/
def resolve (platform : Platform) (formats : Keyed Predicate) (naming : Naming) (head : Head) :
    ResolvedStyle :=
  let parts := split platform formats head.style
  let className := if parts.rules.isEmpty then none else naming.classOf head
  { className
    css := className.map fun c => classBlock c parts.rules
    runtime := parts.runtime }

end Style

end ViewTree
