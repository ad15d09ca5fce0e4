import ViewTree.Script
import ViewTree.Style.Sheet

/-!
# Styles assembled at run time

What a platform does not put into a stylesheet becomes a list of fragments, which
the emitted code merges; a later fragment wins over an earlier one. Style maps and
predicates stand in the code as object literals.
-/

namespace ViewTree

namespace Style

/-- A key of an object literal, quoted unless it is an identifier. -/
def literalKey (key : String) : String :=
  if Text.isIdentifier key then key else Json.quote key

/-- The entries of a style map; script references are scripts. -/
def literalEntries (style : StyleMap) : List String :=
  style.map fun (k, v) => literalKey k ++ ": " ++ (Value.ofJson v).code

/-- A style map as an object literal. -/
def literal (style : StyleMap) : String :=
  if style.isEmpty then "\x7b\x7d"
  else "\x7b " ++ Text.join ", " (literalEntries style) ++ " \x7d"

/-- A predicate as an object literal. -/
def predicateLiteral (p : Predicate) : String :=
  let sizes := (bounds p "minWidth" "maxWidth" "minHeight" "maxHeight").map fun (name, n) =>
    name ++ ": " ++ n.toText
  let held := p.orientation.toList.map fun o => "orientation: \"" ++ o.name ++ "\""
  "\x7b " ++ Text.join ", " (sizes ++ held) ++ " \x7d"

end Style

/-- One part of a style that is assembled at run time. -/
inductive Fragment where
  | object (style : StyleMap)
  | conditional (predicate : String) (style : StyleMap)
  /-- A map that holds while the screen satisfies a format. -/
  | guarded (format : String) (predicate : Predicate) (style : StyleMap)
  | dynamic (code : String)
deriving Repr

/-- Whether the fragment asks for a format. -/
def Fragment.isGuarded : Fragment → Bool
  | guarded _ _ _ => true
  | _ => false

/-- Where an entry goes. -/
inductive Projection where
  /-- A rule inside the block of the node's class. -/
  | rule (text : String)
  | runtime (fragment : Fragment)
  | dropped
deriving Repr

/-- The helpers that a style needs at run time. -/
structure StyleUsage where
  mergeStyles : Bool := false
  matchFormat : Bool := false
deriving DecidableEq, Repr, Inhabited

instance : Append StyleUsage :=
  ⟨fun a b => ⟨a.mergeStyles || b.mergeStyles, a.matchFormat || b.matchFormat⟩⟩

end ViewTree
