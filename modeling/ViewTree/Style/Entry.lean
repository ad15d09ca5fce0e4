import ViewTree.Json.Value

/-!
# Style entries

A node lists its styles as entries: plain maps, maps under a condition, maps under
a format or a selector, raw sheet text, or a script. Formats name a predicate on
the size and orientation of the screen.
-/

namespace ViewTree

/-- Style properties in the order they are written. -/
abbrev StyleMap := Keyed Json

/-- How a screen is held. -/
inductive Orientation where
  | portrait
  | landscape
deriving DecidableEq, Repr

/-- The name of an orientation. -/
def Orientation.name : Orientation → String
  | portrait => "portrait"
  | landscape => "landscape"

/-- The orientation of a name. -/
def Orientation.ofName? : String → Option Orientation
  | "portrait" => some portrait
  | "landscape" => some landscape
  | _ => none

/-- Conditions on the screen, all of which must hold. -/
structure Predicate where
  minWidth : Option Json.Number := none
  maxWidth : Option Json.Number := none
  minHeight : Option Json.Number := none
  maxHeight : Option Json.Number := none
  orientation : Option Orientation := none
deriving DecidableEq, Repr, Inhabited

/-- Whether a predicate sets no condition. -/
def Predicate.isEmpty (p : Predicate) : Bool :=
  p.minWidth.isNone && p.maxWidth.isNone && p.minHeight.isNone && p.maxHeight.isNone &&
    p.orientation.isNone

/-- One entry of a node's style. -/
inductive StyleEntry where
  | plain (style : StyleMap)
  | conditional (predicate : String) (style : StyleMap)
  | format (format : String) (style : StyleMap)
  | selector (selector : String) (style : StyleMap)
  | text (text : String)
  | dynamic (code : String)
deriving Repr

namespace StyleEntry

/-- Whether the entry can land in a stylesheet. -/
def isStatic : StyleEntry → Bool
  | format _ _ => true
  | selector _ _ => true
  | text _ => true
  | _ => false

/-- Equality of entries, whatever the order of properties. -/
def same : StyleEntry → StyleEntry → Bool
  | plain a, plain b => a.sameBy Json.same b
  | conditional p a, conditional q b => p == q && a.sameBy Json.same b
  | format p a, format q b => p == q && a.sameBy Json.same b
  | selector p a, selector q b => p == q && a.sameBy Json.same b
  | text a, text b => a == b
  | dynamic a, dynamic b => a == b
  | _, _ => false

end StyleEntry

end ViewTree
