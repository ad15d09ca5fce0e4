import ViewTree.Noted
import ViewTree.Style.Fragment

/-!
# What markup needs

While the functions of a file are written, everything they need from elsewhere is
noted: hooks, contexts, style helpers, elements and components of other files.
-/

namespace ViewTree

/-- A component of another file. -/
structure Reference where
  /-- The name of the file that declares the function. -/
  file : String
  identifier : String
  /-- Whether the function is the default export of its file. -/
  isDefault : Bool
deriving DecidableEq, Repr

/-- What a part of a file needs, in order of first need. -/
structure Needs where
  hooks : List String := []
  contexts : List String := []
  usage : StyleUsage := {}
  tags : List String := []
  references : List Reference := []
deriving DecidableEq, Repr, Inhabited

instance : EmptyCollection Needs := ⟨{}⟩

instance : Append Needs :=
  ⟨fun a b =>
    { hooks := a.hooks ++ b.hooks
      contexts := a.contexts ++ b.contexts
      usage := a.usage ++ b.usage
      tags := a.tags ++ b.tags
      references := a.references ++ b.references }⟩

/-- Something written, and what it needs. -/
abbrev Emit := Noted Needs

end ViewTree
