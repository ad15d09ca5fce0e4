import ViewTree.Noted
import ViewTree.Problem
import ViewTree.Text.Identifier

/-!
# Loading with every problem noted

Loading does not stop at the first problem. Each step gives what it could make of
its part of the document and notes the problems found, and the style formats
referred to, in reading order.
-/

namespace ViewTree.Load

/-- A style format that a style entry refers to, and the place of the entry. -/
structure FormatUse where
  format : String
  path : String
deriving DecidableEq, Repr

/-- What loading notes. -/
structure Log where
  problems : List Problem := []
  formats : List FormatUse := []

instance : EmptyCollection Log := ⟨{}⟩

instance : Append Log := ⟨fun a b => ⟨a.problems ++ b.problems, a.formats ++ b.formats⟩⟩

@[simp]
theorem Log.problems_append (a b : Log) : (a ++ b).problems = a.problems ++ b.problems := rfl

@[simp]
theorem Log.formats_append (a b : Log) : (a ++ b).formats = a.formats ++ b.formats := rfl

@[simp]
theorem Log.problems_empty : (∅ : Log).problems = [] := rfl

@[simp]
theorem Log.formats_empty : (∅ : Log).formats = [] := rfl

end Load

/-- A step of loading. -/
abbrev Load := Noted Load.Log

namespace Load

/-- Notes a problem. -/
def problem (rule : Rule) (path : String) (cause : Cause) : Load Unit :=
  Noted.note { problems := [{ rule, cause, path }] }

/-- Notes a problem in place of a result. -/
def fail {α : Type} (rule : Rule) (path : String) (cause : Cause) : Load (Option α) := do
  problem rule path cause
  pure none

/-- The place of a field. -/
def field (path key : String) : String := path ++ "." ++ key

/-- The place of an item. -/
def item (path : String) (i : Nat) : String := path ++ "[" ++ Text.decimal i ++ "]"

/-- A field that is a string if it is there and not `null`. -/
def optionalString (fields : Keyed Json) (key path : String) : Load (Option String) :=
  match fields.lookup key with
  | none => pure none
  | some .null => pure none
  | some (.string s) => pure (some s)
  | some _ => fail .document (field path key) (.fieldNotString key)

/-- A field that must hold a script; `what` is what needs it. -/
def requiredScript (fields : Keyed Json) (key path : String) (rule : Rule) (what : String) :
    Load (Option String) :=
  match fields.lookup key with
  | some (.string s) =>
    if Text.isBlank s then fail rule path (.scriptMissing what key) else pure (some s)
  | _ => fail rule path (.scriptMissing what key)

/-- A text that must be an identifier. -/
def identifierText (s path : String) (rule : Rule) : Load (Option String) :=
  if Text.isIdentifier s then pure (some s) else fail rule path (.notIdentifier s)

/-- A value that must be an identifier. -/
def identifier (value : Json) (path : String) (rule : Rule) : Load (Option String) :=
  match value with
  | .string s => identifierText s path rule
  | _ => fail rule path .identifierExpected

/-- The string, if it is one and not blank. -/
def nonBlank? : Option Json → Option String
  | some (.string s) => if Text.isBlank s then none else some s
  | _ => none

end Load

end ViewTree
