import ViewTree.Text.Basic

/-!
# Binding patterns

The patterns that parameters, loop variables and declarations bind names with:
a single name, properties of an object, or items of an array. Defaults are
scripts.
-/

namespace ViewTree

/-- A property of an object pattern, bound under its own key or under another name. -/
structure ObjectField where
  key : String
  renamed : Option String
  default : Option String
deriving DecidableEq, Repr

/-- The name a property is bound under. -/
def ObjectField.boundName (f : ObjectField) : String := f.renamed.getD f.key

/-- An item of an array pattern. -/
structure ArrayItem where
  name : String
  default : Option String
deriving DecidableEq, Repr

/-- A binding pattern. In an array, `none` is a hole. -/
inductive Pattern where
  | name (name : String)
  | object (fields : List ObjectField) (rest : Option String)
  | array (items : List (Option ArrayItem)) (rest : Option String)
deriving DecidableEq, Repr

/-- A default after what it is the default of. -/
def withDefault (text : String) : Option String → String
  | some d => text ++ " = " ++ d
  | none => text

/-- A property as it is written: the key alone where it is also the bound name. -/
def ObjectField.render (f : ObjectField) : String :=
  let bound :=
    match f.renamed with
    | some a => if a = f.key then f.key else f.key ++ ": " ++ a
    | none => f.key
  withDefault bound f.default

/-- An item as it is written; a hole is empty. -/
def ArrayItem.renderOption : Option ArrayItem → String
  | some i => withDefault i.name i.default
  | none => ""

namespace Pattern

/-- The names a pattern binds, in the order they are written. -/
def boundNames : Pattern → List String
  | name n => [n]
  | object fields rest => fields.map ObjectField.boundName ++ rest.toList
  | array items rest => (items.filterMap id).map ArrayItem.name ++ rest.toList

/-- What the rest of an object or array is written as. -/
def renderRest (rest : Option String) : List String :=
  rest.toList.map fun r => "..." ++ r

/-- The pattern as it is written. -/
def render : Pattern → String
  | name n => n
  | object fields rest =>
    "\x7b " ++ Text.join ", " (fields.map ObjectField.render ++ renderRest rest) ++ " \x7d"
  | array items rest =>
    "[" ++ Text.join ", " (items.map ArrayItem.renderOption ++ renderRest rest) ++ "]"

end Pattern

end ViewTree
