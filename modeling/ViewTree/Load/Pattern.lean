import ViewTree.Load.Basic
import ViewTree.Pattern
import ViewTree.Script

/-!
# Loading patterns

A pattern is a name, an object of properties or an array of items; it binds at
least one name, and a rest comes last and only once.
-/

namespace ViewTree.Load

/-- What follows the dots of a rest. -/
def afterDots? (s : String) : Option String :=
  (Text.afterLead? ['.', '.', '.'] s.toList).map String.ofList

/-- Notes a rest that is not the only one or not the last entry; says whether it
is neither. -/
def restPlace (earlier : Option String) (isLast : Bool) (path : String) : Load Bool := do
  if earlier.isSome then
    problem .pattern path .restRepeated
    pure false
  else if isLast then pure true
  else
    problem .pattern path .restNotLast
    pure false

/-- An object pattern being read: what is bound so far, and whether every entry
was fit. -/
structure ObjectDraft where
  fields : List ObjectField := []
  rest : Option String := none
  ok : Bool := true

/-- The other name and the default of a property, or `none` if it takes neither. -/
def propertyShape (value : Json) (path : String) :
    Load (Option (Option String × Option String)) :=
  match value with
  | .null => pure (some (none, none))
  | .bool true => pure (some (none, none))
  | .string s => do
    let renamed ← identifierText s path .pattern
    pure (some (renamed, none))
  | .object fields => do
    let renamed ←
      match fields.lookup "as" with
      | some v => identifier v (field path "as") .pattern
      | none => pure none
    pure (some (renamed, (fields.lookup "default").map Json.asCode))
  | _ => fail .pattern path .fieldShape

/-- A property of an object pattern. One that is bound under its key must have an
identifier for its key. -/
def property (key : String) (value : Json) (path : String) : Load (Option ObjectField) := do
  match ← propertyShape value path with
  | none => pure none
  | some (renamed, default) =>
    if renamed.isNone && !Text.isIdentifier key then fail .pattern path (.aliasMissing key)
    else pure (some { key, renamed, default })

/-- Reads the entries of an object pattern. -/
def objectEntries (path : String) : Keyed Json → ObjectDraft → Load ObjectDraft
  | [], draft => pure draft
  | (key, value) :: more, draft => do
    let place := field path key
    match afterDots? key with
    | some restName =>
      let name ←
        if restName.isEmpty then identifier value place .pattern
        else identifierText restName place .pattern
      let placed ← restPlace draft.rest more.isEmpty place
      objectEntries path more
        { draft with rest := name.or draft.rest, ok := draft.ok && placed && name.isSome }
    | none =>
      match ← property key value place with
      | some f => objectEntries path more { draft with fields := draft.fields ++ [f] }
      | none => objectEntries path more { draft with ok := false }

/-- An array pattern being read. -/
structure ArrayDraft where
  items : List (Option ArrayItem) := []
  rest : Option String := none
  ok : Bool := true

/-- An item with a name of its own and perhaps a default. -/
def arrayObject (fields : Keyed Json) (path : String) : Load (Option ArrayItem) := do
  let name ←
    match fields.lookup "name" with
    | some v => identifier v (field path "name") .pattern
    | none => fail .pattern path .itemUnnamed
  pure (name.map fun name => { name, default := (fields.lookup "default").map Json.asCode })

/-- Reads the items of an array pattern, the next of which is number `i`. -/
def arrayItems (path : String) : List Json → Nat → ArrayDraft → Load ArrayDraft
  | [], _, draft => pure draft
  | v :: more, i, draft => do
    let place := item path i
    match v with
    | .null => arrayItems path more (i + 1) { draft with items := draft.items ++ [none] }
    | .string s =>
      match afterDots? s with
      | some restName =>
        let name ← identifierText restName place .pattern
        let placed ← restPlace draft.rest more.isEmpty place
        arrayItems path more (i + 1)
          { draft with rest := name.or draft.rest, ok := draft.ok && placed && name.isSome }
      | none =>
        match ← identifierText s place .pattern with
        | some name =>
          arrayItems path more (i + 1)
            { draft with items := draft.items ++ [some { name, default := none }] }
        | none => arrayItems path more (i + 1) { draft with ok := false }
    | .object fields =>
      match ← arrayObject fields place with
      | some entry =>
        arrayItems path more (i + 1) { draft with items := draft.items ++ [some entry] }
      | none => arrayItems path more (i + 1) { draft with ok := false }
    | _ =>
      problem .pattern place .itemShape
      arrayItems path more (i + 1) { draft with ok := false }

/-- The pattern a value spells out, before it is known to bind a name. -/
def patternShape (value : Json) (path : String) : Load (Option Pattern) :=
  match value with
  | .string s =>
    if (afterDots? s).isSome then fail .pattern path .restOutside
    else do
      let name ← identifierText s path .pattern
      pure (name.map .name)
  | .object fields => do
    let draft ← objectEntries path fields {}
    pure (if draft.ok then some (.object draft.fields draft.rest) else none)
  | .array items => do
    let draft ← arrayItems path items 0 {}
    pure (if draft.ok then some (.array draft.items draft.rest) else none)
  | _ => fail .pattern path .patternShape

/-- A pattern that binds at least one name. -/
def pattern (value : Json) (path : String) : Load (Option Pattern) := do
  match ← patternShape value path with
  | none => pure none
  | some p =>
    if p.boundNames.isEmpty then fail .pattern path .patternEmpty else pure (some p)

end ViewTree.Load
