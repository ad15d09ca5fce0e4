import ViewTree.Load.Expression
import ViewTree.Load.Import
import ViewTree.Load.Style

/-!
# Loading nodes

A node's own fields are loaded by `node` and `definition`; what stands below a
node is loaded through `ContentLoaders`, which the recursion over the document
(`contentLoaders`) supplies. Positions count the children of a node first and its
fallback after them.
-/

namespace ViewTree.Load

/-- Loads the content of a field, given the field's path, the position of the node
it belongs to, and the number of its first item. -/
abbrev ContentLoader := String → List Nat → Nat → Load (List Content)

/-- The content of each field of an object, to be loaded where it is asked for. -/
abbrev ContentLoaders := Keyed ContentLoader

/-- The content of a field, if it is there. -/
def contentOf (loaders : ContentLoaders) (key path : String) (position : List Nat)
    (offset : Nat) : Load (List Content) :=
  match loaders.lookup key with
  | some load => load (field path key) position offset
  | none => pure []

/-! ## Props and contexts -/

/-- The attributes of an object. -/
def attributes (fields : Keyed Json) : PropEntry :=
  .attributes (fields.map fun (k, v) => (k, Value.ofJson v))

/-- A script whose value is spread into the props; dots in front are dropped. -/
def spread (raw path : String) : Load (Option PropEntry) :=
  match Script.reference? raw with
  | some code =>
    if code.isEmpty then fail .child path (.spreadShape raw)
    else
      let bare := (Text.afterLead? ['.', '.', '.'] code.toList).getD code.toList
      pure (some (.spread (String.ofList (Text.dropAroundWhile Text.isSpace bare))))
  | none => fail .child path (.spreadShape raw)

/-- The props of an element: attributes, a spread, or an array of both. -/
def props (value : Json) (path : String) : Load (List PropEntry) :=
  match value with
  | .null => pure []
  | .object fields => pure [attributes fields]
  | .string s => do
    let entry ← spread s path
    pure entry.toList
  | .array items => do
    let loaded ← Noted.eachIndexed (fun i v =>
      match v with
      | .object fields => pure (some (attributes fields))
      | .string s => spread s (item path i)
      | _ => fail .child (item path i) .propEntry) items
    pure (loaded.filterMap id)
  | _ => do
    problem .child path .propsShape
    pure []

/-- The pattern of a definition's props. -/
def params (fields : Keyed Json) (path : String) : Load (Option Pattern) :=
  match fields.lookup "props" with
  | none => pure none
  | some .null => pure none
  | some v => pattern v (field path "props")

/-- A list of contexts: a name, or an array of names. -/
def contextNames (value : Json) (path : String) : Load (List String) :=
  match value with
  | .string s => do
    let name ← identifierText s path .contextPlace
    pure name.toList
  | .array items => do
    let names ← Noted.eachIndexed (fun i v => identifier v (item path i) .contextPlace) items
    pure (names.filterMap id)
  | _ => do
    problem .contextPlace path .contextList
    pure []

/-- The contexts a definition provides. Without a value of its own a context takes
the value of the variable of its name. -/
def provisions (value : Json) (path : String) : Load (List Provision) :=
  match value with
  | .object fields =>
    Noted.eachSome (fun (key, v) => do
      let name ← identifierText key (field path key) .contextPlace
      pure (name.map fun name =>
        match v with
        | .null => { name, value := name }
        | .bool true => { name, value := name }
        | v => { name, value := v.asCode : Provision })) fields
  | v => do
    let names ← contextNames v path
    pure (names.map fun name => { name, value := name })

/-! ## Fields of every node -/

/-- A field that only definitions may have. -/
def onDefinition {α : Type} (isDefinition : Bool) (fields : Keyed Json) (key path : String)
    (load : Json → String → Load (List α)) (misplaced : Load Unit) : Load (List α) :=
  match fields.lookup key with
  | none => pure []
  | some v =>
    if isDefinition then load v (field path key)
    else do
      misplaced
      pure []

/-- The sheet text of a definition. -/
def sheetOverride (isDefinition : Bool) (fields : Keyed Json) (key path : String) :
    Load (Option String) := do
  match ← optionalString fields key path with
  | none => pure none
  | some text =>
    if isDefinition then pure (some text)
    else fail .style (field path key) (.sheetMisplaced key)

/-- Loads a field with `load`, if it is there. -/
def ifPresent {α : Type} (fields : Keyed Json) (key path : String)
    (load : Json → String → Load (List α)) : Load (List α) :=
  match fields.lookup key with
  | some v => load v (field path key)
  | none => pure []

/-- The props of a node that is no definition. -/
def ownProps (isDefinition : Bool) (fields : Keyed Json) (path : String) : Load (List PropEntry) :=
  if isDefinition then pure [] else ifPresent fields "props" path props

/-- The fields shared by nodes of every kind. -/
def body (fields : Keyed Json) (loaders : ContentLoaders) (kind : NodeKind)
    (fallback : List Content) (path : String) (position : List Nat) : Load Node := do
  let bare : Head := { kind, path, position }
  let isDefinition := bare.isDefinition
  let props ← ownProps isDefinition fields path
  let children ← contentOf loaders "children" path position 0
  let expressions ← onDefinition isDefinition fields "expressions" path expressions
    (problem .expression (field path "expressions") (.expressionsMisplaced bare.typeName))
  let imports ← ifPresent fields "imports" path imports
  let style ← ifPresent fields "style" path styles
  let provides ← onDefinition isDefinition fields "provideContexts" path provisions
    (problem .contextPlace (field path "provideContexts") (.contextsMisplaced "provideContexts"))
  let uses ← onDefinition isDefinition fields "useContexts" path contextNames
    (problem .contextPlace (field path "useContexts") (.contextsMisplaced "useContexts"))
  let styleSheet ← sheetOverride isDefinition fields "styleSheet" path
  let styleModule ← sheetOverride isDefinition fields "styleModule" path
  let name := (nonBlank? (fields.lookup "name")).map Text.trim
  pure
    { head :=
        { kind, path, position, name, props, expressions, imports, style, provides, uses,
          styleSheet, styleModule }
      children
      fallback }

/-! ## Nodes -/

/-- The number of children a `children` field stands for. -/
def childCount : Option Json → Nat
  | none => 0
  | some .null => 0
  | some (.array items) => items.length
  | some _ => 1

/-- The variable of a `Map` node that names none. -/
def defaultVar : Pattern := .name "item"

/-- The name of a definition inside a component, which may be missing but not blank. -/
def inlineName (fields : Keyed Json) (path : String) : Load Unit :=
  match fields.lookup "name" with
  | none => pure ()
  | some v =>
    if (nonBlank? (some v)).isNone then problem .componentName path .inlineUnnamed else pure ()

/-- The variable of a `Map` node. -/
def loopVar (fields : Keyed Json) (path : String) : Load (Option Pattern) :=
  match fields.lookup "var" with
  | some v => pattern v (field path "var")
  | none => pure (some defaultVar)

/-- The name a `Map` node counts its items with. -/
def loopIndex (fields : Keyed Json) (path : String) : Load (Option String) :=
  match fields.lookup "index" with
  | some v => identifier v (field path "index") .pattern
  | none => pure none

/-- The kind of a node that is not a plain element, and its fallback. -/
def kindOf (type : String) (fields : Keyed Json) (loaders : ContentLoaders) (path : String)
    (position : List Nat) : Load (NodeKind × List Content) :=
  match type with
  | "Component" => do
    inlineName fields path
    let params ← params fields path
    pure (.component params, [])
  | "Map" => do
    let data ← requiredScript fields "data" path .child "Map node"
    let var ← loopVar fields path
    let index ← loopIndex fields path
    pure (.map (data.getD "") (var.getD defaultVar) index, [])
  | "If" => do
    let condition ← requiredScript fields "condition" path .child "If node"
    let fallback ←
      contentOf loaders "else" path position (childCount (fields.lookup "children"))
    pure (.branch (condition.getD ""), fallback)
  | "Script" => do
    let code ← requiredScript fields "code" path .child "Script node"
    pure (.script (code.getD ""), [])
  | tag => pure (.element tag, [])

/-- The type of a node. -/
def nodeType (fields : Keyed Json) (path : String) : Load (Option String) :=
  match fields.lookup "type" with
  | none => fail .nodeType path .typeMissing
  | some v =>
    match nonBlank? (some v) with
    | some type => pure (some type)
    | none => fail .nodeType (field path "type") .typeBlank

/-- A node below a definition. -/
def node (fields : Keyed Json) (loaders : ContentLoaders) (path : String)
    (position : List Nat) : Load (Option Node) := do
  match ← nodeType fields path with
  | none => pure none
  | some type =>
    let (kind, fallback) ← kindOf type fields loaders path position
    let loaded ← body fields loaders kind fallback path position
    pure (some loaded)

/-! ## Content -/

/-- Text, or the script of a reference. -/
def textContent (text path : String) : Load (Option Content) :=
  if Script.looksLikeReference text then
    match Script.reference? text with
    | some code =>
      if code.isEmpty then fail .child path (.malformedReference text)
      else pure (some (.script code))
    | none => fail .child path (.malformedReference text)
  else pure (some (.text text))

mutual

/-- One piece of content. -/
def content : Json → String → List Nat → Load (Option Content)
  | .null, _, _ => pure (some (.literal .null))
  | .bool b, _, _ => pure (some (.literal (.bool b)))
  | .number n, _, _ => pure (some (.literal (.number n)))
  | .string text, path, _ => textContent text path
  | .array _, path, _ => fail .child path .nestedChildren
  | .object fields, path, position => do
    let loaded ← node fields (contentLoaders fields) path position
    pure (loaded.map Node.toContent)

/-- The pieces of content of an array, the next of which is number `i`. -/
def contentItems : List Json → Nat → String → List Nat → Nat → Load (List Content)
  | [], _, _, _, _ => pure []
  | v :: more, i, path, parent, offset => do
    let first ← content v (item path i) (parent ++ [offset + i])
    let rest ← contentItems more (i + 1) path parent offset
    pure (first.toList ++ rest)

/-- The content of the fields of an object: an array of pieces, or one piece. -/
def contentLoaders : List (String × Json) → ContentLoaders
  | [] => []
  | (key, .array items) :: more =>
    (key, fun path parent offset => contentItems items 0 path parent offset) ::
      contentLoaders more
  | (key, v) :: more =>
    (key, fun path parent offset => do
      let only ← content v (item path 0) (parent ++ [offset])
      pure only.toList) :: contentLoaders more

end

/-- The type of a top-level definition, which may be missing. -/
def definitionType (fields : Keyed Json) (path : String) : Load Unit :=
  match fields.lookup "type" with
  | none => pure ()
  | some (.string "Component") => pure ()
  | some other => problem .nodeType (field path "type") (.definitionType other)

/-- The name of a top-level definition, which it must have. -/
def definitionName (fields : Keyed Json) (path : String) : Load Unit :=
  if (nonBlank? (fields.lookup "name")).isNone then problem .componentName path .definitionUnnamed
  else pure ()

/-- A top-level definition. -/
def definition (value : Json) (path : String) (position : List Nat) : Load (Option Node) :=
  match value with
  | .object fields => do
    definitionType fields path
    definitionName fields path
    let params ← params fields path
    let loaded ← body fields (contentLoaders fields) (.component params) [] path position
    pure (some loaded)
  | _ => fail .nodeType path .definitionNotObject

end ViewTree.Load
