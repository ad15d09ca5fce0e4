import ViewTree.Import.Spec
import ViewTree.Load.Basic

/-!
# Loading imports
-/

namespace ViewTree.Load

/-- The name in `* as name`, with any blanks around `as` but at least one on each
side. -/
def starName? (s : String) : Option String :=
  match s.toList with
  | '*' :: rest =>
    let afterStar := rest.dropWhile Text.isSpace
    match afterStar with
    | 'a' :: 's' :: more =>
      let name := more.dropWhile Text.isSpace
      if afterStar.length < rest.length && name.length < more.length &&
          Text.isIdentifierChars name then
        some (String.ofList name)
      else none
    | _ => none
  | _ => none

/-- Either nothing, or the name another name stands for; `none` if neither. -/
def symbolShape (shape : Json) (path : String) : Load (Option (Option String)) :=
  match shape with
  | .null => pure (some none)
  | .bool true => pure (some none)
  | .object fields =>
    match fields.lookup "as" with
    | some v => do
      let name ← identifier v (field path "as") .importEntry
      pure (some name)
    | none => pure (some none)
  | .string s => do
    let name ← identifierText s path .importEntry
    pure (some name)
  | _ => fail .importEntry path .symbolShape

/-- What one field of a symbol map stands for. -/
inductive SymbolEntry where
  /-- An import of its own: the default export or everything. -/
  | own (kind : ImportKind)
  /-- A symbol among others. -/
  | named (symbol : NamedImport)

/-- One field of a symbol map. -/
def symbolEntry (symbol : String) (shape : Json) (path : String) : Load (Option SymbolEntry) := do
  match ← symbolShape shape path with
  | none => pure none
  | some renamed =>
    if symbol = "default" ∨ symbol = "*" then
      match renamed with
      | none => fail .importEntry path (.aliasRequired symbol)
      | some name => pure (some (.own (if symbol = "*" then .everything name else .default name)))
    else if Text.isIdentifier symbol then pure (some (.named { symbol, renamed }))
    else fail .importEntry path (.notImportable symbol)

/-- The imports of a symbol map: those of their own first, then the symbols. -/
def symbolImports (symbols : Keyed Json) (source path : String) : Load (List Import) := do
  let entries ← Noted.eachSome (fun (symbol, shape) =>
    symbolEntry symbol shape (field (field path "import") symbol)) symbols
  let own := entries.filterMap fun e =>
    match e with
    | .own kind => some { source, kind, path : Import }
    | .named _ => none
  let named := entries.filterMap fun e =>
    match e with
    | .own _ => none
    | .named symbol => some symbol
  pure (own ++ if named.isEmpty then [] else [{ source, kind := .named named, path }])

/-- The imports of a name: `* as name`, `*` with the name elsewhere, or a default. -/
def nameImport (symbol : String) (fields : Keyed Json) (source path : String) :
    Load (List Import) :=
  match starName? symbol with
  | some name => pure [{ source, kind := .everything name, path }]
  | none =>
    if symbol = "*" then do
      let name ←
        match fields.lookup "as" with
        | some v => identifier v (field path "as") .importEntry
        | none => fail .importEntry path .namespaceAlias
      pure (name.toList.map fun n => { source, kind := .everything n, path })
    else if Text.isIdentifier symbol then pure [{ source, kind := .default symbol, path }]
    else do
      problem .importEntry (field path "import") (.notImportable symbol)
      pure []

/-- The imports from a source, as its `import` field says. -/
def importsFrom (fields : Keyed Json) (source path : String) : Load (List Import) :=
  match fields.lookup "import" with
  | none => pure [{ source, kind := .effects, path }]
  | some .null => pure [{ source, kind := .effects, path }]
  | some (.string symbol) => nameImport (Text.trim symbol) fields source path
  | some (.object (first :: more)) => symbolImports (first :: more) source path
  | some _ => do
    problem .importEntry (field path "import") .importForm
    pure []

/-- One entry of an import list: a source, or an object with a source. -/
def importEntry (value : Json) (path : String) : Load (List Import) :=
  match value with
  | .object fields =>
    match nonBlank? (fields.lookup "from") with
    | some source => importsFrom fields source path
    | none => do
      problem .importEntry path .sourceMissing
      pure []
  | v =>
    match nonBlank? (some v) with
    | some source => pure [{ source, kind := .effects, path }]
    | none => do
      problem .importEntry path .importShape
      pure []

/-- Imports: one entry, or an array of entries. -/
def imports (value : Json) (path : String) : Load (List Import) :=
  match value with
  | .null => pure []
  | .array items => do
    let loaded ← Noted.eachIndexed (fun i v => importEntry v (item path i)) items
    pure loaded.flatten
  | single => importEntry single path

end ViewTree.Load
