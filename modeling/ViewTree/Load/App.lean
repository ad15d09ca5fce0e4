import ViewTree.Load.Node

/-!
# Loading apps

An app is its own fields and its components. Once everything is read, the formats
that style entries refer to must be declared, and so must the root component.
-/

namespace ViewTree.Load

/-- The type of a document, if it has one. -/
def documentType (fields : Keyed Json) : Load Unit :=
  match fields.lookup "type" with
  | none => pure ()
  | some .null => pure ()
  | some (.string "app") => pure ()
  | some other => problem .document "type" (.notAnApp other)

/-- The platform a document names. -/
def platform (fields : Keyed Json) : Load (Option Platform) := do
  match ← optionalString fields "platform" "$" with
  | none => pure none
  | some name =>
    match Platform.ofName? name with
    | some p => pure (some p)
    | none => fail .document "platform" (.unknownPlatform name)

/-- Loads the fields of an object, one by one, that must not be anything else. -/
def objectField {α : Type} (fields : Keyed Json) (key : String)
    (load : Json → String → Load (Option α)) : Load (Keyed α) :=
  match fields.lookup key with
  | none => pure []
  | some .null => pure []
  | some (.object entries) =>
    Noted.eachSome (fun (name, v) => do
      let loaded ← load v (field key name)
      pure (loaded.map fun a => (name, a))) entries
  | some _ => do
    problem .document key (.fieldNotObject key)
    pure []

/-- The version of a dependency. -/
def version (value : Json) (path : String) : Load (Option String) :=
  match value with
  | .string s => pure (some s)
  | _ => fail .document path .versionNotString

/-- The imports of a document. -/
def appImports (fields : Keyed Json) : Load (List Import) :=
  match fields.lookup "imports" with
  | some v => imports v "imports"
  | none => pure []

/-- The fields of a document other than its components. -/
def appFields (fields : Keyed Json) : Load App := do
  documentType fields
  let name ← optionalString fields "name" "$"
  let platform ← platform fields
  let dependencies ← objectField fields "dependencies" version
  let imports ← appImports fields
  let styleSheet ← optionalString fields "styleSheet" "$"
  let styleModule ← optionalString fields "styleModule" "$"
  let styleFormats ← objectField fields "styleFormats" formatPredicate
  let rootComponent ← optionalString fields "rootComponent" "$"
  pure
    { name, platform, dependencies, imports, styleFormats, rootComponent
      styleSheet := styleSheet.getD ""
      styleModule := styleModule.getD "" }

/-- The place of a component. -/
def componentPath (i : Nat) : String := item "components" i

/-- The components of an array, the next of which is number `i`. -/
def componentItems : List Json → Nat → Load (List Node)
  | [], _ => pure []
  | v :: more, i => do
    let first ← definition v (componentPath i) [i]
    let rest ← componentItems more (i + 1)
    pure (first.toList ++ rest)

/-- The components of a document. -/
def components (fields : Keyed Json) : Load (List Node) :=
  match fields.lookup "components" with
  | none => pure []
  | some .null => pure []
  | some (.array items) => componentItems items 0
  | some _ => do
    problem .document "components" (.fieldNotArray "components")
    pure []

/-- The problems of style entries under formats that are not declared. -/
def unknownFormats (declared : Keyed Predicate) (uses : List FormatUse) : List Problem :=
  (uses.filter fun u => !declared.has u.format).map fun u =>
    { rule := .knownFormat, cause := .unknownFormat u.format, path := u.path }

/-- The problem of a root component that is not declared. -/
def unknownRoot (root : Option String) (components : List Node) : List Problem :=
  match root with
  | none => []
  | some name =>
    if components.any fun c => c.head.name == some name then []
    else [{ rule := .knownRoot, cause := .unknownRoot name, path := "rootComponent" }]

/-- A document whose root is an object, and every problem of it. -/
def appOfFields (fields : Keyed Json) : App × List Problem :=
  let own := appFields fields
  let parts := components fields
  let app := { own.value with components := parts.value }
  let log := own.notes ++ parts.notes
  (app, log.problems ++ unknownFormats app.styleFormats log.formats ++
    unknownRoot app.rootComponent app.components)

/-- The app of a document, or every problem of it. -/
def app (document : Json) : Except (List Problem) App :=
  match document with
  | .object fields =>
    match appOfFields fields with
    | (app, []) => .ok app
    | (_, problems) => .error problems
  | _ => .error [{ rule := .document, cause := .rootNotObject, path := "$" }]

end ViewTree.Load
