import ViewTree.Json.Value
import ViewTree.Platform

/-!
# Problems of a document

A problem is a broken rule with a cause and a place. Each rule belongs to one
kind of problem and comes with a guarantee: what holds of every app that keeps
it. The wording of causes is `Cause.message`.
-/

namespace ViewTree

/-- The kinds of problems. -/
inductive ProblemKind where
  | structural
  | conflict
  | duplicateContext
  | unknownContext
deriving DecidableEq, Repr

/-- The name of a kind. -/
def ProblemKind.name : ProblemKind → String
  | structural => "StructuralError"
  | conflict => "ConflictError"
  | duplicateContext => "DuplicateContextError"
  | unknownContext => "UnknownContextError"

/-- All kinds, in the order of reports. -/
def ProblemKind.all : List ProblemKind := [structural, conflict, duplicateContext, unknownContext]

/-- The rules an app keeps. -/
inductive Rule where
  | document
  | componentName
  | nodeType
  | child
  | pattern
  | knownFormat
  | expression
  | style
  | importEntry
  | knownRoot
  | formatPredicate
  | contextPlace
  | distinctComponents
  | distinctImports
  | singleProvider
  | knownContext
deriving DecidableEq, Repr

namespace Rule

/-- The code of a rule. -/
def code : Rule → String
  | document => "UT-ERR-STRUCT-001"
  | componentName => "UT-ERR-STRUCT-002"
  | nodeType => "UT-ERR-STRUCT-003"
  | child => "UT-ERR-STRUCT-004"
  | pattern => "UT-ERR-STRUCT-005"
  | knownFormat => "UT-ERR-STRUCT-006"
  | expression => "UT-ERR-STRUCT-007"
  | style => "UT-ERR-STRUCT-008"
  | importEntry => "UT-ERR-STRUCT-009"
  | knownRoot => "UT-ERR-STRUCT-010"
  | formatPredicate => "UT-ERR-STRUCT-011"
  | contextPlace => "UT-ERR-STRUCT-012"
  | distinctComponents => "UT-ERR-CONFLICT-001"
  | distinctImports => "UT-ERR-CONFLICT-002"
  | singleProvider => "UT-ERR-CONTEXT-001"
  | knownContext => "UT-ERR-CONTEXT-002"

/-- The kind of problem that breaks a rule. -/
def kind : Rule → ProblemKind
  | distinctComponents => .conflict
  | distinctImports => .conflict
  | singleProvider => .duplicateContext
  | knownContext => .unknownContext
  | _ => .structural

/-- What holds of an app that keeps the rule. -/
def guarantee : Rule → String
  | document => "The input document matches the app tree schema."
  | componentName => "Every component definition carries a non-empty name."
  | nodeType => "Every node type is a non-empty string."
  | child => "Children are nodes, primitives or well-formed script references."
  | pattern =>
    "Destructuring patterns bind at least one name and carry at most one trailing rest."
  | knownFormat => "Every format style entry references a declared style format."
  | expression => "Expression entries use a recognized shorthand form."
  | style => "Style entries use a recognized style form."
  | importEntry => "Import entries name a source and a recognized import shape."
  | knownRoot => "The root component names a declared component."
  | formatPredicate => "Style formats only use recognized predicate keys."
  | contextPlace => "Contexts are provided and consumed by component definitions."
  | distinctComponents => "Component names are unique across the app."
  | distinctImports =>
    "A local import name refers to exactly one symbol within a generated file."
  | singleProvider => "A context name is provided by at most one component."
  | knownContext => "Every consumed context is provided somewhere in the app."

end Rule

/-- What is wrong. -/
inductive Cause where
  -- the document and its fields
  | notJson (fault : String)
  | rootNotObject
  | notAnApp (found : Json)
  | fieldNotString (field : String)
  | unknownPlatform (name : String)
  | versionNotString
  | fieldNotObject (field : String)
  | fieldNotArray (field : String)
  -- style formats and the root component
  | predicateNotObject
  | predicateValue (key : String) (found : Json)
  | predicateKey (key : String)
  | predicateEmpty
  | unknownFormat (name : String)
  | unknownRoot (name : String)
  -- nodes
  | definitionNotObject
  | definitionType (found : Json)
  | definitionUnnamed
  | inlineUnnamed
  | typeBlank
  | typeMissing
  | scriptMissing (what field : String)
  | expressionsMisplaced (type : String)
  | contextsMisplaced (field : String)
  | sheetMisplaced (field : String)
  | malformedReference (text : String)
  | nestedChildren
  | propEntry
  | propsShape
  | spreadShape (text : String)
  -- patterns
  | notIdentifier (text : String)
  | identifierExpected
  | restOutside
  | patternShape
  | patternEmpty
  | restRepeated
  | restNotLast
  | fieldShape
  | aliasMissing (key : String)
  | itemUnnamed
  | itemShape
  -- expressions
  | expressionShape
  | stateVar
  | varPatternMissing
  | varValueMissing
  | refNameMissing
  | dependencyNotString
  | dependenciesNotArray
  | unknownExpression (type : String)
  -- styles
  | malformedDynamicStyle (text : String)
  | formatName
  | selectorBlank
  | styleShape
  | styleMissing
  | scriptInStaticStyle (text : String)
  -- imports
  | importShape
  | sourceMissing
  | namespaceAlias
  | notImportable (name : String)
  | symbolShape
  | aliasRequired (symbol : String)
  | importForm
  -- contexts
  | contextList
  -- problems of the whole app
  | repeatedComponent (name : String)
  | importReserved (name source path : String)
  | importRebound (name symbol source boundSymbol boundSource path : String)
  | repeatedProvider (context first second : String)
  | unprovided (component context : String)
deriving Repr

namespace Cause

/-- The keys of a style format. -/
def predicateKeys : List String :=
  ["minWidth", "maxWidth", "minHeight", "maxHeight", "orientation"]

/-- The wording of a cause. -/
def message : Cause → String
  | notJson fault => "document is not valid JSON: " ++ fault
  | rootNotObject => "document root must be an object"
  | notAnApp found => "document type must be 'app', found " ++ found.render
  | fieldNotString field => "`" ++ field ++ "` must be a string"
  | unknownPlatform name => Platform.unknownMessage name
  | versionNotString => "dependency versions must be strings"
  | fieldNotObject field => "`" ++ field ++ "` must be an object"
  | fieldNotArray field => "`" ++ field ++ "` must be an array"
  | predicateNotObject => "format predicate must be an object"
  | predicateValue key found =>
    "invalid value " ++ found.render ++ " for predicate key '" ++ key ++ "'"
  | predicateKey key =>
    "unknown predicate key '" ++ key ++ "', expected one of " ++ Text.join ", " predicateKeys
  | predicateEmpty => "format predicate must set at least one condition"
  | unknownFormat name => "style format '" ++ name ++ "' is not declared in styleFormats"
  | unknownRoot name => "root component '" ++ name ++ "' is not declared"
  | definitionNotObject => "component definitions must be objects"
  | definitionType found =>
    "top-level entries must have type 'Component', found " ++ found.render
  | definitionUnnamed => "component definition requires a non-empty `name`"
  | inlineUnnamed => "inline component `name`, when given, must be a non-empty string"
  | typeBlank => "node `type` must be a non-empty string"
  | typeMissing => "node requires a `type`"
  | scriptMissing what field => what ++ " requires a non-empty `" ++ field ++ "` script"
  | expressionsMisplaced type =>
    "expressions are only allowed on component definitions, not on '" ++ type ++ "'"
  | contextsMisplaced field => "`" ++ field ++ "` is only allowed on component definitions"
  | sheetMisplaced field =>
    "`" ++ field ++ "` overrides are only allowed on component definitions"
  | malformedReference text => "malformed script reference '" ++ text ++ "'"
  | nestedChildren => "nested child arrays are not allowed"
  | propEntry => "prop entries must be objects or `\x7b…\x7d` spread scripts"
  | propsShape => "props must be an object or an array of entries"
  | spreadShape text =>
    "spread prop entries must be `\x7b…\x7d` scripts, found '" ++ text ++ "'"
  | notIdentifier text => "'" ++ text ++ "' is not a valid identifier"
  | identifierExpected => "expected an identifier string"
  | restOutside => "a rest capture must appear inside an object or array pattern"
  | patternShape => "pattern must be a name, an object pattern or an array pattern"
  | patternEmpty => "pattern binds no names"
  | restRepeated => "rest capture may appear at most once"
  | restNotLast => "rest capture must be the last entry"
  | fieldShape => "object pattern fields take null, an alias string or \x7bas, default\x7d"
  | aliasMissing key => "property '" ++ key ++ "' needs an alias to be bound"
  | itemUnnamed => "array pattern item requires a `name`"
  | itemShape =>
    "array pattern items are names, null holes, \x7bname, default\x7d or '...rest'"
  | expressionShape => "expressions are script strings or typed objects"
  | stateVar => "state `var` must be a name or a [value, setter] pair"
  | varPatternMissing => "var expression requires a `var` pattern"
  | varValueMissing => "var expression requires a `value`"
  | refNameMissing => "ref expression requires a `var` name"
  | dependencyNotString => "effect dependencies must be script strings"
  | dependenciesNotArray => "effect dependencies must be an array"
  | unknownExpression type =>
    "unknown expression type '" ++ type ++ "', expected script, state, var, ref or effect"
  | malformedDynamicStyle text => "malformed dynamic style script '" ++ text ++ "'"
  | formatName => "`format` must name a style format"
  | selectorBlank => "`selector` must be a non-empty string"
  | styleShape => "style entries must be objects or strings"
  | styleMissing => "style entry requires a `style` object"
  | scriptInStaticStyle text =>
    "static style values cannot be scripts, found '" ++ text ++ "'"
  | importShape => "import entries are source strings or \x7bimport, from\x7d objects"
  | sourceMissing => "import requires a non-empty `from` source"
  | namespaceAlias => "namespace import requires an alias"
  | notImportable name => "'" ++ name ++ "' is not an importable name"
  | symbolShape => "imported symbols map to \x7b\x7d, an alias string or \x7bas\x7d"
  | aliasRequired symbol => "'" ++ symbol ++ "' imports require an alias"
  | importForm => "`import` must be a name, '* as Name' or a non-empty symbol map"
  | contextList => "context lists must be a name or an array of names"
  | repeatedComponent name => "component name '" ++ name ++ "' is already declared"
  | importReserved name source path =>
    "local name '" ++ name ++ "' imported from '" ++ source ++
      "' is already declared as a component function at " ++ path
  | importRebound name symbol source boundSymbol boundSource path =>
    "local name '" ++ name ++ "' imports '" ++ symbol ++ "' from '" ++ source ++
      "' but is already bound to '" ++ boundSymbol ++ "' from '" ++ boundSource ++ "' at " ++ path
  | repeatedProvider context first second =>
    "context '" ++ context ++ "' is provided by both '" ++ first ++ "' and '" ++ second ++ "'"
  | unprovided component context =>
    "component '" ++ component ++ "' consumes context '" ++ context ++
      "' which no component provides"

end Cause

/-- A problem: the rule it breaks, why, where, and the other places involved. -/
structure Problem where
  rule : Rule
  cause : Cause
  path : String
  related : List String := []
deriving Repr

namespace Problem

/-- The wording of the problem. -/
def message (p : Problem) : String := p.cause.message

/-- The kind of the problem. -/
def kind (p : Problem) : ProblemKind := p.rule.kind

/-- The problem in one line. -/
def describe (p : Problem) : String :=
  p.kind.name ++ " [" ++ p.rule.code ++ "] at " ++ p.path ++ ": " ++ p.message

/-- Whether two problems read the same. -/
def same (a b : Problem) : Bool :=
  a.rule == b.rule && a.path == b.path && a.message == b.message && a.related == b.related

end Problem

end ViewTree
