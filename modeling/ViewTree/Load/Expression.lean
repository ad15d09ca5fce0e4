import ViewTree.Load.Pattern
import ViewTree.Node
import ViewTree.Text.Uppercase

/-!
# Loading expressions
-/

namespace ViewTree.Load

/-- The name of a setter: `count` is set by `setCount`. -/
def setterName (getter : String) : String := "set" ++ Text.capitalize getter

/-- The getter and the setter of a state. -/
def statePair (value : Option Json) (path : String) : Load (Option (String × String)) :=
  match value with
  | some (.array [first, second]) => do
    let getter ← identifier first (item path 0) .pattern
    let setter ← identifier second (item path 1) .pattern
    pure (getter.bind fun g => setter.map fun s => (g, s))
  | some (.string s) => do
    let getter ← identifierText s path .pattern
    pure (getter.map fun g => (g, setterName g))
  | _ => fail .pattern path .stateVar

/-- The dependencies of an effect. -/
def dependencies (value : Option Json) (path : String) : Load (Option (List String)) :=
  match value with
  | none => pure none
  | some .null => pure none
  | some (.array items) => do
    let deps ← Noted.eachIndexed (fun i v =>
      match v with
      | .string s => pure (some s)
      | _ => fail .expression (item path i) .dependencyNotString) items
    pure (some (deps.filterMap id))
  | some _ => fail .expression path .dependenciesNotArray

/-- An expression with a type. -/
def typedExpression (fields : Keyed Json) (path : String) : Load (Option Expression) :=
  match ((fields.lookup "type").bind Json.asString?).getD "" with
  | "script" => do
    let code ← requiredScript fields "code" path .expression "script expression"
    pure (code.map .script)
  | "state" => do
    let pair ← statePair (fields.lookup "var") (field path "var")
    let initial := (fields.lookup "initialState").map Value.ofJson
    pure (pair.map fun (getter, setter) => .state getter setter initial)
  | "var" => do
    let bound ←
      match fields.lookup "var" with
      | some v => pattern v (field path "var")
      | none => fail .pattern path .varPatternMissing
    let value ←
      match fields.lookup "value" with
      | some v => pure (some v.asCode)
      | none => fail .expression path .varValueMissing
    pure (bound.bind fun p => value.map fun v => .var p v)
  | "ref" => do
    let name ←
      match fields.lookup "var" with
      | some v => identifier v (field path "var") .pattern
      | none => fail .pattern path .refNameMissing
    pure (name.map fun n => .ref n ((fields.lookup "initialValue").map Value.ofJson))
  | "effect" => do
    match ← requiredScript fields "effect" path .expression "effect expression" with
    | none => pure none
    | some body =>
      let deps ← dependencies (fields.lookup "dependencies") (field path "dependencies")
      pure (some (.effect body deps))
  | other => fail .expression path (.unknownExpression other)

/-- An expression: a script as a string, or an object with a type. -/
def expression (value : Json) (path : String) : Load (Option Expression) :=
  match value with
  | .string code => pure (some (.script code))
  | .object fields => typedExpression fields path
  | _ => fail .expression path .expressionShape

/-- The expressions of a definition. -/
def expressions (value : Json) (path : String) : Load (List Expression) :=
  match value with
  | .array items => do
    let loaded ← Noted.eachIndexed (fun i v => expression v (item path i)) items
    pure (loaded.filterMap id)
  | _ => do
    problem .expression path (.fieldNotArray "expressions")
    pure []

end ViewTree.Load
