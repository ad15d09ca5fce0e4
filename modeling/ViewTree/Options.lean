import ViewTree.Json.Value
import ViewTree.Platform

/-!
# Compile options

What a caller can choose about a compilation, and its reading from a JSON value
(`Options.ofJson`), which reports the first problem in the order of the value.
-/

namespace ViewTree

/-- What a caller can choose about a compilation. -/
structure Options where
  /-- Wins over the platform the document names. -/
  platform : Option Platform := none
  /-- The module that provides the style helpers to cross-platform output. -/
  runtimeModule : String := "@uitree/runtime"
  componentDir : String := "components"
  styleDir : String := "styles"
  /-- Whether component files may be written at the same time; the result is the
  same either way. -/
  parallel : Bool := true
deriving DecidableEq, Repr, Inhabited

namespace Options

/-- The platform to compile for: the chosen one, else the document's, else the
web. -/
def resolvePlatform (options : Options) (document : Option Platform) : Platform :=
  (options.platform.or document).getD .web

/-- The options as a JSON value. -/
def toJson (options : Options) : Json :=
  .object
    [("platform", match options.platform with
        | some p => .string p.name
        | none => .null),
     ("runtimeModule", .string options.runtimeModule),
     ("componentDir", .string options.componentDir),
     ("styleDir", .string options.styleDir),
     ("parallel", .bool options.parallel)]

/-! ## Values -/

/-- The message about a text that names no platform. -/
def unknownPlatform (s : String) : String :=
  Json.unknownChoice s (Platform.names.map Prod.fst)

/-- What an object with other than one field is told where a platform goes. -/
def notSingleField : String := "invalid value: map, expected map with a single key"

/-- A platform: its name, or an object with its name as only field. -/
def platformOf : Json → Except String Platform
  | .string s =>
    match Platform.ofName? s with
    | some p => .ok p
    | none => .error (unknownPlatform s)
  | .object [(s, v)] =>
    match Platform.ofName? s, v with
    | none, _ => .error (unknownPlatform s)
    | some p, .null => .ok p
    | some _, v => .error (Json.unfitMessage v "unit")
  | .object _ => .error notSingleField
  | v => .error (Json.unfitMessage v "string or map")

/-- A platform, or `null` for none. -/
def platformOrNull : Json → Except String (Option Platform)
  | .null => .ok none
  | v => (platformOf v).map some

/-- A string. -/
def stringOf : Json → Except String String
  | .string s => .ok s
  | v => .error (Json.unfitMessage v "a string")

/-- A truth value. -/
def boolOf : Json → Except String Bool
  | .bool b => .ok b
  | v => .error (Json.unfitMessage v "a boolean")

/-- The names of the options, in the order of an options array. -/
def fieldNames : List String :=
  ["platform", "runtimeModule", "componentDir", "styleDir", "parallel"]

/-- Sets one option; other names are ignored. -/
def set (options : Options) (name : String) (value : Json) : Except String Options :=
  match name with
  | "platform" => (platformOrNull value).map fun p => { options with platform := p }
  | "runtimeModule" => (stringOf value).map fun s => { options with runtimeModule := s }
  | "componentDir" => (stringOf value).map fun s => { options with componentDir := s }
  | "styleDir" => (stringOf value).map fun s => { options with styleDir := s }
  | "parallel" => (boolOf value).map fun b => { options with parallel := b }
  | _ => .ok options

/-- Sets options one after the other, up to the first problem. -/
def setAll (options : Options) : List (String × Json) → Except String Options
  | [] => .ok options
  | (name, value) :: rest => do (← options.set name value).setAll rest

/-- The options of a JSON value: an object with any of them, or an array with the
first few of them. -/
def ofJson : Json → Except String Options
  | .object fields => setAll {} fields
  | .array items => do
    let options ← setAll {} (fieldNames.zip items)
    if items.length ≤ fieldNames.length then .ok options
    else
      .error ("invalid length " ++ Text.decimal items.length ++
        ", expected fewer elements in array")
  | v => .error (Json.unfitMessage v "struct CompileOptions")

/-- The options a caller gives, where `null` stands for the usual ones. -/
def ofOptionalJson : Json → Except String Options
  | .null => .ok {}
  | v => ofJson v

end Options

end ViewTree
