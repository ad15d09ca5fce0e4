import ViewTree.Keyed
import ViewTree.Platform

/-!
# Arguments of the command line

There are two commands, each with one input and some options. An option with a value
takes it after `=`, right after its letter, or from the next argument; `--` ends the
options. An option given twice, a value that is missing or unfit, and anything
unknown make the whole line unfit.
-/

namespace ViewTree.CommandLine

/-- The arguments of `compile`. -/
structure CompileArguments where
  input : String
  platform : Option Platform
  out : String
  config : Option String
  noCache : Bool
  cacheDir : String
  sequential : Bool
deriving DecidableEq, Repr

/-- The arguments of `check`. -/
structure CheckArguments where
  input : String
  platform : Option Platform
  json : Bool
deriving DecidableEq, Repr

/-- What a command line asks for. -/
inductive Command where
  | compile (arguments : CompileArguments)
  | check (arguments : CheckArguments)
  | version
  | help
  /-- The line cannot be understood. -/
  | unfit
deriving DecidableEq, Repr

/-- An option of a command. -/
structure OptionSpec where
  long : String
  short : Option Char := none
  takesValue : Bool
  /-- Whether a value is fit; the value of a flag is empty. -/
  accepts : String → Bool

/-- What was given on a command line: options with their values, in order, and the
input. -/
structure Given where
  options : Keyed String := []
  input : Option String := none

/-- Why scanning stopped early. -/
inductive Stop where
  | help
  | unfit

/-- Notes an option; a second time is unfit, and so is a value that is not accepted. -/
def Given.addOption (g : Given) (spec : OptionSpec) (value : String) : Except Stop Given :=
  if g.options.has spec.long || !spec.accepts value then .error .unfit
  else .ok { g with options := g.options ++ [(spec.long, value)] }

/-- Notes the input; there is only one, and it is not empty. -/
def Given.addInput (g : Given) (value : String) : Except Stop Given :=
  if g.input.isSome || value.isEmpty then .error .unfit
  else .ok { g with input := some value }

/-- Notes the arguments after the end of the options. -/
def Given.addInputs (g : Given) : List String → Except Stop Given
  | [] => .ok g
  | value :: rest => do (← g.addInput value).addInputs rest

/-- One argument taken apart. -/
inductive Argument where
  /-- The end of the options. -/
  | escape
  /-- `--name` or `--name=value`. -/
  | long (name : String) (value : Option String)
  /-- Letters after a single hyphen. -/
  | short (letters : List Char)
  | other (text : String)

/-- The part in front of the first `=` and the part after it. -/
def splitEquals : List Char → List Char × Option (List Char)
  | [] => ([], none)
  | '=' :: rest => ([], some rest)
  | c :: rest =>
    let (name, value) := splitEquals rest
    (c :: name, value)

/-- Takes an argument apart. -/
def Argument.ofText (text : String) : Argument :=
  match text.toList with
  | ['-', '-'] => .escape
  | '-' :: '-' :: rest =>
    let (name, value) := splitEquals rest
    .long (String.ofList name) (value.map String.ofList)
  | '-' :: c :: rest => .short (c :: rest)
  | _ => .other text

/-- What the letters of an argument give: options, and perhaps one that waits for its
value. -/
def scanLetters (specs : List OptionSpec) :
    List Char → Given → Except Stop (Given × Option OptionSpec)
  | [], g => .ok (g, none)
  | 'h' :: _, _ => .error .help
  | c :: rest, g =>
    match specs.find? fun s => s.short == some c with
    | none => .error .unfit
    | some spec =>
      if spec.takesValue then
        match rest with
        | [] => .ok (g, some spec)
        | '=' :: value => (g.addOption spec (String.ofList value)).map fun g => (g, none)
        | value => (g.addOption spec (String.ofList value)).map fun g => (g, none)
      else
        match g.addOption spec "" with
        | .ok g => scanLetters specs rest g
        | .error e => .error e

/-- What a long option gives. -/
def scanLong (specs : List OptionSpec) (name : String) (value : Option String) (g : Given) :
    Except Stop (Given × Option OptionSpec) :=
  if name = "help" ∧ value = none then .error .help
  else
    match specs.find? (fun s => s.long == name), value with
    | none, _ => .error .unfit
    | some spec, some v =>
      if spec.takesValue then (g.addOption spec v).map fun g => (g, none) else .error .unfit
    | some spec, none =>
      if spec.takesValue then .ok (g, some spec)
      else (g.addOption spec "").map fun g => (g, none)

/-- Scans the arguments of a command; `waiting` is an option that still needs its
value, which does not start with a hyphen. -/
def scan (specs : List OptionSpec) :
    List String → (waiting : Option OptionSpec) → Given → Except Stop Given
  | [], none, g => .ok g
  | [], some _, _ => .error .unfit
  | text :: rest, some spec, g =>
    match Argument.ofText text with
    | .other value => do scan specs rest none (← g.addOption spec value)
    | _ => .error .unfit
  | text :: rest, none, g =>
    match Argument.ofText text with
    | .other value => do scan specs rest none (← g.addInput value)
    | .escape => g.addInputs rest
    | .long name value => do
      let (g, waiting) ← scanLong specs name value g
      scan specs rest waiting g
    | .short letters => do
      let (g, waiting) ← scanLetters specs letters g
      scan specs rest waiting g

/-- The option `--platform`. -/
def platformSpec : OptionSpec :=
  { long := "platform", short := some 'p', takesValue := true
    accepts := fun name => (Platform.ofName? name).isSome }

/-- An option whose value is a path. -/
def pathSpec (long : String) (short : Option Char) : OptionSpec :=
  { long, short, takesValue := true, accepts := fun path => !path.isEmpty }

/-- An option without a value. -/
def flagSpec (long : String) : OptionSpec :=
  { long, takesValue := false, accepts := fun _ => true }

/-- The options of `compile`. -/
def compileSpecs : List OptionSpec :=
  [platformSpec, pathSpec "out" (some 'o'), pathSpec "config" none, flagSpec "no-cache",
   pathSpec "cache-dir" none, flagSpec "sequential"]

/-- The options of `check`. -/
def checkSpecs : List OptionSpec := [platformSpec, flagSpec "json"]

/-- The platform asked for. -/
def Given.platform (g : Given) : Option Platform :=
  (g.options.lookup "platform").bind Platform.ofName?

/-- The arguments of `compile`, if there is an input. -/
def compileArguments (g : Given) : Option CompileArguments :=
  g.input.map fun input =>
    { input, platform := g.platform
      out := (g.options.lookup "out").getD "out"
      config := g.options.lookup "config"
      noCache := g.options.has "no-cache"
      cacheDir := (g.options.lookup "cache-dir").getD ".uitree/cache"
      sequential := g.options.has "sequential" }

/-- The arguments of `check`, if there is an input. -/
def checkArguments (g : Given) : Option CheckArguments :=
  g.input.map fun input =>
    { input, platform := g.platform, json := g.options.has "json" }

/-- Scans the arguments of a command and makes a command of them. -/
def commandOf (specs : List OptionSpec) (arguments : List String)
    (make : Given → Option Command) : Command :=
  match scan specs arguments none {} with
  | .error .help => .help
  | .error .unfit => .unfit
  | .ok g => (make g).getD .unfit

/-- What `help` can be asked about: everything, or one of the commands. -/
def helpTopics : List (List String) := [[], ["compile"], ["check"], ["help"]]

/-- The command of a command line. -/
def parse : List String → Command
  | "compile" :: rest => commandOf compileSpecs rest fun g => (compileArguments g).map .compile
  | "check" :: rest => commandOf checkSpecs rest fun g => (checkArguments g).map .check
  | "help" :: topics => if helpTopics.contains topics then .help else .unfit
  | first :: _ =>
    match Argument.ofText first with
    | .long "version" none => .version
    | .short ('V' :: _) => .version
    | .long "help" none => .help
    | .short ('h' :: _) => .help
    | _ => .unfit
  | [] => .unfit

end ViewTree.CommandLine
