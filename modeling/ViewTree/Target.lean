import ViewTree.Import.Spec
import ViewTree.Platform
import ViewTree.Style.Fragment

/-!
# What differs between platforms

Everything in which the output for the web and for the cross-platform target
differ: file extensions, containers, classes, the way styles are written, and the
imports they need.
-/

namespace ViewTree.Platform

/-- The extension of component files. -/
def extension : Platform → String
  | web => "jsx"
  | crossPlatform => "js"

/-- The element put around markup that needs a single styled root. -/
def container : Platform → String
  | web => "div"
  | crossPlatform => "View"

/-- The attribute that carries classes, if there is one. -/
def classAttribute : Platform → Option String
  | web => some "className"
  | crossPlatform => none

/-- Whether the root component imports the stylesheets. -/
def importsStylesheets : Platform → Bool
  | web => true
  | crossPlatform => false

/-! ## Where style entries go -/

/-- An entry under a format: a media rule, or a guarded fragment. -/
def formatEntry (platform : Platform) (format : String) (predicate : Predicate)
    (style : StyleMap) : Projection :=
  match platform with
  | web => .rule (Style.block ("@media " ++ Style.mediaQuery predicate) style)
  | crossPlatform => .runtime (.guarded format predicate style)

/-- An entry under a selector: a rule, or nothing. -/
def selectorEntry (platform : Platform) (selector : String) (style : StyleMap) : Projection :=
  match platform with
  | web => .rule (Style.block selector style)
  | crossPlatform => .dropped

/-- Raw sheet text: a rule, or nothing. -/
def textEntry (platform : Platform) (text : String) : Projection :=
  match platform with
  | web => .rule (Text.trim text)
  | crossPlatform => .dropped

/-! ## Style attributes -/

/-- The test whether the screen satisfies a predicate. -/
def formatTest (predicate : Predicate) : String :=
  "matchFormat(" ++ Style.predicateLiteral predicate ++ ", __dimensions)"

/-- The entries a fragment adds to a style object. -/
def spreadEntries : Fragment → List String
  | .object style => Style.literalEntries style
  | .conditional predicate style =>
    ["...(" ++ predicate ++ " ? " ++ Style.literal style ++ " : \x7b\x7d)"]
  | .guarded _ predicate style =>
    ["...(" ++ formatTest predicate ++ " ? " ++ Style.literal style ++ " : \x7b\x7d)"]
  | .dynamic code => ["...(" ++ code ++ ")"]

/-- A fragment as an argument of the merging helper. -/
def mergeArgument : Fragment → String
  | .object style => Style.literal style
  | .conditional predicate style => "(" ++ predicate ++ ") && " ++ Style.literal style
  | .guarded _ predicate style => formatTest predicate ++ " && " ++ Style.literal style
  | .dynamic code => code

/-- The call of the merging helper; an argument of several lines puts each argument
on lines of its own. -/
def mergeCall (arguments : List String) : String :=
  if arguments.any fun a => Text.has a '\n' then
    "mergeStyles(\n" ++ Text.indent (Text.join ",\n" arguments) ++ "\n)"
  else "mergeStyles(" ++ Text.join ", " arguments ++ ")"

/-- The object a web style is written as. -/
def spreadObject (entries : List String) : String :=
  if entries.isEmpty then "\x7b\x7d" else "\x7b " ++ Text.join ", " entries ++ " \x7d"

/-- The expression of the `style` attribute. -/
def styleAttribute (platform : Platform) (fragments : List Fragment) : Option String :=
  match platform, fragments with
  | _, [] => none
  | web, _ => some (spreadObject (fragments.flatMap spreadEntries))
  | crossPlatform, [.object style] => some (Style.literal style)
  | crossPlatform, _ => some (mergeCall (fragments.map mergeArgument))

/-- Whether the fragments are merged by the helper. -/
def needsMerge : List Fragment → Bool
  | [] => false
  | [.object _] => false
  | _ => true

/-- The helpers that the style attribute of fragments needs. -/
def styleUsage (platform : Platform) (fragments : List Fragment) : StyleUsage :=
  let matchFormat := fragments.any Fragment.isGuarded
  match platform with
  | web => { mergeStyles := false, matchFormat }
  | crossPlatform => { mergeStyles := needsMerge fragments, matchFormat }

/-- What a function declares before markup that uses the helpers. -/
def stylePrelude (platform : Platform) (usage : StyleUsage) : List String :=
  match platform with
  | web => []
  | crossPlatform =>
    if usage.matchFormat then ["const __dimensions = useWindowDimensions();"] else []

/-- The source of the platform's elements. -/
def nativeSource : String := "react-native"

/-- What a file imports for the helpers. -/
def styleImports (platform : Platform) (usage : StyleUsage) (runtimeModule : String) :
    List Import :=
  match platform with
  | web => []
  | crossPlatform =>
    let helpers := (if usage.mergeStyles then ["mergeStyles"] else []) ++
      (if usage.matchFormat then ["matchFormat"] else [])
    (if helpers.isEmpty then [] else [Import.ofNames runtimeModule helpers]) ++
      (if usage.matchFormat then [Import.ofNames nativeSource ["useWindowDimensions"]] else [])

/-- The elements that come from the platform's own source. -/
def nativeElements : List String :=
  ["ActivityIndicator", "Button", "FlatList", "Image", "ImageBackground",
   "KeyboardAvoidingView", "Modal", "Pressable", "SafeAreaView", "ScrollView", "SectionList",
   "Switch", "Text", "TextInput", "TouchableOpacity", "View"]

/-- What a file imports for an element. -/
def elementImport (platform : Platform) (tag : String) : Option Import :=
  match platform with
  | web => none
  | crossPlatform =>
    if nativeElements.contains tag then some (Import.ofNames nativeSource [tag]) else none

end ViewTree.Platform
