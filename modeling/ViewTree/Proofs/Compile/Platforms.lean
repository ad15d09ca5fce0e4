import ViewTree.Proofs.Compile.Links
import ViewTree.Proofs.Component.Scripts

/-!
# What the platform leaves alone

The platform of a compilation is looked at where styles are resolved and where elements are
imported. Names, contexts and the sections of the global stylesheet are settled without it,
and of a function it decides only what the style helpers declare and the markup. So an app
that compiles does so for both platforms (`compile_platforms`): the components are called
the same, and their files declare the same functions in the same order.
-/

namespace ViewTree

open ComponentFile (dropSlashes sourceText)
open Text (InOrder shieldChars)

/-- The options with the platform chosen. -/
def Options.on (options : Options) (platform : Platform) : Options := { options with platform := some platform }

/-! ## Signatures -/

/-- What a function is declared by. -/
structure Signature where
  exported : String
  name : String
  params : Option Pattern
deriving DecidableEq, Repr

/-- The declaration up to the body, as it is written. -/
def Signature.text (g : Signature) : String :=
  g.exported ++ "function " ++ g.name ++ "(" ++ (g.params.map Pattern.render).getD "" ++ ") \x7b"

def Function.signature (f : Function) : Signature := { exported := f.exported, name := f.name, params := f.params }

/-- The signatures of the definitions of a component, which no option is looked at for. -/
def App.signatures (app : App) (c : Node) : List Signature :=
  c.definitions.zipIdx.map fun (d, k) =>
    { exported := Function.exportWord (k == 0) d.head, name := (app.scope {}).functionName d.head
      params := Function.paramsOf d.head }

theorem App.functionsOf_signatures (app : App) (options : Options) (i : Nat) (c : Node) :
    (app.functionsOf options i c).map Function.signature = app.signatures c := by
  unfold functionsOf ComponentFile.functions Noted.eachIndexed
  rw [Noted.value_each, List.map_map]
  rfl

/-- A function starts with its signature. -/
theorem Function.render_signature {f : Function} (hplain : ∀ c ∈ f.heading.toList, c ≠ '\n' ∧ c ≠ Text.marker) :
    ∃ rest, f.render.toList = shieldChars f.signature.text.toList ++ rest := by
  have hparams : ((f.params.map fun p => Text.shield p.render).getD "").toList =
      shieldChars ((f.params.map Pattern.render).getD "").toList := by
    cases f.params with
    | none => rfl
    | some p => exact String.toList_ofList
  have hsignature : f.signature.text = f.heading ++ (f.params.map Pattern.render).getD "" ++ ") \x7b" := rfl
  have hopening : shieldChars ") \x7b".toList = ") \x7b".toList := by decide
  refine ⟨'\n' :: (Text.indent (Text.join "\n" f.lines) ++ "\n\x7d").toList, ?_⟩
  rw [hsignature, String.toList_append, String.toList_append, Text.shieldChars_append, Text.shieldChars_append,
    Text.shieldChars_of_plain hplain, ← hparams, hopening]
  simp [render, heading]

namespace App

variable {document : Json} {app : App} (hload : Load.app document = .ok app) (hcheck : app.checkProblems = [])

include hload hcheck

/-- In an app that passes its checks, nothing in the start of a function is shielded. -/
theorem functionsOf_plain {options : Options} {i : Nat} {c : Node} (hc : c ∈ app.components) {f : Function}
    (hf : f ∈ app.functionsOf options i c) : ∀ x ∈ f.heading.toList, x ≠ '\n' ∧ x ≠ Text.marker := by
  unfold functionsOf ComponentFile.functions Noted.eachIndexed at hf
  rw [Noted.value_each] at hf
  obtain ⟨⟨d, k⟩, hd, rfl⟩ := List.mem_map.1 hf
  have hd : d ∈ app.definitions := List.mem_flatMap.2 ⟨c, hc, List.fst_mem_of_mem_zipIdx hd⟩
  intro x hx
  refine Function.heading_plain ?_ ?_ hx
  · rw [Function.ofDefinition_exported]
    unfold Function.exportWord
    split
    · decide
    · split <;> decide
  · exact isIdentifier_of_nameOf hcheck (definition_name hload hcheck options hd)

/-- The file of a component declares the functions of its definitions in order. -/
theorem signatures_inOrder {options : Options} {i : Nat} {c : Node} (hc : c ∈ app.components) (block : ImportBlock) :
    InOrder ((app.signatures c).map Signature.text) (sourceText block (app.functionsOf options i c)).toList := by
  have hstarts : ∀ f ∈ app.functionsOf options i c, ∃ rest, f.render.toList = shieldChars f.signature.text.toList ++ rest :=
    fun f hf => Function.render_signature (functionsOf_plain hload hcheck hc hf)
  have hbreak : Text.Opens "\n\n" := ⟨'\n', by decide⟩
  have hfunctions := InOrder.of_pieces hbreak hstarts
  rw [← functionsOf_signatures app options i c, List.map_map, sourceText, String.toList_append, String.toList_append,
    Text.unshield, String.toList_ofList]
  exact (hfunctions.append_left _).append_right _

end App

/-! ## Outputs for both platforms -/

/-- The files add to the global stylesheet what the definitions say, on either platform. -/
theorem Written.styleSheet {s : Scope} {cs : List Node} {index : Nat} {files : List ComponentFile}
    (hw : Written s index cs files) :
    files.flatMap ComponentFile.styleSheet = (cs.flatMap Node.definitions).filterMap fun d => d.head.styleSheet := by
  have hfiles : files.map ComponentFile.styleSheet = cs.map fun c => c.definitions.filterMap fun d => d.head.styleSheet :=
    hw.map_eq fun _ _ _ ho => (ComponentFile.ofComponent_sheets ho).1
  rw [List.flatMap_def, hfiles, ← List.flatMap_def, List.filterMap_flatMap]

/-- What the outputs of an app for the two platforms have in common. -/
structure App.Shared (app : App) (options : Options) (web native : Output) : Prop where
  /-- The files of the components are named after them, in the same order. -/
  components : ∃ names : List String, names.Nodup ∧ names.length = app.components.length ∧
    (web.ofKind .component).map Artifact.path =
      names.map (fun name => dropSlashes options.componentDir ++ "/" ++ name ++ ".jsx") ∧
    (native.ofKind .component).map Artifact.path =
      names.map fun name => dropSlashes options.componentDir ++ "/" ++ name ++ ".js"
  globalSheet : ∃ sheet, web.ofKind .globalStylesheet = [sheet] ∧ native.ofKind .globalStylesheet = [sheet]
  contexts : web.ofKind .contexts = [] ∧ native.ofKind .contexts = [] ∨
    ∃ created, created.path = "contexts.js" ∧ web.ofKind .contexts = [created] ∧ native.ofKind .contexts = [created]
  /-- The two files of a component are made of functions with the same signatures, which
  stand in both texts in this order. -/
  functions : ∀ (i : Nat) (c : Node), app.components[i]? = some c → ∃ w n,
    web.FileOf app (options.on .web) i c w ∧ native.FileOf app (options.on .crossPlatform) i c n ∧
    (app.functionsOf (options.on .web) i c).map Function.signature = app.signatures c ∧
    (app.functionsOf (options.on .crossPlatform) i c).map Function.signature = app.signatures c ∧
    InOrder ((app.signatures c).map Signature.text) w.contents.toList ∧
    InOrder ((app.signatures c).map Signature.text) n.contents.toList

section

variable {document : Json} {app : App} (hload : Load.app document = .ok app) (hcheck : app.checkProblems = [])
  {options : Options} {platform : Platform} {files : List ComponentFile}
  (hwritten : Written (app.scope (options.on platform)) 0 app.components files)

include hwritten

theorem App.outputOf_components :
    ((app.outputOf (options.on platform) files).ofKind .component).map Artifact.path =
      (app.components.map fun c => (app.scope {}).functionName c.head).map fun name =>
        dropSlashes options.componentDir ++ "/" ++ name ++ ("." ++ platform.extension) := by
  rw [outputOf, Output.ofKind_assemble, List.map_map, List.map_map]
  refine hwritten.paths.trans (List.map_congr_left fun c _ => ?_)
  exact String.append_assoc

include hload hcheck

/-- The file of a component has the functions of its definitions, whatever the platform. -/
theorem App.outputOf_functions {i : Nat} {c : Node} (hc : app.components[i]? = some c) :
    ∃ a, (app.outputOf (options.on platform) files).FileOf app (options.on platform) i c a ∧
      InOrder ((app.signatures c).map Signature.text) a.contents.toList := by
  obtain ⟨a, ha⟩ := fileOf hwritten hc
  obtain ⟨block, -, hcontents⟩ := ha.contents
  exact ⟨a, ha, hcontents ▸ signatures_inOrder hload hcheck (List.mem_of_getElem? hc) block⟩

end

/-- A document that compiles does so for both platforms. The outputs name the same
components in the same order, they have the same global stylesheet and the same contexts
module or none, and the two files of a component declare the same functions, with the same
names, exports and parameters. -/
theorem compile_platforms {document : Json} {options : Options} {output : Output}
    (h : compile document options = .ok output) :
    ∃ app web native, Load.app document = .ok app ∧ compile document (options.on .web) = .ok web ∧
      compile document (options.on .crossPlatform) = .ok native ∧ app.Shared options web native := by
  obtain ⟨app, -, hload, hcheck, -, -⟩ := compile_eq_ok h
  obtain ⟨files, hweb, hcompile⟩ := App.compile_of_check hcheck (options.on .web)
  obtain ⟨files', hnative, hcompile'⟩ := App.compile_of_check hcheck (options.on .crossPlatform)
  have hcompiles : ∀ chosen, compile document chosen = app.compile chosen := by
    intro chosen
    rw [compile, hload]
  refine ⟨app, app.outputOf (options.on .web) files, app.outputOf (options.on .crossPlatform) files', hload,
    (hcompiles _).trans hcompile, (hcompiles _).trans hcompile', ?_, ?_, ?_, fun i c hc => ?_⟩
  · refine ⟨app.components.map fun c => (app.scope {}).functionName c.head,
      App.component_names_nodup hload hcheck {}, List.length_map _, ?_, ?_⟩
    · rw [App.outputOf_components hweb, show "." ++ Platform.web.extension = ".jsx" by decide]
    · rw [App.outputOf_components hnative, show "." ++ Platform.crossPlatform.extension = ".js" by decide]
  · refine ⟨_, Output.ofKind_assemble _ _ _ _ _ _, ?_⟩
    rw [App.outputOf, Output.ofKind_assemble]
    dsimp only
    rw [hnative.styleSheet, ← hweb.styleSheet]
    rfl
  · have hcontexts : ∀ platform, (app.scope (options.on platform)).contexts = (app.scope {}).contexts := fun _ => rfl
    rw [App.outputOf, App.outputOf, Output.ofKind_assemble, Output.ofKind_assemble, hcontexts, hcontexts]
    dsimp only
    cases (app.scope {}).contexts.isEmpty with
    | true => exact .inl ⟨rfl, rfl⟩
    | false => exact .inr ⟨_, rfl, rfl, rfl⟩
  · obtain ⟨w, hw, hordered⟩ := App.outputOf_functions hload hcheck hweb hc
    obtain ⟨n, hn, hordered'⟩ := App.outputOf_functions hload hcheck hnative hc
    exact ⟨w, n, hw, hn, App.functionsOf_signatures _ _ _ _, App.functionsOf_signatures _ _ _ _, hordered, hordered'⟩

/-- A component with a parameter, a context and two inner definitions, one of which has no
name, around styles that the platforms treat differently. -/
def styledCard : Json :=
  .object [("styleSheet", .string "body \x7b\x7d"), ("components", .array
    [.object [("name", .string "Card"), ("props", .object [("size", .object [])]),
      ("provideContexts", .object [("theme", .string "1")]), ("style", .string "color: red"),
      ("children", .array
        [.object [("type", .string "Component"), ("name", .string "Row"), ("useContexts", .array [.string "theme"]),
            ("styleSheet", .string ".row \x7b\x7d")],
          .object [("type", .string "Component"), ("children", .object
            [("type", .string "View"), ("style", .object [("flex", .string "1")])])]])]])]

theorem compile_platforms_styledCard :
    ∃ output app web native c, compile styledCard {} = .ok output ∧ Load.app styledCard = .ok app ∧
      app.Shared {} web native ∧ web.files ≠ native.files ∧ app.components[0]? = some c ∧
      (app.signatures c).map Signature.text =
        ["export default function Card(\x7b size \x7d) \x7b", "export function Row() \x7b", "function CardPart1() \x7b"] := by
  have hsignatures : ((Load.app styledCard).toOption.bind fun app => app.components[0]?.map fun c =>
      (app.signatures c).map Signature.text) =
      some ["export default function Card(\x7b size \x7d) \x7b", "export function Row() \x7b",
        "function CardPart1() \x7b"] := by decide +kernel
  have hfiles : (compile styledCard (Options.on {} .web)).toOption.map Output.files ≠
      (compile styledCard (Options.on {} .crossPlatform)).toOption.map Output.files := by decide +kernel
  obtain ⟨output, h⟩ : ∃ output, compile styledCard {} = .ok output := exists_ok_of_isOk (by decide +kernel)
  obtain ⟨app, web, native, hload, hweb, hnative, hshared⟩ := compile_platforms h
  rw [hload] at hsignatures
  obtain ⟨c, hc, hsignatures⟩ := Option.map_eq_some_iff.1 hsignatures
  rw [hweb, hnative] at hfiles
  exact ⟨output, app, web, native, c, h, hload, hshared, fun heq => hfiles (congrArg some heq), hc, hsignatures⟩

end ViewTree
