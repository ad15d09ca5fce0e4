import ViewTree.Proofs.Compile.Files
import ViewTree.Proofs.Component.Functions
import ViewTree.Proofs.Files.Path
import ViewTree.Proofs.Names.Table

/-!
# The files of an output link up

An import that the compiler adds takes something from a package, or it leads from its
file to another file of the same output: a stylesheet, the contexts module, or the file
of a component. There, what is imported is exported (`compile_links`). The table of names
says which file holds the function of a definition, and a definition with a name is
exported from that file: the component itself as default, any other under its own name.
-/

namespace ViewTree

open FilePath (back steps place target IsName)

/-- The artifact lies where a source leads that the file at a path imports, up to the
extension of a module. -/
def Artifact.LiesAt (a : Artifact) (file source : String) : Prop :=
  ∃ extension ∈ ["", ".js", ".jsx"], place a.path = target file (source ++ extension)

/-- The functions in the file of the component at place `i`. -/
def App.functionsOf (app : App) (options : Options) (i : Nat) (c : Node) : List Function :=
  (ComponentFile.functions (app.scope options) i c).value

/-- The artifact is the file of the component at place `j`: that is its path, and it is made
of the imports and the functions of the component. -/
structure Output.FileOf (app : App) (options : Options) (output : Output) (j : Nat) (c : Node) (a : Artifact) : Prop where
  component : app.components[j]? = some c
  artifact : output.files[j]? = some a
  path : a.path = ComponentFile.pathOf (app.scope options) ((app.scope options).functionName c.head)
  contents : ∃ block, ImportBlock.collect (app.userImports c) (app.generatedImports options j c)
      ((app.scope options).naming.functions c) = .ok block ∧
    a.contents = ComponentFile.sourceText block (app.functionsOf options j c)

/-- What an artifact exports under a symbol, and what that is called there: the contexts
module its contexts, and the file of a component its only default export and the
functions of named inner definitions. -/
inductive Artifact.Exports (app : App) (options : Options) (output : Output) (a : Artifact) : Symbol → String → Prop
  | context {identifier : String} (kind : a.kind = .contexts)
      (declared : ("export const " ++ identifier ++ " = createContext(undefined);\n").toList <:+: a.contents.toList) :
      Exports app options output a (.named identifier) identifier
  | component {j : Nat} {c : Node} {f : Function} (file : output.FileOf app options j c a)
      (only : (app.functionsOf options j c).filter (fun f => f.exported == "export default ") = [f])
      (declared : ("export default function " ++ f.name ++ "(").toList <:+: a.contents.toList) :
      Exports app options output a .default f.name
  | inner {j : Nat} {c : Node} {f : Function} (file : output.FileOf app options j c a)
      (mem : f ∈ app.functionsOf options j c) (word : f.exported = "export ")
      (declared : ("export function " ++ f.name ++ "(").toList <:+: a.contents.toList) :
      Exports app options output a (.named f.name) f.name

/-- The imports that lead from the file of the component at place `i` to other files of
the output: the stylesheets, the contexts module and the components of other files. -/
def App.linkedImports (app : App) (options : Options) (i : Nat) (c : Node) : List Import :=
  let needs := (ComponentFile.functions (app.scope options) i c).notes
  ComponentFile.sheetImports (app.scope options) i ++
    ComponentFile.namesImport (ComponentFile.toRoot options.componentDir ++ "contexts") needs.contexts.eraseDups ++
    ComponentFile.referenceImports needs

/-- The packages that files import from. -/
def packages (options : Options) : List String := ["react", "react-native", options.runtimeModule]

/-! ## Packages -/

/-- What the compiler imports comes from a package, or it leads to another file. -/
theorem App.generatedImports_cases {app : App} {options : Options} {i : Nat} {c : Node} {u : Import}
    (h : u ∈ app.generatedImports options i c) : u ∈ app.linkedImports options i c ∨ u.source ∈ packages options := by
  simp only [generatedImports, ComponentFile.implicitImports, ComponentFile.plainImports, scope_options,
    List.mem_append] at h
  simp only [linkedImports, List.mem_append, packages, List.mem_cons, List.not_mem_nil, or_false]
  rcases h with ((((h | h) | h) | h) | h) | h
  · exact .inl (.inl (.inl h))
  · rw [ComponentFile.mem_namesImport h]
    exact .inr (.inl rfl)
  · exact .inl (.inl (.inr h))
  · obtain ⟨names, rfl | rfl⟩ := ComponentFile.mem_styleImports h
    · exact .inr (.inr (.inr rfl))
    · exact .inr (.inr (.inl rfl))
  · obtain ⟨tag, -, h⟩ := List.mem_filterMap.1 h
    rw [(ComponentFile.elementImport_eq_some h).2]
    exact .inr (.inr (.inl rfl))
  · exact .inl (.inr h)

/-! ## Names of files -/

theorem Text.plain_of_isIdentifier {name : String} (h : isIdentifier name = true) {c : Char} (hc : c ∈ name.toList) :
    c ≠ '/' ∧ c ≠ '.' ∧ c ≠ '\n' ∧ c ≠ marker := by
  have hcontinues := List.all_eq_true.1 (continues_of_isIdentifier h) c hc
  refine ⟨?_, ?_, ?_, ?_⟩ <;> (rintro rfl; revert hcontinues; decide)

theorem Platform.extension_mem (platform : Platform) : "." ++ platform.extension ∈ ["", ".js", ".jsx"] := by
  cases platform <;> decide

theorem ComponentFile.pathOf_eq_dir (s : Scope) (name : String) :
    pathOf s name = dropSlashes s.options.componentDir ++ "/" ++ (name ++ "." ++ s.platform.extension) := by
  simp only [pathOf, String.append_assoc]

theorem ComponentFile.isName_of_isIdentifier {name : String} (h : Text.isIdentifier name = true) (platform : Platform) :
    IsName (name ++ "." ++ platform.extension) := by
  have hlist : (name ++ "." ++ platform.extension).toList = name.toList ++ '.' :: platform.extension.toList := by simp
  have hlength : 2 ≤ platform.extension.toList.length := by cases platform <;> decide
  have hlong : ∀ short : List Char, short.length ≤ 2 → (name ++ "." ++ platform.extension).toList ≠ short := by
    rintro short hshort heq
    have := congrArg List.length (hlist.symm.trans heq)
    simp only [List.length_append, List.length_cons] at this
    omega
  refine ⟨?_, ?_, hlong _ (by decide)⟩
  · rw [hlist, List.mem_append, List.mem_cons]
    rintro (hc | hc | hc)
    · exact (Text.plain_of_isIdentifier h hc).1 rfl
    · cases hc
    · cases platform <;> revert hc <;> decide
  · unfold FilePath.isStep
    rw [Bool.and_eq_true, bne_iff_ne, bne_iff_ne]
    exact ⟨hlong _ (by decide), hlong _ (by decide)⟩

/-! ## Exports -/

/-- Whether the text has no line break and no marker in it. -/
def Text.isPlain (s : String) : Bool := s.toList.all fun c => c != '\n' && c != marker

theorem Text.ne_of_isPlain {s : String} (h : isPlain s = true) {c : Char} (hc : c ∈ s.toList) :
    c ≠ '\n' ∧ c ≠ marker := by
  simpa using List.all_eq_true.1 h c hc

/-- Nothing in the start of a function named by an identifier is shielded. -/
theorem Function.heading_plain {f : Function} (hword : Text.isPlain f.exported = true)
    (hname : Text.isIdentifier f.name = true) {c : Char} (hc : c ∈ f.heading.toList) : c ≠ '\n' ∧ c ≠ Text.marker := by
  simp only [heading, String.toList_append, List.mem_append] at hc
  rcases hc with ((hc | hc) | hc) | hc
  · exact Text.ne_of_isPlain hword hc
  · exact Text.ne_of_isPlain (s := "function ") (by decide) hc
  · exact (Text.plain_of_isIdentifier hname hc).2.2
  · exact Text.ne_of_isPlain (s := "(") (by decide) hc

/-- A function named by an identifier is declared in its file, after the word that exports
it. -/
theorem ComponentFile.declared_infix (block : ImportBlock) {functions : List Function} {f : Function} {word : String}
    (hf : f ∈ functions) (hexported : f.exported = word) (hword : Text.isPlain word = true)
    (hname : Text.isIdentifier f.name = true) :
    (word ++ "function " ++ f.name ++ "(").toList <:+: (sourceText block functions).toList := by
  have hheading : f.heading = word ++ "function " ++ f.name ++ "(" := by rw [Function.heading, hexported]
  rw [← hheading]
  exact heading_infix block hf fun c => Function.heading_plain (hexported ▸ hword) hname

section

variable {app : App} (hcheck : app.checkProblems = []) {options : Options} {output : Output} {j : Nat} {c : Node}
  {a : Artifact} (hfile : output.FileOf app options j c a)

include hcheck hfile

/-- The file of a component exports the function of the component as default. -/
theorem Output.FileOf.exports_default (hc : c.isDefinition = true) {name : String}
    (hname : (app.scope options).naming.nameOf c.head = some name) : a.Exports app options output .default name := by
  obtain ⟨block, -, hcontents⟩ := hfile.contents
  have honly := ComponentFile.functions_default (app.scope options) j hc
  have hmem := (List.mem_filter.1 (honly ▸ List.mem_singleton_self _)).1
  have hfunction := Function.ofDefinition_name (app.scope options) j c true
  rw [Scope.functionName_eq hname] at hfunction
  rw [← hfunction]
  refine .component hfile honly ?_
  rw [hcontents, show "export default function " = "export default " ++ "function " by decide]
  refine ComponentFile.declared_infix block hmem (Function.ofDefinition_exported _ _ _ _) (by decide) ?_
  rw [hfunction]
  exact App.isIdentifier_of_nameOf hcheck hname

/-- The file of a component exports the function of a named inner definition. -/
theorem Output.FileOf.exports_inner (hc : c.isDefinition = true) {d : Node} (hd : d ∈ c.nodes.drop 1)
    (hdefinition : d.isDefinition = true) (hexplicit : d.head.name.isSome = true) {name : String}
    (hname : (app.scope options).naming.nameOf d.head = some name) :
    a.Exports app options output (.named name) name := by
  obtain ⟨block, -, hcontents⟩ := hfile.contents
  have hmem : (Function.ofDefinition (app.scope options) j d false).value ∈ app.functionsOf options j c := by
    rw [App.functionsOf, ComponentFile.functions_value _ _ hc]
    exact List.mem_cons_of_mem _ (List.mem_map.2 ⟨d, List.mem_filter.2 ⟨hd, hdefinition⟩, rfl⟩)
  have hword : (Function.ofDefinition (app.scope options) j d false).value.exported = "export " := by
    rw [Function.ofDefinition_exported, Function.exportWord, hexplicit]
    rfl
  have hfunction := Function.ofDefinition_name (app.scope options) j d false
  rw [Scope.functionName_eq hname] at hfunction
  rw [← hfunction]
  refine .inner hfile hmem hword ?_
  rw [hcontents, show "export function " = "export " ++ "function " by decide]
  refine ComponentFile.declared_infix block hmem hword (by decide) ?_
  rw [hfunction]
  exact App.isIdentifier_of_nameOf hcheck hname

end

theorem Contexts.render_declares {contexts : Contexts} {identifier : String}
    (h : identifier ∈ contexts.map fun c => c.2.identifier) :
    ("export const " ++ identifier ++ " = createContext(undefined);\n").toList <:+: contexts.render.toList := by
  obtain ⟨context, hcontext, rfl⟩ := List.mem_map.1 h
  have hline := Text.infix_join "" (List.mem_map_of_mem
    (f := fun c : String × Context => "export const " ++ c.2.identifier ++ " = createContext(undefined);\n") hcontext)
  refine hline.trans ?_
  unfold render
  rw [String.toList_append]
  exact (List.suffix_append _ _).isInfix

/-! ## Where imports lead -/

section

variable {document : Json} {app : App} (hload : Load.app document = .ok app) (hcheck : app.checkProblems = [])
  {options : Options} {files : List ComponentFile} (hwritten : Written (app.scope options) 0 app.components files)
  (hdir : back ∉ steps options.componentDir)

/-- The output of an app that passed its checks. -/
def App.outputOf (app : App) (options : Options) (files : List ComponentFile) : Output :=
  Output.assemble app files (app.scope options).contexts options (app.scope options).platform

include hwritten

theorem App.fileOf {j : Nat} {c : Node} (hc : app.components[j]? = some c) :
    ∃ a, (app.outputOf options files).FileOf app options j c a := by
  obtain ⟨file, ho, hartifact⟩ := hwritten.artifact hc (app.scope options).contexts
  obtain ⟨hpath, block, hblock, hsource⟩ := ComponentFile.ofComponent_eq_ok ho
  exact ⟨_, hc, hartifact, hpath, block, hblock, hsource⟩

omit hwritten

theorem Output.FileOf.fileName {output : Output} {j : Nat} {c : Node} {a : Artifact}
    (hfile : output.FileOf app options j c a) :
    (app.scope options).fileName j = (app.scope options).functionName c.head := by
  unfold Scope.fileName
  rw [App.scope_app, hfile.component]

include hload hcheck hdir

/-- A file leads to the files of other components by their names. -/
theorem Output.FileOf.target_sibling {output : Output} {i : Nat} {c : Node} {a : Artifact}
    (hfile : output.FileOf app options i c a) (other : String) :
    target a.path ("./" ++ other ++ ("." ++ (app.scope options).platform.extension)) =
      place (ComponentFile.pathOf (app.scope options) other) := by
  have hname := (App.component_name hload hcheck options (List.mem_of_getElem? hfile.component)).2
  have hsource : "./" ++ other ++ ("." ++ (app.scope options).platform.extension) =
      "./" ++ (other ++ "." ++ (app.scope options).platform.extension) := by
    simp only [String.append_assoc]
  rw [hfile.path, ComponentFile.pathOf_eq_dir, ComponentFile.pathOf_eq_dir, hsource]
  exact FilePath.target_sibling hdir (ComponentFile.isName_of_isIdentifier hname _) _

/-- A file leads to the root, and from there wherever a path leads. -/
theorem Output.FileOf.target_toRoot {output : Output} {i : Nat} {c : Node} {a : Artifact}
    (hfile : output.FileOf app options i c a) (path : String) :
    target a.path (ComponentFile.toRoot options.componentDir ++ path) = place path := by
  have hname := (App.component_name hload hcheck options (List.mem_of_getElem? hfile.component)).2
  rw [hfile.path, ComponentFile.pathOf_eq_dir]
  exact FilePath.target_toRoot hdir (ComponentFile.isName_of_isIdentifier hname _) path

variable {i : Nat} {c : Node} {a : Artifact} (hfile : (app.outputOf options files).FileOf app options i c a)

include hfile

/-- The imports of the stylesheets lead to the stylesheets. -/
theorem App.sheetImports_linked {u : Import} (hu : u ∈ ComponentFile.sheetImports (app.scope options) i) :
    ∃ linked ∈ (app.outputOf options files).files, linked.LiesAt a.path u.source ∧ u.kind = .effects ∧
      linked.kind ∈ [.globalStylesheet, .styleModule] := by
  have hsheet : ∀ name, target a.path (ComponentFile.toRoot options.componentDir ++
      ComponentFile.dropSlashes options.styleDir ++ "/" ++ name ++ "") =
      place (ComponentFile.dropSlashes options.styleDir ++ "/" ++ name) := by
    intro name
    have htarget := hfile.target_toRoot hload hcheck hdir (ComponentFile.dropSlashes options.styleDir ++ "/" ++ name)
    simpa only [String.append_assoc, String.append_empty] using htarget
  rw [ComponentFile.sheetImports_eq, List.mem_ite_nil_right] at hu
  simp only [ComponentFile.sheets, List.mem_cons, List.not_mem_nil, or_false] at hu
  rcases hu.2 with rfl | rfl
  · refine ⟨_, List.mem_append_left _ (List.mem_append_right _ List.mem_cons_self), ⟨"", by simp, ?_⟩, rfl, by simp⟩
    exact (hsheet _).symm
  · refine ⟨_, List.mem_append_left _ (List.mem_append_right _ (List.mem_cons_of_mem _ List.mem_cons_self)),
      ⟨"", by simp, ?_⟩, rfl, by simp⟩
    exact (hsheet _).symm

/-- The import of contexts leads to the contexts module, which has them. -/
theorem App.contextsImport_linked {u : Import}
    (hu : u ∈ ComponentFile.namesImport (ComponentFile.toRoot options.componentDir ++ "contexts")
      (ComponentFile.functions (app.scope options) i c).notes.contexts.eraseDups) :
    ∃ linked ∈ (app.outputOf options files).files, linked.LiesAt a.path u.source ∧ u.kind ≠ .effects ∧
      ∀ e ∈ u.entries, linked.Exports app options (app.outputOf options files) e.1 e.2 := by
  have haccounted := (ComponentFile.functions_accounted (app.scope options) i c).contexts
  have hnonempty : (app.scope options).contexts ≠ [] := by
    intro hnil
    rw [ComponentFile.namesImport, List.mem_ite_nil_left, List.isEmpty_iff] at hu
    obtain ⟨identifier, hidentifier⟩ := List.exists_mem_of_ne_nil _ hu.1
    have := haccounted identifier (List.mem_eraseDups.1 hidentifier)
    simp [hnil] at this
  have hmem : ⟨Output.contextsPath, .contexts, (app.scope options).contexts.render⟩ ∈
      (app.outputOf options files).files := by
    refine List.mem_append_right _ ?_
    rw [if_neg (by simpa using hnonempty)]
    exact List.mem_singleton_self _
  have hu := ComponentFile.mem_namesImport hu
  subst hu
  refine ⟨_, hmem, ⟨".js", by simp, ?_⟩, by simp [Import.ofNames], ?_⟩
  · have htarget := hfile.target_toRoot hload hcheck hdir ("contexts" ++ ".js")
    rw [← String.append_assoc] at htarget
    exact htarget.symm
  · intro e he
    simp only [Import.entries, Import.ofNames, List.map_map, List.mem_map] at he
    obtain ⟨identifier, hidentifier, rfl⟩ := he
    exact .context rfl (Contexts.render_declares (haccounted identifier (List.mem_eraseDups.1 hidentifier)))

include hwritten

/-- The import of a component leads to the file that holds its function. -/
theorem App.referenceImport_linked {r : Reference}
    (hr : r ∈ (ComponentFile.functions (app.scope options) i c).notes.references) :
    ∃ linked ∈ (app.outputOf options files).files, linked.LiesAt a.path (ComponentFile.referenceImport r).source ∧
      (ComponentFile.referenceImport r).kind ≠ .effects ∧
      ∀ e ∈ (ComponentFile.referenceImport r).entries,
        linked.Exports app options (app.outputOf options files) e.1 e.2 := by
  obtain ⟨type, entry, hentry, -, rfl⟩ := (ComponentFile.functions_accounted (app.scope options) i c).references r hr
  obtain ⟨owner, d, hstands⟩ := component?_stands hload hcheck hentry
  obtain ⟨linked, hlinked⟩ := fileOf hwritten hstands.component
  have howner := (Load.app_components hload owner (List.mem_of_getElem? hstands.component)).1
  refine ⟨linked, List.mem_of_getElem? hlinked.artifact,
    ⟨"." ++ (app.scope options).platform.extension, Platform.extension_mem _, ?_⟩,
    ComponentFile.referenceImport_kind _, ?_⟩
  · rw [ComponentFile.referenceImport_source, Scope.reference, hlinked.fileName, hlinked.path]
    exact (hfile.target_sibling hload hcheck hdir _).symm
  · intro e he
    cases htop : entry.topLevel with
    | true =>
      obtain rfl := hstands.own htop
      simp only [ComponentFile.referenceImport, Scope.reference, htop, if_true, Import.ofDefault, Import.entries,
        List.mem_singleton] at he
      subst he
      exact hlinked.exports_default hcheck howner hstands.identifier
    | false =>
      simp only [ComponentFile.referenceImport, Scope.reference, htop, Bool.false_eq_true, if_false, Import.ofNames,
        Import.entries, List.map_cons, List.map_nil, List.mem_singleton] at he
      subst he
      exact hlinked.exports_inner hcheck howner (hstands.inner htop) (List.mem_filter.1 hstands.definition).2
        (by rw [hstands.explicit]; rfl) hstands.identifier

end

/-- Every import that the compiler adds to the file of a component takes something from a
package, or it leads to an artifact of the same output that exports what is imported.
The file of each component has one default export, the function of the component. -/
theorem compile_links {document : Json} {options : Options} {output : Output}
    (h : compile document options = .ok output) (hdir : back ∉ Text.splitAt '/' options.componentDir.toList) :
    ∃ app, Load.app document = .ok app ∧ ∀ (i : Nat) (c : Node), app.components[i]? = some c →
      ∃ a, output.FileOf app options i c a ∧
        (∃ f, (app.functionsOf options i c).filter (fun f => f.exported == "export default ") = [f] ∧
          (app.scope options).naming.nameOf c.head = some f.name) ∧
        (∀ u ∈ app.generatedImports options i c,
          u ∈ app.linkedImports options i c ∨ u.source ∈ ["react", "react-native", options.runtimeModule]) ∧
        ∀ u ∈ app.linkedImports options i c, ∃ linked ∈ output.files, linked.LiesAt a.path u.source ∧
          (u.kind = .effects → linked.kind ∈ [.globalStylesheet, .styleModule]) ∧
          ∀ e ∈ u.entries, linked.Exports app options output e.1 e.2 := by
  obtain ⟨app, files, hload, hcheck, hwritten, rfl⟩ := compile_eq_ok h
  have hsteps : back ∉ steps options.componentDir := fun h => hdir (List.mem_of_mem_filter h)
  refine ⟨app, hload, fun i c hc => ?_⟩
  obtain ⟨a, hfile⟩ := App.fileOf hwritten hc
  have hcomponent := List.mem_of_getElem? hc
  refine ⟨a, hfile, ⟨_, ComponentFile.functions_default _ _ (Load.app_components hload c hcomponent).1, ?_⟩,
    fun u hu => App.generatedImports_cases hu, fun u hu => ?_⟩
  · rw [Function.ofDefinition_name]
    exact (App.component_name hload hcheck options hcomponent).1
  · simp only [App.linkedImports, List.mem_append] at hu
    rcases hu with (hu | hu) | hu
    · obtain ⟨linked, hmem, hlies, hkind, hsheet⟩ := App.sheetImports_linked hload hcheck hsteps hfile hu
      exact ⟨linked, hmem, hlies, fun _ => hsheet, by simp [Import.entries, hkind]⟩
    · obtain ⟨linked, hmem, hlies, hkind, hexports⟩ := App.contextsImport_linked hload hcheck hsteps hfile hu
      exact ⟨linked, hmem, hlies, fun hk => absurd hk hkind, hexports⟩
    · obtain ⟨r, hr, rfl⟩ := List.mem_map.1 hu
      obtain ⟨linked, hmem, hlies, hkind, hexports⟩ :=
        App.referenceImport_linked hload hcheck hwritten hsteps hfile (List.mem_eraseDups.1 hr)
      exact ⟨linked, hmem, hlies, fun hk => absurd hk hkind, hexports⟩

/-- The first file imports both stylesheets, a context, a component and a definition inside
that component. -/
def sharedBadge : Json :=
  .object [("components", .array
    [.object [("name", .string "App"), ("provideContexts", .string "theme"),
      ("children", .array [.object [("type", .string "Card")], .object [("type", .string "Badge")]])],
      .object [("name", .string "Card"), ("useContexts", .string "theme"),
        ("children", .object [("type", .string "Component"), ("name", .string "Badge")])]])]

theorem compile_links_sharedBadge :
    ∃ output app c a, compile sharedBadge { componentDir := "src/./ui/" } = .ok output ∧
      back ∉ Text.splitAt '/' "src/./ui/".toList ∧ Load.app sharedBadge = .ok app ∧ app.components[0]? = some c ∧
      output.FileOf app { componentDir := "src/./ui/" } 0 c a ∧
      (app.linkedImports { componentDir := "src/./ui/" } 0 c).map Import.source =
        ["../../styles/global.css", "../../styles/app.scss", "../../contexts", "./Card", "./Card"] ∧
      ∀ u ∈ app.linkedImports { componentDir := "src/./ui/" } 0 c, ∃ linked ∈ output.files,
        linked.LiesAt a.path u.source ∧
        ∀ e ∈ u.entries, linked.Exports app { componentDir := "src/./ui/" } output e.1 e.2 := by
  have hlinks : ((Load.app sharedBadge).toOption.bind fun app => app.components[0]?.map fun c =>
      (app.linkedImports { componentDir := "src/./ui/" } 0 c).map Import.source) =
        some ["../../styles/global.css", "../../styles/app.scss", "../../contexts", "./Card", "./Card"] := by
    decide +kernel
  obtain ⟨output, h⟩ : ∃ output, compile sharedBadge { componentDir := "src/./ui/" } = .ok output :=
    exists_ok_of_isOk (by decide +kernel)
  have hdir : back ∉ Text.splitAt '/' "src/./ui/".toList := by decide
  obtain ⟨app, hload, hfiles⟩ := compile_links h hdir
  rw [hload] at hlinks
  obtain ⟨c, hc, hsources⟩ := Option.map_eq_some_iff.1 hlinks
  obtain ⟨a, hfile, -, -, hlinked⟩ := hfiles 0 c hc
  refine ⟨output, app, c, a, h, hdir, hload, hc, hfile, hsources, fun u hu => ?_⟩
  obtain ⟨linked, hmem, hlies, -, hexports⟩ := hlinked u hu
  exact ⟨linked, hmem, hlies, hexports⟩

end ViewTree
