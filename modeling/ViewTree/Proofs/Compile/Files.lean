import ViewTree.Proofs.Import.Block
import ViewTree.Proofs.Markup.Needs
import ViewTree.Proofs.Names.Unique

/-!
# The files of an output

The paths of an output follow from the names of the components, which are different
identifiers, so no two files share a path. Of the imports the compiler adds, only those
of the two stylesheets are for their effects, and only the file of the root component
has them. No other import the compiler adds for the web has the source of a sheet:
references lead to files that are named by identifiers.
-/

namespace ViewTree

/-! ## References to other files -/

/-- The references lead to files of components. -/
def Needs.Placed (s : Scope) (needs : Needs) : Prop := ∀ r ∈ needs.references, ∃ owner, r.file = s.fileName owner

/-- All that a component's file refers to is in files of components. -/
theorem ComponentFile.functions_placed (s : Scope) (index : Nat) (c : Node) :
    Needs.Placed s (functions s index c).notes := by
  intro r hr
  obtain ⟨-, entry, -, -, rfl⟩ := (functions_accounted s index c).references r hr
  exact ⟨entry.owner, rfl⟩

/-! ## Texts that end differently -/

/-- The last three characters of a text, the last one first. -/
def ending (s : String) : List Char := s.toList.reverse.take 3

theorem ending_append (a : String) {b : String} (h : 3 ≤ b.toList.length) : ending (a ++ b) = ending b := by
  unfold ending
  rw [String.toList_append, List.reverse_append, List.take_append_of_le_length (by simpa using h)]

/-! ## Names of components -/

theorem Scope.functionName_eq {s : Scope} {head : Head} {name : String} (h : s.naming.nameOf head = some name) :
    s.functionName head = name := by
  unfold functionName Naming.display
  rw [h]
  rfl

/-- In an app that passes its checks, the names of nodes are identifiers. -/
theorem App.isIdentifier_of_nameOf {app : App} (hcheck : app.checkProblems = []) {options : Options} {head : Head}
    {name : String} (h : (app.scope options).naming.nameOf head = some name) : Text.isIdentifier name = true := by
  obtain ⟨⟨table, hnames⟩, -, -⟩ := check_nil hcheck
  obtain ⟨hsound, hsub⟩ := Names.resolve_names hnames
  exact hsound.identifiers name (hsub.subset (List.mem_map.2 ⟨_, mem_of_lookup h, rfl⟩))

/-- In an app that passes its checks, the function of a definition has the name that was
resolved for it. -/
theorem App.definition_name {document : Json} {app : App} (hload : Load.app document = .ok app)
    (hcheck : app.checkProblems = []) (options : Options) {d : Node} (hd : d ∈ app.definitions) :
    (app.scope options).naming.nameOf d.head = some ((app.scope options).functionName d.head) := by
  obtain ⟨⟨table, hnames⟩, -, -⟩ := check_nil hcheck
  have hnamed := Names.resolve_named hnames (fun c hc => (Load.app_components hload c hc).2) d hd
  obtain ⟨name, hname⟩ : ∃ name, (app.scope options).naming.nameOf d.head = some name :=
    Option.isSome_iff_exists.1 hnamed
  rw [Scope.functionName_eq hname]
  exact hname

/-- In an app that passes its checks, the function of a component has the name that was
resolved for it, which is an identifier. -/
theorem App.component_name {document : Json} {app : App} (hload : Load.app document = .ok app)
    (hcheck : app.checkProblems = []) (options : Options) {c : Node} (hc : c ∈ app.components) :
    (app.scope options).naming.nameOf c.head = some ((app.scope options).functionName c.head) ∧
      Text.isIdentifier ((app.scope options).functionName c.head) = true := by
  have hmem : c ∈ app.definitions :=
    List.mem_flatMap.2 ⟨c, hc, List.mem_filter.2 ⟨List.mem_cons_self, (Load.app_components hload c hc).1⟩⟩
  have hname := definition_name hload hcheck options hmem
  exact ⟨hname, isIdentifier_of_nameOf hcheck hname⟩

/-- The names of the components differ. -/
theorem App.component_names_nodup {document : Json} {app : App} (hload : Load.app document = .ok app)
    (hcheck : app.checkProblems = []) (options : Options) :
    (app.components.map fun c => (app.scope options).functionName c.head).Nodup := by
  obtain ⟨⟨table, hnames⟩, -, -⟩ := check_nil hcheck
  obtain ⟨hsound, hsub⟩ := Names.resolve_names hnames
  have hfilter : (app.components.filterMap fun c => (app.scope options).naming.nameOf c.head) =
      app.components.map fun c => (app.scope options).functionName c.head := by
    rw [← List.filterMap_eq_map]
    exact List.filterMap_congr fun c hc => (component_name hload hcheck options hc).1
  rw [← hfilter]
  exact Assigned.filterMap_nodup (hsound.nodup.sublist hsub) (Load.components_positions_nodup hload)

/-! ## Stylesheets -/

namespace ComponentFile

/-- The imports of the two stylesheets, as component files write them. -/
def sheets (options : Options) : List Import :=
  let dir := toRoot options.componentDir ++ dropSlashes options.styleDir
  [Import.ofSource (dir ++ "/" ++ globalSheet), Import.ofSource (dir ++ "/" ++ styleModuleSheet)]

theorem sheetImports_eq (s : Scope) (index : Nat) :
    sheetImports s index = if s.platform = .web ∧ index = s.app.rootIndex then sheets s.options else [] := by
  unfold sheetImports
  cases s.platform with
  | web => simp [Platform.importsStylesheets, sheets]
  | crossPlatform => simp [Platform.importsStylesheets]

theorem mem_namesImport {source : String} {names : List String} {i : Import} (h : i ∈ namesImport source names) :
    i = Import.ofNames source names := by
  unfold namesImport at h
  rw [List.mem_ite_nil_left] at h
  exact List.mem_singleton.1 h.2

theorem mem_styleImports {platform : Platform} {usage : StyleUsage} {runtimeModule : String} {i : Import}
    (h : i ∈ platform.styleImports usage runtimeModule) :
    ∃ names, i = Import.ofNames runtimeModule names ∨ i = Import.ofNames Platform.nativeSource names := by
  cases platform with
  | web => cases h
  | crossPlatform =>
    simp only [Platform.styleImports, List.mem_append, List.mem_ite_nil_left, List.mem_ite_nil_right,
      List.mem_singleton] at h
    rcases h with ⟨-, h⟩ | ⟨-, h⟩
    · exact ⟨_, .inl h⟩
    · exact ⟨_, .inr h⟩

theorem elementImport_eq_some {platform : Platform} {tag : String} {u : Import}
    (h : platform.elementImport tag = some u) :
    Platform.nativeElements.contains tag = true ∧ u = Import.ofNames Platform.nativeSource [tag] := by
  cases platform with
  | web => cases h
  | crossPlatform =>
    simp only [Platform.elementImport, Option.ite_none_right_eq_some] at h
    exact ⟨h.1, (Option.some.inj h.2).symm⟩

theorem referenceImport_kind (r : Reference) : (referenceImport r).kind ≠ .effects := by
  unfold referenceImport
  dsimp only
  split
  · exact fun h => by cases h
  · exact fun h => by cases h

theorem referenceImport_source (r : Reference) : (referenceImport r).source = "./" ++ r.file := by
  unfold referenceImport
  dsimp only
  split
  · rfl
  · rfl

/-- Only the sheets are imported for their effects. -/
theorem implicitImports_effects (s : Scope) (index : Nat) (needs : Needs) :
    (implicitImports s index needs).filter (fun i => i.kind == .effects) = sheetImports s index := by
  have hnil : ∀ {is : List Import}, (∀ i ∈ is, i.kind ≠ .effects) → is.filter (fun i => i.kind == .effects) = [] := by
    intro is his
    exact List.filter_eq_nil_iff.2 fun i hi => by simpa using his i hi
  have hnames : ∀ source names, ∀ i ∈ namesImport source names, i.kind ≠ .effects := by
    rintro source names i hi
    rw [mem_namesImport hi]
    exact fun h => by cases h
  have hstyle : ∀ i ∈ s.platform.styleImports needs.usage s.options.runtimeModule, i.kind ≠ .effects := by
    intro i hi
    obtain ⟨names, rfl | rfl⟩ := mem_styleImports hi
    · exact fun h => by cases h
    · exact fun h => by cases h
  have helements : ∀ i ∈ needs.tags.eraseDups.filterMap s.platform.elementImport, i.kind ≠ .effects := by
    intro i hi
    obtain ⟨tag, -, hi⟩ := List.mem_filterMap.1 hi
    rw [(elementImport_eq_some hi).2]
    exact fun h => by cases h
  have hreferences : ∀ i ∈ referenceImports needs, i.kind ≠ .effects := by
    intro i hi
    obtain ⟨r, -, rfl⟩ := List.mem_map.1 hi
    exact referenceImport_kind r
  have hsheets : (sheetImports s index).filter (fun i => i.kind == .effects) = sheetImports s index := by
    rw [sheetImports_eq]
    split
    · rfl
    · rfl
  unfold implicitImports plainImports
  simp only [List.filter_append, hsheets, hnil (hnames _ _), hnil hstyle, hnil helements, hnil hreferences,
    List.append_nil]

theorem dot_mem_drop (dir : String) {name : String} (h : '.' ∈ name.toList.drop 1) :
    '.' ∈ (dir ++ "/" ++ name).toList.drop 2 := by
  have hslash : (dir ++ "/" ++ name).toList = dir.toList ++ '/' :: name.toList := by simp
  rw [hslash]
  cases hd : dir.toList with
  | nil => simpa using h
  | cons c cs =>
    cases cs with
    | nil => simpa using List.mem_of_mem_drop h
    | cons d cs => simp [List.mem_of_mem_drop h]

theorem sheet_source {options : Options} {sheet : Import} (h : sheet ∈ sheets options) :
    ending sheet.source = ['s', 's', 'c'] ∧ '.' ∈ sheet.source.toList.drop 2 := by
  simp only [sheets, List.mem_cons, List.not_mem_nil, or_false] at h
  rcases h with rfl | rfl
  · exact ⟨ending_append _ (b := globalSheet) (by decide), dot_mem_drop _ (by decide)⟩
  · exact ⟨ending_append _ (b := styleModuleSheet) (by decide), dot_mem_drop _ (by decide)⟩

/-- On the web, no import that the compiler adds has the source of a sheet but those of
the sheets. -/
theorem implicitImports_sheet {s : Scope} {index : Nat} {needs : Needs} (hweb : s.platform = .web)
    (hfile : ∀ owner, Text.continues (s.fileName owner) = true) (hplaced : needs.Placed s) {i sheet : Import}
    (hi : i ∈ implicitImports s index needs) (hsheet : sheet ∈ sheets s.options) (hsource : i.source = sheet.source) :
    i ∈ sheetImports s index := by
  obtain ⟨hending, hdot⟩ := sheet_source hsheet
  rw [← hsource] at hending hdot
  simp only [implicitImports, plainImports, List.mem_append, hweb] at hi
  rcases hi with ((((hi | hi) | hi) | hi) | hi) | hi
  · exact hi
  -- Hooks and the contexts module: their sources end differently.
  · have hreact : ending "react" = ['s', 's', 'c'] := by
      rw [mem_namesImport hi] at hending
      exact hending
    exact absurd hreact (by decide)
  · rw [mem_namesImport hi, Import.ofNames, ending_append _ (by decide)] at hending
    exact absurd hending (by decide)
  -- The web needs no runtime and no element imports.
  · cases hi
  · obtain ⟨tag, -, hi⟩ := List.mem_filterMap.1 hi
    cases hi
  -- References: past `./` there is an identifier, which has no dot.
  · obtain ⟨r, hr, rfl⟩ := List.mem_map.1 hi
    obtain ⟨owner, ho⟩ := hplaced r (List.mem_eraseDups.1 hr)
    rw [referenceImport_source, ho, String.toList_append] at hdot
    have hc := List.all_eq_true.1 (hfile owner) '.' hdot
    exact absurd hc (by decide)

end ComponentFile

theorem App.fileName_continues {document : Json} {app : App} (hload : Load.app document = .ok app)
    (hcheck : app.checkProblems = []) (options : Options) (owner : Nat) :
    Text.continues ((app.scope options).fileName owner) = true := by
  unfold Scope.fileName
  split
  · rename_i c hc
    exact Text.continues_of_isIdentifier (component_name hload hcheck options (List.mem_of_getElem? hc)).2
  · rfl

/-- The local names of the document's imports are not empty. -/
theorem App.userImports_named {document : Json} {app : App} (hload : Load.app document = .ok app) {c : Node}
    (hc : c ∈ app.components) : ∀ i ∈ app.userImports c, ∀ e ∈ i.entries, e.2 ≠ "" := by
  intro i hi e he
  have hid : Text.isIdentifier e.2 = true := by
    rcases List.mem_append.1 hi with hi | hi
    · exact Load.app_imports hload i hi e he
    · obtain ⟨n, hn, hi⟩ := List.mem_flatMap.1 hi
      exact Load.app_forall Load.built_imports hload n (List.mem_flatMap.2 ⟨c, hc, hn⟩) i hi e he
  intro hempty
  rw [hempty] at hid
  cases hid

/-! ## Contexts -/

theorem Contexts.bind_nil {app : App} {naming : Naming} {table : NameTable} {contexts : Contexts}
    (h : (bind app naming table).1 = .ok contexts) (hp : provisions app = []) : contexts = [] := by
  unfold bind at h
  rw [hp] at h
  dsimp only at h
  split at h
  · exact (Except.ok.inj h).symm
  · cases h

/-- There are contexts exactly if some definition provides one. -/
theorem App.scope_contexts_isEmpty {app : App} (h : app.checkProblems = []) (options : Options) :
    (app.scope options).contexts.isEmpty = !app.definitions.any fun d => !d.head.provides.isEmpty := by
  cases hany : app.definitions.any fun d => !d.head.provides.isEmpty with
  | true =>
    obtain ⟨d, hd, hp⟩ := List.any_eq_true.1 hany
    obtain ⟨p, ps, hps⟩ := List.exists_cons_of_ne_nil (l := d.head.provides) (by simpa using hp)
    have hfound := scope_found h options d hd p (hps ▸ List.mem_cons_self)
    cases hc : (app.scope options).contexts with
    | nil => simp [hc] at hfound
    | cons c cs => rfl
  | false =>
    obtain ⟨-, ⟨contexts, hcontexts⟩, -⟩ := check_nil h
    have hnone : Contexts.provisions app = [] := by
      refine List.flatMap_eq_nil_iff.2 fun d hd => ?_
      have hp := List.any_eq_false.1 hany d hd
      simpa using hp
    rw [scope_contexts hcontexts, Contexts.bind_nil hcontexts hnone]
    rfl

/-! ## Paths -/

theorem Written.paths {s : Scope} {cs : List Node} {index : Nat} {files : List ComponentFile}
    (hw : Written s index cs files) :
    files.map ComponentFile.path = cs.map fun c => ComponentFile.pathOf s (s.functionName c.head) :=
  hw.map_eq fun _ _ _ ho => (ComponentFile.ofComponent_eq_ok ho).1

theorem ComponentFile.pathOf_eq (s : Scope) (name : String) :
    pathOf s name = dropSlashes s.options.componentDir ++ "/" ++ name ++ "." ++
      if s.platform = .web then "jsx" else "js" := by
  unfold pathOf
  cases s.platform with
  | web => rfl
  | crossPlatform => rfl

theorem ComponentFile.pathOf_injective (s : Scope) : Function.Injective (pathOf s) := by
  intro a b h
  unfold pathOf at h
  rwa [String.append_left_inj, String.append_left_inj, String.append_right_inj] at h

/-- The way component files end: `jsx` or `.js`, with the last character first. -/
theorem ComponentFile.ending_pathOf (s : Scope) (name : String) :
    ending (pathOf s name) ≠ ['s', 's', 'c'] ∧ '/' ∈ (pathOf s name).toList := by
  constructor
  · unfold pathOf
    cases s.platform with
    | web => rw [ending_append _ (by decide)]; decide
    | crossPlatform => rw [String.append_assoc, ending_append _ (by decide)]; decide
  · simp [pathOf]

/-- The kinds and paths of the files of an output, in order. -/
theorem Output.artifacts_paths {s : Scope} {files : List ComponentFile} {names : List String}
    (hpaths : files.map ComponentFile.path = names.map (ComponentFile.pathOf s)) (app : App) (contexts : Contexts)
    (options : Options) :
    (Output.artifacts app files contexts options).map (fun f => (f.kind, f.path)) =
      (names.map fun name => (ArtifactKind.component, ComponentFile.pathOf s name)) ++
        [(.globalStylesheet, ComponentFile.dropSlashes options.styleDir ++ "/global.css"),
          (.styleModule, ComponentFile.dropSlashes options.styleDir ++ "/app.scss")] ++
        if contexts.isEmpty then [] else [(.contexts, "contexts.js")] := by
  have hcomponents : (files.map fun c => (ArtifactKind.component, c.path)) =
      names.map fun name => (ArtifactKind.component, ComponentFile.pathOf s name) := by
    have hkinds := congrArg (List.map fun path => (ArtifactKind.component, path)) hpaths
    simpa only [List.map_map, Function.comp_def] using hkinds
  have hglobal : "/" ++ ComponentFile.globalSheet = "/global.css" := by decide
  have hmodule : "/" ++ ComponentFile.styleModuleSheet = "/app.scss" := by decide
  simp only [artifacts, List.map_append, List.map_map, Function.comp_def, hcomponents, List.map_cons, List.map_nil,
    String.append_assoc, hglobal, hmodule]
  cases contexts.isEmpty with
  | true => rfl
  | false => rfl

/-- No two of these paths are the same. -/
theorem Output.paths_nodup {names : List String} (hnames : names.Nodup) (s : Scope) (dir : String) (empty : Bool) :
    (names.map (ComponentFile.pathOf s) ++ [dir ++ "/global.css", dir ++ "/app.scss"] ++
      if empty then [] else ["contexts.js"]).Nodup := by
  have hsheets : ∀ sheet ∈ [dir ++ "/global.css", dir ++ "/app.scss"],
      ending sheet = ['s', 's', 'c'] ∧ '/' ∈ sheet.toList := by
    intro sheet hs
    simp only [List.mem_cons, List.not_mem_nil, or_false] at hs
    rcases hs with rfl | rfl
    · rw [ending_append _ (by decide)]
      exact ⟨by decide, by simp⟩
    · rw [ending_append _ (by decide)]
      exact ⟨by decide, by simp⟩
  have hfirst : (names.map (ComponentFile.pathOf s) ++ [dir ++ "/global.css", dir ++ "/app.scss"]).Nodup := by
    refine (hnames.map (ComponentFile.pathOf_injective s)).append ?_ ?_
    · rw [List.nodup_cons]
      refine ⟨fun h => ?_, List.nodup_singleton _⟩
      rw [List.mem_singleton, String.append_right_inj] at h
      exact absurd h (by decide)
    · -- both sheets end in `css`, and no component file does
      intro path hp hs
      obtain ⟨name, -, rfl⟩ := List.mem_map.1 hp
      exact (ComponentFile.ending_pathOf s name).1 (hsheets _ hs).1
  refine hfirst.append ?_ ?_
  · cases empty <;> simp
  · -- the path of the contexts module is the only one without a slash
    intro path hp hc
    have hslash : '/' ∈ path.toList := by
      rcases List.mem_append.1 hp with hp | hp
      · obtain ⟨name, -, rfl⟩ := List.mem_map.1 hp
        exact (ComponentFile.ending_pathOf s name).2
      · exact (hsheets path hp).2
    rw [List.mem_ite_nil_left, List.mem_singleton] at hc
    rw [hc.2] at hslash
    exact absurd hslash (by decide)

theorem Output.artifacts_paths_nodup {s : Scope} {files : List ComponentFile} {names : List String}
    (hpaths : files.map ComponentFile.path = names.map (ComponentFile.pathOf s)) (hnames : names.Nodup) (app : App)
    (contexts : Contexts) (options : Options) :
    ((Output.artifacts app files contexts options).map Artifact.path).Nodup := by
  have hsnd := congrArg (List.map Prod.snd) (artifacts_paths hpaths app contexts options)
  rw [List.map_map, List.map_append, List.map_append, List.map_map, apply_ite (List.map Prod.snd)] at hsnd
  exact hsnd ▸ paths_nodup hnames s (ComponentFile.dropSlashes options.styleDir) contexts.isEmpty

/-! ## The output -/

theorem ComponentFile.statement_infix {block : ImportBlock} {line : String} (h : line ∈ block.statements)
    (functions : List Function) : line.toList <:+: (sourceText block functions).toList := by
  have hline : line.toList <:+: block.render.toList := Text.infix_join "\n" h
  unfold sourceText
  dsimp only
  rw [String.toList_append, String.toList_append]
  split
  · rename_i hempty
    rw [String.isEmpty_iff.1 hempty] at hline
    rw [List.eq_nil_of_infix_nil hline]
    exact List.nil_infix
  · rw [String.toList_append]
    exact hline.trans ((List.prefix_append _ _).trans
      ((List.prefix_append _ _).trans (List.prefix_append _ _))).isInfix

/-- The imports that the compiler adds to the file of the component at place `i`. -/
def App.generatedImports (app : App) (options : Options) (i : Nat) (c : Node) : List Import :=
  ComponentFile.implicitImports (app.scope options) i (ComponentFile.functions (app.scope options) i c).notes

/-- How the stylesheets come into the file of the component at place `i`: of what the
compiler adds, only they are for their effects, and only the root component on the web
has them. There, every sheet has a statement. -/
structure SheetsIn (app : App) (options : Options) (i : Nat) (c : Node) (contents : String)
    (block : ImportBlock) : Prop where
  collected : ImportBlock.collect (app.userImports c) (app.generatedImports options i c)
    ((app.scope options).naming.functions c) = .ok block
  written : contents =
    ComponentFile.sourceText block (ComponentFile.functions (app.scope options) i c).value
  generated : (app.generatedImports options i c).filter (fun i => i.kind == .effects) =
    if (app.scope options).platform = .web ∧ i = app.rootIndex then ComponentFile.sheets options else []
  sources : (app.scope options).platform = .web → ∀ sheet ∈ ComponentFile.sheets options,
    (block.Has sheet.source ↔ i = app.rootIndex ∨ ∃ u ∈ app.userImports c, u.source = sheet.source)
  statements : (app.scope options).platform = .web → i = app.rootIndex →
    ∀ sheet ∈ ComponentFile.sheets options, ∃ line, line.toList <:+: contents.toList ∧
      (line = "import '" ++ sheet.source ++ "';" ∨ ∃ what, line = SourceGroup.statement what sheet.source)

section

variable {document : Json} {app : App} (hload : Load.app document = .ok app) (hcheck : app.checkProblems = [])
  {options : Options} {i : Nat} {c : Node} {sheet : Import} (hsheet : sheet ∈ ComponentFile.sheets options)
  {block : ImportBlock}
  (hblock : ImportBlock.collect (app.userImports c) (app.generatedImports options i c)
    ((app.scope options).naming.functions c) = .ok block)

include hload hcheck hsheet

/-- On the web, a generated import from the source of a sheet is that of a sheet, in the
root component. -/
theorem App.generatedImports_sheet (hweb : (app.scope options).platform = .web) {u : Import}
    (hu : u ∈ app.generatedImports options i c) (hsource : u.source = sheet.source) :
    i = app.rootIndex ∧ u ∈ ComponentFile.sheets options := by
  have hmem := ComponentFile.implicitImports_sheet hweb (fileName_continues hload hcheck options)
    (ComponentFile.functions_placed (app.scope options) i c) hu hsheet hsource
  rw [ComponentFile.sheetImports_eq, hweb, scope_app, scope_options, List.mem_ite_nil_right] at hmem
  exact ⟨hmem.1.2, hmem.2⟩

include hblock

theorem App.block_has_sheet (hweb : (app.scope options).platform = .web) :
    block.Has sheet.source ↔ i = app.rootIndex ∨ ∃ u ∈ app.userImports c, u.source = sheet.source := by
  constructor
  · intro hhas
    obtain ⟨u, hu, hsource⟩ := ImportBlock.has_of_collect hblock hhas
    rcases List.mem_append.1 hu with hu | hu
    · exact .inl (generatedImports_sheet hload hcheck hsheet hweb hu hsource).1
    · exact .inr ⟨u, hu, hsource⟩
  · rintro (hi | ⟨u, hu, hsource⟩)
    · have hmem : sheet ∈ (app.generatedImports options i c).filter fun i => i.kind == .effects := by
        rw [generatedImports, ComponentFile.implicitImports_effects, ComponentFile.sheetImports_eq, hweb, scope_app,
          scope_options, if_pos ⟨rfl, hi⟩]
        exact hsheet
      obtain ⟨hmem, hkind⟩ := List.mem_filter.1 hmem
      exact ImportBlock.collect_has hblock (.inl ⟨hmem, beq_iff_eq.1 hkind⟩)
    · exact hsource ▸ ImportBlock.collect_has hblock (.inr hu)

theorem App.block_loads_sheet (hweb : (app.scope options).platform = .web) (hc : c ∈ app.components)
    (hhas : block.Has sheet.source) : block.Loads sheet.source := by
  refine ImportBlock.loads_of_has hhas (ImportBlock.collect_bound hblock ?_)
  intro u hu hsource
  rcases List.mem_append.1 hu with hu | hu
  · have hu := (generatedImports_sheet hload hcheck hsheet hweb hu hsource).2
    have hentries : u.entries = [] := by
      simp only [ComponentFile.sheets, List.mem_cons, List.not_mem_nil, or_false] at hu
      rcases hu with rfl | rfl
      · rfl
      · rfl
    simp [hentries]
  · exact userImports_named hload hc u hu

end

/-- The file of a component that passed the checks, and how the sheets come into it. -/
theorem App.sheetsIn {document : Json} {app : App} (hload : Load.app document = .ok app)
    (hcheck : app.checkProblems = []) {options : Options} {i : Nat} {c : Node} (hc : c ∈ app.components)
    {file : ComponentFile} (ho : ComponentFile.ofComponent (app.scope options) i c = .ok file) :
    ∃ block, SheetsIn app options i c file.source block := by
  obtain ⟨-, block, hblock, hsource⟩ := ComponentFile.ofComponent_eq_ok ho
  refine ⟨block, hblock, hsource, ?_, ?_, ?_⟩
  · rw [generatedImports, ComponentFile.implicitImports_effects, ComponentFile.sheetImports_eq, scope_app, scope_options]
  · exact fun hweb sheet hsheet => block_has_sheet hload hcheck hsheet hblock hweb
  · intro hweb hi sheet hsheet
    have hhas := (block_has_sheet hload hcheck hsheet hblock hweb).2 (.inl hi)
    obtain ⟨line, hline, hform⟩ := block_loads_sheet hload hcheck hsheet hblock hweb hc hhas
    exact ⟨line, hsource ▸ ComponentFile.statement_infix hline _, hform⟩

/-- The output of a compilation: a file for each component, in order and under its
resolved name, then the two stylesheets, and the contexts module if some definition
provides a context. No two paths are the same, and the sheets come into the files as
`SheetsIn` says, where the root component is the one that the document names, or the
first one. -/
theorem compile_files {document : Json} {options : Options} {output : Output}
    (h : compile document options = .ok output) :
    ∃ app, Load.app document = .ok app ∧
      (∃ names : List String, (app.components.map fun c => (app.scope options).naming.nameOf c.head) = names.map some ∧
        output.files.map (fun f => (f.kind, f.path)) =
          (names.map fun name => (ArtifactKind.component, ComponentFile.dropSlashes options.componentDir ++ "/" ++ name ++
            "." ++ if options.resolvePlatform app.platform = .web then "jsx" else "js")) ++
          [(.globalStylesheet, ComponentFile.dropSlashes options.styleDir ++ "/global.css"),
            (.styleModule, ComponentFile.dropSlashes options.styleDir ++ "/app.scss")] ++
          if app.definitions.any fun d => !d.head.provides.isEmpty then [(.contexts, "contexts.js")] else []) ∧
      (output.files.map Artifact.path).Nodup ∧
      (app.components ≠ [] → ∃ root, app.components[app.rootIndex]? = some root ∧
        (app.rootComponent = none → app.rootIndex = 0) ∧
        ∀ name, app.rootComponent = some name → root.head.name = some name) ∧
      ∀ (i : Nat) (c : Node), app.components[i]? = some c → ∃ file block, output.files[i]? = some file ∧
        SheetsIn app options i c file.contents block := by
  obtain ⟨app, files, hload, hcheck, hwritten, rfl⟩ := compile_eq_ok h
  have hpaths : files.map ComponentFile.path = (app.components.map fun c =>
      (app.scope options).functionName c.head).map (ComponentFile.pathOf (app.scope options)) := by
    rw [hwritten.paths, List.map_map]
    rfl
  have hfiles := Output.artifacts_paths hpaths app (app.scope options).contexts options
  refine ⟨app, hload, ⟨app.components.map fun c => (app.scope options).functionName c.head, ?_, ?_⟩, ?_,
    Load.app_root hload, ?_⟩
  · rw [List.map_map]
    exact List.map_congr_left fun c hc => (App.component_name hload hcheck options hc).1
  · rw [App.scope_contexts_isEmpty hcheck options] at hfiles
    simp only [ComponentFile.pathOf_eq, App.scope_options, App.scope_platform, Bool.not_eq_true', ite_not,
      ← Bool.not_eq_true] at hfiles
    exact hfiles
  · exact Output.artifacts_paths_nodup hpaths (App.component_names_nodup hload hcheck options) app _ options
  · intro i c hc
    obtain ⟨file, ho, hfile⟩ := hwritten.artifact hc (app.scope options).contexts
    obtain ⟨block, hsheets⟩ := App.sheetsIn hload hcheck (List.mem_of_getElem? hc) ho
    exact ⟨_, block, hfile, hsheets⟩

/-- The second component is the root, and a definition inside it provides a context. -/
def innerContext : Json :=
  .object [("rootComponent", .string "App"), ("components", .array
    [.object [("name", .string "Home")],
      .object [("name", .string "App"), ("children", .object
        [("type", .string "div"), ("children", .object
          [("type", .string "Component"), ("provideContexts", .string "theme")])])]])]

theorem compile_files_inner_context :
    ∃ output app, compile innerContext {} = .ok output ∧ Load.app innerContext = .ok app ∧
      output.files.map (fun f => (f.kind, f.path)) =
        [(.component, "components/Home.jsx"), (.component, "components/App.jsx"),
          (.globalStylesheet, "styles/global.css"), (.styleModule, "styles/app.scss"), (.contexts, "contexts.js")] ∧
      (output.files.map Artifact.path).Nodup ∧
      (∃ root, app.components[1]? = some root ∧ root.head.name = some "App") ∧
      ∀ (i : Nat) (c : Node), app.components[i]? = some c → ∃ file block, output.files[i]? = some file ∧
        SheetsIn app {} i c file.contents block := by
  have hdocument : ((Load.app innerContext).toOption.map fun app =>
      (app.components.map (fun c => (app.scope {}).naming.nameOf c.head), app.platform,
        app.definitions.any fun d => !d.head.provides.isEmpty)) = some ([some "Home", some "App"], none, true) := by
    decide +kernel
  have hroot : ((Load.app innerContext).toOption.map fun app => (app.rootIndex, app.rootComponent)) =
      some (1, some "App") := by
    decide +kernel
  obtain ⟨output, h⟩ : ∃ output, compile innerContext {} = .ok output := exists_ok_of_isOk (by decide +kernel)
  obtain ⟨app, hload, ⟨names, hnames, hpaths⟩, hnodup, hrooted, hsheets⟩ := compile_files h
  simp only [hload, Except.toOption, Option.map_some, Option.some.injEq, Prod.mk.injEq] at hdocument hroot
  obtain ⟨hdocument, hplatform, hprovides⟩ := hdocument
  obtain rfl : ["Home", "App"] = names :=
    List.map_inj_right (fun _ _ => Option.some.inj) |>.1 (hdocument.symm.trans hnames)
  rw [hplatform, hprovides] at hpaths
  have hcomponents : app.components ≠ [] := fun hnil => by simp [hnil] at hdocument
  obtain ⟨root, hcomponent, -, hname⟩ := hrooted hcomponents
  rw [hroot.1] at hcomponent
  exact ⟨output, app, h, hload, hpaths, hnodup, ⟨root, hcomponent, hname "App" hroot.2⟩, hsheets⟩

end ViewTree
