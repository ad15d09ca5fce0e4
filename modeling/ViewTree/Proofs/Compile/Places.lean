import ViewTree.Proofs.Compile.Links

/-!
# Where the files of an output lie

The path of an artifact is a name, alone or in one of the two directories that the options
give for its kind (`compile_artifact_path`). If the directories lie below the root of the
output, so do the artifacts, and no two of them lie at one place.
-/

namespace ViewTree

open FilePath (back steps IsName)
open ComponentFile (dropSlashes)

/-! ## Paths that stay inside -/

/-- A path that starts with a name and never goes back. -/
def FilePath.Inside (path : String) : Prop := (path.toList.head?.any (· != '/')) = true ∧ back ∉ steps path

instance : DecidablePred FilePath.Inside := fun path =>
  inferInstanceAs (Decidable ((path.toList.head?.any (· != '/')) = true ∧ back ∉ steps path))

/-- The directories of the options lie below the root of the output. That of the components
is not the root itself, where the contexts module lies. -/
structure Options.Confined (options : Options) : Prop where
  components : FilePath.Inside options.componentDir
  apart : steps options.componentDir ≠ []
  styles : FilePath.Inside options.styleDir

theorem FilePath.Inside.head_ne {path : String} (h : Inside path) : path.toList.head? ≠ some '/' := by
  intro hslash
  have hany := h.1
  rw [hslash] at hany
  exact absurd hany (by decide)

theorem FilePath.steps_file (dir : String) {name : String} (hname : IsName name) :
    steps (dropSlashes dir ++ "/" ++ name) = steps dir ++ [name.toList] := by
  rw [steps_slash, steps_dropSlashes, steps_name hname.1 hname.2.1]

theorem FilePath.inside_name {name : String} (h : IsName name) : Inside name := by
  constructor
  · cases hlist : name.toList with
    | nil =>
      have hstep := h.2.1
      rw [hlist] at hstep
      exact absurd hstep (by decide)
    | cons c cs =>
      have hc : c ≠ '/' := by
        rintro rfl
        exact h.1 (hlist ▸ List.mem_cons_self)
      simpa using hc
  · rw [steps_name h.1 h.2.1, List.mem_singleton]
    exact Ne.symm h.2.2

/-- The path of a file starts as that of its directory, or with a slash for an empty one. -/
theorem FilePath.head?_file (dir name : String) :
    (dropSlashes dir ++ "/" ++ name).toList.head? = some (dir.toList.head?.getD '/') := by
  obtain ⟨slashes, hsplit, hslashes⟩ := toList_dropSlashes dir
  rw [hsplit]
  cases hdir : (dropSlashes dir).toList with
  | nil =>
    cases slashes with
    | nil => simp [hdir]
    | cons c cs => simp [hdir, hslashes c List.mem_cons_self]
  | cons c cs => simp [hdir]

/-- A file of a directory that stays inside does so too. -/
theorem FilePath.Inside.file {dir name : String} (h : Inside dir) (hname : IsName name) :
    Inside (dropSlashes dir ++ "/" ++ name) := by
  constructor
  · have hhead := h.1
    rw [head?_file]
    cases hdir : dir.toList.head? with
    | none => simp [hdir] at hhead
    | some c => simpa [hdir] using hhead
  · rw [steps_file dir hname, List.mem_append, List.mem_singleton, not_or]
    exact ⟨h.2, Ne.symm hname.2.2⟩

/-! ## Directories -/

/-- The directory of the options that artifacts of a kind lie in. The contexts module lies in
none of them, but at the root of the output. -/
def Options.directoryOf (options : Options) : ArtifactKind → Option String
  | .component => some options.componentDir
  | .globalStylesheet => some options.styleDir
  | .styleModule => some options.styleDir
  | .contexts => none

/-- The path of an artifact of a kind. -/
def Options.pathOf (options : Options) (kind : ArtifactKind) (name : String) : String :=
  match options.directoryOf kind with
  | some dir => dropSlashes dir ++ "/" ++ name
  | none => name

theorem Options.Confined.directory {options : Options} (h : options.Confined) {kind : ArtifactKind} {dir : String}
    (hdir : options.directoryOf kind = some dir) : FilePath.Inside dir := by
  cases kind with
  | component => exact Option.some.inj hdir ▸ h.components
  | globalStylesheet => exact Option.some.inj hdir ▸ h.styles
  | styleModule => exact Option.some.inj hdir ▸ h.styles
  | contexts => cases hdir

theorem Options.steps_pathOf (options : Options) (kind : ArtifactKind) {name : String} (hname : IsName name) :
    steps (options.pathOf kind name) = (options.directoryOf kind).elim [] steps ++ [name.toList] := by
  unfold pathOf
  cases options.directoryOf kind with
  | some dir => exact FilePath.steps_file dir hname
  | none => exact FilePath.steps_name hname.1 hname.2.1

/-! ## The paths of an output -/

/-- The names of the files in an output, which are no names of cache entries. -/
structure IsArtifactName (name : String) : Prop where
  isName : IsName name
  ending_ne : ending name ≠ ['n', 'o', 's']

theorem ending_extension (name : String) (platform : Platform) :
    ending (name ++ "." ++ platform.extension) ∈ [['x', 's', 'j'], ['s', 'j', '.']] := by
  cases platform with
  | web =>
    rw [ending_append _ (by decide)]
    decide
  | crossPlatform =>
    rw [String.append_assoc, ending_append _ (by decide)]
    decide

theorem isArtifactName_component {name : String} (h : Text.isIdentifier name = true) (platform : Platform) :
    IsArtifactName (name ++ "." ++ platform.extension) := by
  refine ⟨ComponentFile.isName_of_isIdentifier h platform, fun hending => ?_⟩
  have hmem := ending_extension name platform
  rw [hending] at hmem
  exact absurd hmem (by decide)

theorem isArtifactName_fixed {name : String} (h : name ∈ ["global.css", "app.scss", "contexts.js"]) :
    IsArtifactName name := by
  simp only [List.mem_cons, List.not_mem_nil, or_false] at h
  rcases h with rfl | rfl | rfl
  · exact ⟨⟨by decide, by decide, by decide⟩, by decide⟩
  · exact ⟨⟨by decide, by decide, by decide⟩, by decide⟩
  · exact ⟨⟨by decide, by decide, by decide⟩, by decide⟩

section

variable {document : Json} {options : Options} {output : Output} (h : compile document options = .ok output)

include h

/-- The paths of an output: those of the components, of the two stylesheets, and of the
contexts module if there is one. -/
theorem compile_paths : ∃ (names : List String) (platform : Platform) (contexts : Bool), names.Nodup ∧
    (∀ name ∈ names, Text.isIdentifier name = true) ∧
    output.files.map Artifact.path =
      (names.map fun name => dropSlashes options.componentDir ++ "/" ++ (name ++ "." ++ platform.extension)) ++
        [dropSlashes options.styleDir ++ "/" ++ "global.css", dropSlashes options.styleDir ++ "/" ++ "app.scss"] ++
        if contexts then ["contexts.js"] else [] := by
  obtain ⟨app, files, hload, hcheck, hwritten, rfl⟩ := compile_eq_ok h
  have hpaths : files.map ComponentFile.path = (app.components.map fun c =>
      (app.scope options).functionName c.head).map (ComponentFile.pathOf (app.scope options)) := by
    rw [hwritten.paths, List.map_map]
    rfl
  have hkinds := congrArg (List.map Prod.snd)
    (Output.artifacts_paths hpaths app (app.scope options).contexts options)
  refine ⟨app.components.map fun c => (app.scope options).functionName c.head, (app.scope options).platform,
    !(app.scope options).contexts.isEmpty, App.component_names_nodup hload hcheck options, ?_, ?_⟩
  · intro name hname
    obtain ⟨c, hc, rfl⟩ := List.mem_map.1 hname
    exact (App.component_name hload hcheck options hc).2
  · have hsheet : ∀ sheet : String, dropSlashes options.styleDir ++ "/" ++ sheet =
        dropSlashes options.styleDir ++ ("/" ++ sheet) := fun sheet => String.append_assoc
    have hglobal : "/" ++ "global.css" = "/global.css" := by decide
    have hmodule : "/" ++ "app.scss" = "/app.scss" := by decide
    have hcomponents : (ComponentFile.pathOf (app.scope options)) = fun name =>
        dropSlashes options.componentDir ++ "/" ++ (name ++ "." ++ (app.scope options).platform.extension) := by
      funext name
      exact ComponentFile.pathOf_eq_dir (app.scope options) name
    rw [List.map_map, List.map_append, List.map_append, List.map_map, apply_ite (List.map Prod.snd)] at hkinds
    rw [hsheet, hsheet, hglobal, hmodule, ← hcomponents]
    refine hkinds.trans ?_
    cases (app.scope options).contexts.isEmpty <;> rfl

/-- The path of an artifact is a name in the directory of its kind. -/
theorem compile_artifact_path {f : Artifact} (hf : f ∈ output.files) :
    ∃ name, IsArtifactName name ∧ f.path = options.pathOf f.kind name := by
  obtain ⟨app, files, hload, hcheck, hwritten, rfl⟩ := compile_eq_ok h
  rcases List.mem_append.1 hf with hf | hf
  · rcases List.mem_append.1 hf with hf | hf
    · obtain ⟨file, hfile, rfl⟩ := List.mem_map.1 hf
      have hpath : file.path ∈ files.map ComponentFile.path := List.mem_map_of_mem hfile
      rw [hwritten.paths] at hpath
      obtain ⟨c, hc, hpath⟩ := List.mem_map.1 hpath
      have hname := (App.component_name hload hcheck options hc).2
      exact ⟨_, isArtifactName_component hname _, hpath.symm.trans (ComponentFile.pathOf_eq_dir _ _)⟩
    · simp only [List.mem_cons, List.not_mem_nil, or_false] at hf
      rcases hf with rfl | rfl
      · exact ⟨ComponentFile.globalSheet, isArtifactName_fixed (by decide), rfl⟩
      · exact ⟨ComponentFile.styleModuleSheet, isArtifactName_fixed (by decide), rfl⟩
  · rw [List.mem_ite_nil_left, List.mem_singleton] at hf
    obtain ⟨-, rfl⟩ := hf
    exact ⟨Output.contextsPath, isArtifactName_fixed (by decide), rfl⟩

theorem compile_artifact_steps {f : Artifact} (hf : f ∈ output.files) :
    ∃ before name, IsArtifactName name ∧ steps f.path = before ++ [name.toList] := by
  obtain ⟨name, hname, hpath⟩ := compile_artifact_path h hf
  exact ⟨_, name, hname, hpath ▸ Options.steps_pathOf options f.kind hname.isName⟩

theorem compile_inside (hconfined : options.Confined) {f : Artifact} (hf : f ∈ output.files) :
    FilePath.Inside f.path := by
  obtain ⟨name, hname, hpath⟩ := compile_artifact_path h hf
  rw [hpath]
  unfold Options.pathOf
  split
  · rename_i dir hdir
    exact (hconfined.directory hdir).file hname.isName
  · exact FilePath.inside_name hname.isName

theorem compile_steps : ∃ (names : List String) (platform : Platform) (contexts : Bool), names.Nodup ∧
    (output.files.map fun f => steps f.path) =
      (names.map fun name => steps options.componentDir ++ [(name ++ "." ++ platform.extension).toList]) ++
        [steps options.styleDir ++ ["global.css".toList], steps options.styleDir ++ ["app.scss".toList]] ++
        if contexts then [["contexts.js".toList]] else [] := by
  obtain ⟨names, platform, contexts, hnames, hidentifiers, hpaths⟩ := compile_paths h
  have hsheet : ∀ sheet ∈ ["global.css", "app.scss", "contexts.js"], IsName sheet :=
    fun _ hmem => (isArtifactName_fixed hmem).isName
  have hcomponents : (names.map fun name =>
        steps (dropSlashes options.componentDir ++ "/" ++ (name ++ "." ++ platform.extension))) =
      names.map fun name => steps options.componentDir ++ [(name ++ "." ++ platform.extension).toList] :=
    List.map_congr_left fun name hname =>
      FilePath.steps_file _ (ComponentFile.isName_of_isIdentifier (hidentifiers name hname) platform)
  have hmodule := hsheet "contexts.js" (by simp)
  refine ⟨names, platform, contexts, hnames, ?_⟩
  have hsteps := congrArg (List.map steps) hpaths
  simp only [List.map_map, List.map_append, Function.comp_def, apply_ite (List.map steps), List.map_cons,
    List.map_nil, FilePath.steps_file _ (hsheet "global.css" (by simp)),
    FilePath.steps_file _ (hsheet "app.scss" (by simp)), FilePath.steps_name hmodule.1 hmodule.2.1,
    hcomponents] at hsteps
  exact hsteps

/-- The artifacts of an output lie at different places. -/
theorem compile_steps_nodup (hconfined : options.Confined) : (output.files.map fun f => steps f.path).Nodup := by
  obtain ⟨names, platform, contexts, hnames, hsteps⟩ := compile_steps h
  rw [hsteps]
  have hcomponents : Function.Injective fun name : String =>
      steps options.componentDir ++ [(name ++ "." ++ platform.extension).toList] := by
    intro a b hab
    have hlast := String.toList_injective (List.singleton_inj.1 (List.append_cancel_left hab))
    rwa [String.append_left_inj, String.append_left_inj] at hlast
  refine ((hnames.map hcomponents).append ?_ ?_).append ?_ ?_
  · simp
  · -- both sheets end in `css`, and no component file does
    intro place hplace hsheet
    obtain ⟨name, -, rfl⟩ := List.mem_map.1 hplace
    have hending := ending_extension name platform
    simp only [List.mem_cons, List.not_mem_nil, or_false] at hsheet
    rcases hsheet with heq | heq
    · rw [String.toList_injective (List.singleton_inj.1 (List.append_inj_right' heq rfl))] at hending
      exact absurd hending (by decide)
    · rw [String.toList_injective (List.singleton_inj.1 (List.append_inj_right' heq rfl))] at hending
      exact absurd hending (by decide)
  · cases contexts <;> simp
  · -- the contexts module lies at the root, and it is no sheet
    intro place hplace hmodule
    rw [List.mem_ite_nil_right, List.mem_singleton] at hmodule
    rw [hmodule.2, List.mem_append, List.mem_map] at hplace
    rcases hplace with ⟨name, -, heq⟩ | hsheet
    · exact hconfined.apart (List.append_inj_left' (heq.trans (List.nil_append _).symm) rfl)
    · simp only [List.mem_cons, List.not_mem_nil, or_false] at hsheet
      rcases hsheet with heq | heq
      · have hlast := List.append_inj_right' ((List.nil_append _).trans heq) rfl
        exact absurd hlast (by decide)
      · have hlast := List.append_inj_right' ((List.nil_append _).trans heq) rfl
        exact absurd hlast (by decide)

end

end ViewTree
