import ViewTree.Proofs.Compile.Places
import ViewTree.Proofs.Files.Tree

/-!
# Which artifacts lie below the output directory

An artifact is written to its path in the output directory, where a path that starts at the
root of the file system stands for itself. The path of an artifact starts there if the
directory of its kind does, and also if that directory is empty: the slash after the
directory then comes first. Every other artifact lies below the output directory, unless its
own directory goes back (`compile_artifact_below`).
-/

namespace ViewTree

open FilePath (back steps join)
open ComponentFile (dropSlashes)

namespace FilePath

/-- A path that starts at the root of the file system. -/
def Absolute (path : String) : Prop := path.toList.head? = some '/'

instance (path : String) : Decidable (Absolute path) := inferInstanceAs (Decidable (_ = _))

theorem Absolute.join {path : String} (h : Absolute path) (dir : String) : FilePath.join dir path = path := if_pos h

/-- The slash after an empty directory is the first character of the path. -/
theorem absolute_file {dir name : String} : Absolute (dropSlashes dir ++ "/" ++ name) ↔ dir = "" ∨ Absolute dir := by
  unfold Absolute
  rw [head?_file, Option.some.injEq]
  cases hhead : dir.toList.head? with
  | none =>
    have hempty : dir = "" := by simpa using hhead
    simp [hempty]
  | some c =>
    have hne : dir ≠ "" := by
      rintro rfl
      simp at hhead
    simp [hne]

theorem IsName.not_absolute {name : String} (h : IsName name) : ¬ Absolute name :=
  fun hslash => h.1 (List.mem_of_head? hslash)

end FilePath

open FilePath (Absolute)

/-- An artifact's path is absolute exactly if the directory of its kind is empty or absolute
itself. Then the artifact is written there, whatever the output directory. Any other artifact
whose directory never goes back is written below the output directory. -/
theorem compile_artifact_below {document : Json} {options : Options} {output : Output}
    (h : compile document options = .ok output) : ∀ f ∈ output.files,
    (Absolute f.path ↔ ∃ dir, options.directoryOf f.kind = some dir ∧ (dir = "" ∨ Absolute dir)) ∧
    (Absolute f.path → ∀ out, join out f.path = f.path) ∧
    (¬ Absolute f.path → (∀ dir, options.directoryOf f.kind = some dir → back ∉ steps dir) →
      ∀ (t : FileTree) (out : String), steps f.path ≠ [] ∧
        t.placeOf (join out f.path) = t.placeOf out ++ (steps f.path).map String.ofList) := by
  intro f hf
  obtain ⟨name, hname, hpath⟩ := compile_artifact_path h hf
  refine ⟨?_, fun habsolute out => habsolute.join out, fun hrelative hforward t out => ?_⟩
  · rw [hpath]
    unfold Options.pathOf
    cases options.directoryOf f.kind with
    | some dir => simpa using FilePath.absolute_file
    | none => simpa using hname.isName.not_absolute
  · have hsteps := Options.steps_pathOf options f.kind hname.isName
    rw [← hpath] at hsteps
    have hback : back ∉ steps f.path := by
      rw [hsteps, List.mem_append, List.mem_singleton, not_or]
      refine ⟨?_, Ne.symm hname.isName.2.2⟩
      cases hdir : options.directoryOf f.kind with
      | some dir => exact hforward dir hdir
      | none => exact List.not_mem_nil
    exact ⟨by simp [hsteps], t.placeOf_join_forward hrelative hback⟩

/-- An app with one component. -/
def plainApp : Json := .object [("components", .array [.object [("name", .string "App")]])]

theorem compile_artifact_below_plainApp :
    ∃ output, compile plainApp { componentDir := "./src//", styleDir := "" } = .ok output ∧
      output.files.map Artifact.path = ["./src/App.jsx", "/global.css", "/app.scss"] ∧
      (∀ (t : FileTree) (out : String), t.placeOf (join out "./src/App.jsx") = t.placeOf out ++ ["src", "App.jsx"]) ∧
      ∀ out, join out "/global.css" = "/global.css" := by
  have hpaths : (compile plainApp { componentDir := "./src//", styleDir := "" }).toOption.map (fun output =>
      output.files.map fun f => (f.kind, f.path)) =
      some [(.component, "./src/App.jsx"), (.globalStylesheet, "/global.css"), (.styleModule, "/app.scss")] := by
    decide +kernel
  obtain ⟨output, h⟩ : ∃ output, compile plainApp { componentDir := "./src//", styleDir := "" } = .ok output :=
    exists_ok_of_isOk (by decide +kernel)
  rw [h] at hpaths
  replace hpaths := Option.some.inj hpaths
  dsimp only at hpaths
  have hartifact : ∀ kind path, (kind, path) ∈ output.files.map (fun f => (f.kind, f.path)) →
      ∃ f ∈ output.files, f.kind = kind ∧ f.path = path := by
    intro kind path hmem
    obtain ⟨f, hf, heq⟩ := List.mem_map.1 hmem
    exact ⟨f, hf, (Prod.mk.inj heq).1, (Prod.mk.inj heq).2⟩
  refine ⟨output, h, ?_, fun t out => ?_, fun out => ?_⟩
  · have hsnd := congrArg (List.map Prod.snd) hpaths
    rwa [List.map_map] at hsnd
  · obtain ⟨f, hf, hkind, hpath⟩ := hartifact .component "./src/App.jsx" (by rw [hpaths]; simp)
    obtain ⟨-, -, hbelow⟩ := compile_artifact_below h f hf
    rw [hpath, hkind] at hbelow
    refine (hbelow (by decide) (fun dir hdir => ?_) t out).2
    obtain rfl := Option.some.inj hdir
    decide
  · obtain ⟨f, hf, -, hpath⟩ := hartifact .globalStylesheet "/global.css" (by rw [hpaths]; simp)
    obtain ⟨-, habsolute, -⟩ := compile_artifact_below h f hf
    rw [hpath] at habsolute
    exact habsolute (by decide) out

/-- The empty component directory stands for the root of the output in the imports of the
sheets, but the component's file is written to the root of the file system. -/
theorem empty_directory_is_root :
    (compile plainApp { componentDir := "" }).toOption.map (fun output => output.files.map Artifact.path) =
      some ["/App.jsx", "styles/global.css", "styles/app.scss"] ∧
    ¬ Absolute "" ∧ Absolute "/App.jsx" ∧ join "out" "/App.jsx" = "/App.jsx" ∧ ComponentFile.toRoot "" = "./" := by
  decide +kernel

end ViewTree
