import ViewTree.Proofs.Compile.Checks
import ViewTree.Proofs.Files.Path
import ViewTree.Proofs.Text.Divided

/-!
# What a fingerprint tells

The fingerprint of an output is the digest of its paths and contents with a zero character
after each. Unless two digests collide, it tells the parts of the files between zero
characters (`Output.zeroParts`), and so the files themselves as long as none holds such a
character. Contents that do can be told as other files.
-/

namespace ViewTree

namespace Output

/-- The parts of the paths and contents of files between zero characters. -/
def zeroParts (files : List Artifact) : List (List Char) :=
  files.flatMap fun f => Text.splitAt Text.zero f.path.toList ++ Text.splitAt Text.zero f.contents.toList

/-- The path and the contents of a file hold no zero character. -/
def ZeroFree (files : List Artifact) : Prop :=
  ∀ f ∈ files, Text.zero ∉ f.path.toList ∧ Text.zero ∉ f.contents.toList

instance (files : List Artifact) : Decidable (ZeroFree files) :=
  inferInstanceAs (Decidable (∀ f ∈ files, Text.zero ∉ f.path.toList ∧ Text.zero ∉ f.contents.toList))

theorem fingerprintText_cons (f : Artifact) (files : List Artifact) :
    (fingerprintText (f :: files)).toList =
      f.path.toList ++ Text.zero :: (f.contents.toList ++ Text.zero :: (fingerprintText files).toList) := by
  unfold fingerprintText
  rw [List.map_cons, Text.join_empty_cons]
  simp [Text.zero]

theorem splitAt_fingerprintText (files : List Artifact) :
    Text.splitAt Text.zero (fingerprintText files).toList = zeroParts files ++ [[]] := by
  induction files with
  | nil => rfl
  | cons f files ih =>
    rw [Text.splitAt_eq_splitOn] at ih
    rw [fingerprintText_cons, Text.splitAt_eq_splitOn, List.splitOn_append_cons_self, List.splitOn_append_cons_self, ih,
      zeroParts, zeroParts, List.flatMap_cons, Text.splitAt_eq_splitOn, List.append_assoc, List.append_assoc]

/-- What is digested tells the parts, and nothing else. -/
theorem fingerprintText_eq_iff (files files' : List Artifact) :
    fingerprintText files = fingerprintText files' ↔ zeroParts files = zeroParts files' := by
  constructor
  · intro h
    have hparts := congrArg (fun text => Text.splitAt Text.zero text.toList) h
    simp only [splitAt_fingerprintText] at hparts
    exact List.append_cancel_right hparts
  · intro h
    have hparts := congrArg (fun parts => [Text.zero].intercalate (parts ++ [[]])) h
    simp only [← splitAt_fingerprintText, Text.splitAt_eq_splitOn, List.intercalate_splitOn] at hparts
    exact String.toList_injective hparts

/-- Without zero characters the parts are the paths and contents. -/
theorem zeroParts_of_zeroFree {files : List Artifact} (h : ZeroFree files) :
    zeroParts files = files.flatMap fun f => [f.path.toList, f.contents.toList] := by
  unfold zeroParts
  refine List.flatMap_congr fun f hf => ?_
  rw [Text.splitAt_eq_splitOn, List.splitOn_eq_singleton (h f hf).1, List.splitOn_eq_singleton (h f hf).2]
  rfl

theorem flatMap_path_contents_inj (files files' : List Artifact)
    (h : (files.flatMap fun f => [f.path.toList, f.contents.toList]) =
      files'.flatMap fun f => [f.path.toList, f.contents.toList]) :
    files.map (fun f => (f.path, f.contents)) = files'.map fun f => (f.path, f.contents) := by
  induction files generalizing files' with
  | nil =>
    cases files' with
    | nil => rfl
    | cons f' files' => simp at h
  | cons f files ih =>
    cases files' with
    | nil => simp at h
    | cons f' files' =>
      simp only [List.flatMap_cons, List.cons_append, List.nil_append, List.cons.injEq] at h
      obtain ⟨hpath, hcontents, hrest⟩ := h
      rw [List.map_cons, List.map_cons, ih files' hrest, String.toList_injective hpath,
        String.toList_injective hcontents]

end Output

theorem compile_fingerprint {document : Json} {options : Options} {output : Output}
    (h : compile document options = .ok output) :
    output.fingerprint = Digest.hexOfText (Output.fingerprintText output.files) := by
  obtain ⟨app, files, -, -, -, rfl⟩ := compile_eq_ok h
  rfl

/-- Unless the digests of what is digested for two outputs collide, their fingerprints are
the same exactly if the parts of their files between zero characters are. So outputs
without zero characters have the same fingerprint exactly if they have as many files with
the same paths and contents in the same order. -/
theorem fingerprint_tells_files {document document' : Json} {options options' : Options} {output output' : Output}
    (h : compile document options = .ok output) (h' : compile document' options' = .ok output')
    (hdigest : Digest.CollisionFree [Output.fingerprintText output.files, Output.fingerprintText output'.files]) :
    (output.fingerprint = output'.fingerprint ↔ Output.zeroParts output.files = Output.zeroParts output'.files) ∧
    (Output.ZeroFree output.files → Output.ZeroFree output'.files →
      (output.fingerprint = output'.fingerprint ↔
        output.files.map (fun f => (f.path, f.contents)) = output'.files.map fun f => (f.path, f.contents))) := by
  have hparts : output.fingerprint = output'.fingerprint ↔
      Output.zeroParts output.files = Output.zeroParts output'.files := by
    rw [compile_fingerprint h, compile_fingerprint h', hdigest.eq_iff (by simp) (by simp),
      Output.fingerprintText_eq_iff]
  refine ⟨hparts, fun hzero hzero' => ?_⟩
  rw [hparts, Output.zeroParts_of_zeroFree hzero, Output.zeroParts_of_zeroFree hzero']
  constructor
  · exact Output.flatMap_path_contents_inj _ _
  · intro hfiles
    have hlists := congrArg (List.flatMap fun p : String × String => [p.1.toList, p.2.toList]) hfiles
    rwa [List.flatMap_map, List.flatMap_map] at hlists

/-- Components with two stylesheets. -/
def sheetsApp (components : List Json) (styleSheet styleModule : String) : Json :=
  .object [("styleSheet", .string styleSheet), ("styleModule", .string styleModule),
    ("components", .array components)]

theorem fingerprint_tells_files_sheets :
    ∃ output output', compile (sheetsApp [] "a" "c") {} = .ok output ∧ compile (sheetsApp [] "b" "c") {} = .ok output' ∧
      Digest.CollisionFree [Output.fingerprintText output.files, Output.fingerprintText output'.files] ∧
      Output.ZeroFree output.files ∧ Output.ZeroFree output'.files ∧
      (output.fingerprint = output'.fingerprint ↔
        output.files.map (fun f => (f.path, f.contents)) = output'.files.map fun f => (f.path, f.contents)) := by
  have hchecks : ((compile (sheetsApp [] "a" "c") {}).toOption.any fun output =>
      (compile (sheetsApp [] "b" "c") {}).toOption.any fun output' => output.fingerprint != output'.fingerprint &&
        (decide (Output.ZeroFree output.files) && decide (Output.ZeroFree output'.files))) = true := by
    decide +kernel
  cases h : compile (sheetsApp [] "a" "c") {} with
  | error problems => simp [h, Except.toOption] at hchecks
  | ok output =>
    cases h' : compile (sheetsApp [] "b" "c") {} with
    | error problems => simp [h, h', Except.toOption] at hchecks
    | ok output' =>
      simp only [h, h', Except.toOption, Option.any_some, Bool.and_eq_true, bne_iff_ne, decide_eq_true_eq,
        compile_fingerprint h, compile_fingerprint h'] at hchecks
      obtain ⟨hdigests, hzero, hzero'⟩ := hchecks
      have hfree : Digest.CollisionFree
          [Output.fingerprintText output.files, Output.fingerprintText output'.files] := by
        simp [Digest.CollisionFree, hdigests, Ne.symm hdigests]
      exact ⟨output, output', rfl, rfl, hfree, hzero, hzero',
        (fingerprint_tells_files h h' hfree).2 hzero hzero'⟩

/-- A component with nothing in it. -/
def emptyApp : Json := .object [("name", .string "App")]

/-- A part of the style module can be told as a part of the global stylesheet. -/
theorem fingerprint_of_other_sheets :
    ∃ output output', compile (sheetsApp [emptyApp] "a\x00styles/app.scss\x00b" "c") {} = .ok output ∧
      compile (sheetsApp [emptyApp] "a" "b\x00styles/app.scss\x00c") {} = .ok output' ∧
      output.fingerprint = output'.fingerprint ∧
      output.files.map Artifact.contents ≠ output'.files.map Artifact.contents := by
  have hsame : (((compile (sheetsApp [emptyApp] "a\x00styles/app.scss\x00b" "c") {}).toOption.any fun output =>
      (compile (sheetsApp [emptyApp] "a" "b\x00styles/app.scss\x00c") {}).toOption.any fun output' =>
        Output.fingerprintText output.files == Output.fingerprintText output'.files &&
          output.files.map Artifact.contents != output'.files.map Artifact.contents)) = true := by
    decide +kernel
  cases h : compile (sheetsApp [emptyApp] "a\x00styles/app.scss\x00b" "c") {} with
  | error problems => simp [h, Except.toOption] at hsame
  | ok output =>
    cases h' : compile (sheetsApp [emptyApp] "a" "b\x00styles/app.scss\x00c") {} with
    | error problems => simp [h, h', Except.toOption] at hsame
    | ok output' =>
      simp only [h, h', Except.toOption, Option.any_some, Bool.and_eq_true, beq_iff_eq, bne_iff_ne] at hsame
      refine ⟨output, output', rfl, rfl, ?_, hsame.2⟩
      rw [compile_fingerprint h, compile_fingerprint h', hsame.1]

end ViewTree
