import ViewTree.CommandLine.Run
import ViewTree.Proofs.Files.Tree

/-!
# What a run reads

Options and documents are read before anything is written. Reading leaves the files as they
are, and the documents that it gives have the values of their texts.
-/

namespace ViewTree

/-- The operation leaves every tree as it is and gives a result with this property. -/
def FileTree.Gives {α : Type} (x : StateM FileTree α) (P : α → Prop) : Prop :=
  ∀ t, (x.run t).2 = t ∧ P (x.run t).1

namespace FileTree.Gives

variable {α β : Type} {P : α → Prop} {Q : β → Prop}

theorem pure {a : α} (h : P a) : Gives (Pure.pure a) P := fun _ => ⟨rfl, h⟩

theorem bind {x : StateM FileTree α} {f : α → StateM FileTree β} (hx : Gives x P) (hf : ∀ a, P a → Gives (f a) Q) :
    Gives (x >>= f) Q := by
  intro t
  obtain ⟨hfiles, hresult⟩ := hx t
  obtain ⟨hfiles', hresult'⟩ := hf _ hresult (x.run t).2
  exact ⟨hfiles'.trans hfiles, hresult'⟩

/-- What is read comes with the files as they were. -/
theorem run_eq {x : StateM FileTree α} (hx : Gives x P) (t : FileTree) : x.run t = ((x.run t).1, t) :=
  Prod.ext rfl (hx t).1

theorem readText (path : String) : Gives (system.readText path) fun _ => True := fun _ => ⟨rfl, trivial⟩

theorem pathExists (path : String) : Gives (system.pathExists path) fun _ => True := by
  have hfile : Gives (system.isFile path) fun _ => True := fun _ => ⟨rfl, trivial⟩
  refine hfile.bind fun found _ => ?_
  split
  · exact .pure trivial
  · exact fun _ => ⟨rfl, trivial⟩

end FileTree.Gives

open FileTree (Gives)

/-! ## Documents -/

/-- The value of the document is that of its text. -/
def SourceDocument.Parsed (d : SourceDocument) : Prop := Json.parse d.text = .ok d.value

namespace Documents

theorem find_gives (root : String) : Gives (find FileTree.system root) fun _ => True := by
  have hfile : Gives (FileTree.system.isFile root) fun _ => True := fun _ => ⟨rfl, trivial⟩
  have hbelow : Gives (FileTree.system.filesBelow root) fun _ => True := fun _ => ⟨rfl, trivial⟩
  refine hfile.bind fun found _ => ?_
  split
  · exact .pure trivial
  · exact hbelow.bind fun _ _ => .pure trivial

/-- Documents that the files already have in order are found in that order. -/
theorem run_find {root : String} {t : FileTree} (hroot : t.isFile root = false) {found : List Place}
    (hfound : ((t.filesBelow root).filter fun names => (names.getLast?.map isDocumentName).getD false) = found)
    (hordered : found.Pairwise fun a b => ordered a b = true) :
    (find FileTree.system root).run t = (found.map fun names => FilePath.join root (Text.join "/" names), t) := by
  have hfile : (FileTree.system.isFile root).run t = (t.isFile root, t) := rfl
  have hbelow : (FileTree.system.filesBelow root).run t = (t.filesBelow root, t) := rfl
  unfold find
  rw [FileTree.run_bind hfile, hroot, if_neg (by decide), FileTree.run_bind hbelow]
  dsimp only
  rw [hfound, List.mergeSort_of_pairwise hordered]
  rfl

theorem read_gives (path : String) :
    Gives (read FileTree.system path) fun result => ∀ d, result = .ok d → d.Parsed := by
  refine (Gives.readText path).bind fun result _ => ?_
  split
  · exact .pure (by simp)
  · split
    · exact .pure (by simp)
    · rename_i value hparse
      refine .pure ?_
      rintro d ⟨⟩
      exact hparse

theorem readAll_gives (paths : List String) :
    Gives (readAll FileTree.system paths) fun result => ∀ ds, result = .ok ds → ∀ d ∈ ds, d.Parsed := by
  induction paths with
  | nil =>
    refine .pure ?_
    rintro ds ⟨⟩
    simp
  | cons path paths ih =>
    refine (read_gives path).bind fun result hresult => ?_
    split
    · exact .pure (by simp)
    · rename_i document
      refine ih.bind fun results hresults => ?_
      split
      · exact .pure (by simp)
      · rename_i documents
        refine .pure ?_
        rintro ds ⟨⟩
        exact List.forall_mem_cons.2 ⟨hresult document rfl, hresults documents rfl⟩

end Documents

/-! ## Runs -/

theorem Cache.prepare_wrote (dir : String) (t : FileTree) :
    t.Wrote [] ((Cache.prepare FileTree.system dir).run t).2 := by
  have hexists := (Gives.pathExists dir).run_eq t
  unfold Cache.prepare
  rw [FileTree.run_bind hexists]
  split
  · exact .refl t
  · exact (FileTree.ensureDirectories_wrote (dir :: FilePath.parents dir) t).bind (.refl _)

namespace CommandLine

theorem loadOptions_gives (config : Option String) (platform : Option Platform) :
    Gives (loadOptions FileTree.system config platform) fun _ => True := by
  unfold loadOptions
  cases config with
  | none => exact .pure trivial
  | some path =>
    refine (Gives.readText path).bind fun result _ => ?_
    split
    · exact .pure trivial
    · split
      · exact .pure trivial
      · exact .pure trivial

theorem documents_gives (input : String) :
    Gives (documents FileTree.system input) fun result => ∀ ds, result = .ok ds → ∀ d ∈ ds, d.Parsed := by
  refine (Gives.pathExists input).bind fun there _ => ?_
  split
  · refine (Documents.find_gives input).bind fun paths _ => ?_
    split
    · exact .pure (by simp)
    · refine (Documents.readAll_gives paths).bind fun results hresults => ?_
      split
      · exact .pure (by simp)
      · rename_i documents
        refine .pure ?_
        rintro ds ⟨⟩
        exact hresults documents rfl
  · exact .pure (by simp)

theorem run_documents {input : String} {t : FileTree} {paths : List String} {ds : List SourceDocument}
    (hthere : ((FileTree.system.pathExists input).run t).1 = true)
    (hfind : (Documents.find FileTree.system input).run t = (paths, t)) (hpaths : paths.isEmpty = false)
    (hread : ((Documents.readAll FileTree.system paths).run t).1 = .ok ds) :
    (documents FileTree.system input).run t = (.ok ds, t) := by
  have hexists := (Gives.pathExists input).run_eq t
  have hall := (Documents.readAll_gives paths).run_eq t
  rw [hthere] at hexists
  rw [hread] at hall
  unfold documents
  rw [FileTree.run_bind hexists, if_pos rfl, FileTree.run_bind hfind, hpaths, if_neg (by decide),
    FileTree.run_bind hall]
  rfl

/-- What a run of `compile` starts from: its arguments and the files, and the options and
documents that it reads there. -/
structure Session where
  arguments : CompileArguments
  files : FileTree
  options : Options
  documents : List SourceDocument
  options_read : ∃ loaded,
    (loadOptions FileTree.system arguments.config arguments.platform).run files = (.ok loaded, files) ∧
      options = if arguments.sequential then { loaded with parallel := false } else loaded
  documents_read : (CommandLine.documents FileTree.system arguments.input).run files = (.ok documents, files)

namespace Session

theorem parsed (s : Session) {d : SourceDocument} (hd : d ∈ s.documents) : d.Parsed := by
  have hgives := (documents_gives s.arguments.input s.files).2
  rw [s.documents_read] at hgives
  exact hgives s.documents rfl d hd

/-- The arguments and the files tell the rest. -/
theorem eq_of_files {s s' : Session} (harguments : s.arguments = s'.arguments) (hfiles : s.files = s'.files) :
    s = s' := by
  obtain ⟨a, t, options, documents, ⟨loaded, hloaded, hoptions⟩, hdocuments⟩ := s
  obtain ⟨a', t', options', documents', ⟨loaded', hloaded', hoptions'⟩, hdocuments'⟩ := s'
  dsimp only at harguments hfiles
  subst harguments hfiles
  rw [hloaded] at hloaded'
  rw [hdocuments] at hdocuments'
  cases hloaded'
  cases hdocuments'
  subst hoptions hoptions'
  rfl

/-- The directory of the cache, if one is used. -/
def cacheDir (s : Session) : Option String := if s.arguments.noCache then none else some s.arguments.cacheDir

/-- The directory of a document's output. -/
def dirOf (s : Session) (d : SourceDocument) : String :=
  outputDir s.arguments.out (1 < s.documents.length) d

end Session

/-- Without a cache, the run goes on with compiling the documents. -/
theorem Session.runCompile_eq (s : Session) (h : s.arguments.noCache = true) :
    (runCompile FileTree.system s.arguments).run s.files =
      (compileAll FileTree.system s.options none s.dirOf s.documents {}).run s.files := by
  obtain ⟨loaded, hloaded, hoptions⟩ := s.options_read
  unfold runCompile
  rw [FileTree.run_bind hloaded]
  dsimp only
  rw [← hoptions, FileTree.run_bind s.documents_read]
  dsimp only
  rw [if_pos h]
  rfl

/-- A run that no failure ended has read options and documents, prepared the cache, and
compiled the documents. -/
theorem runCompile_session {a : CompileArguments} {t t' : FileTree} {outcome : Outcome}
    (hrun : (runCompile FileTree.system a).run t = (outcome, t')) (hexit : outcome.exit ≠ 2) :
    ∃ s : Session, s.arguments = a ∧ s.files = t ∧ ∃ t₁, t.Wrote [] t₁ ∧
      (compileAll FileTree.system s.options s.cacheDir s.dirOf s.documents {}).run t₁ = (outcome, t') := by
  unfold runCompile at hrun
  have hoptions := (loadOptions_gives a.config a.platform).run_eq t
  rw [FileTree.run_bind hoptions] at hrun
  split at hrun
  · cases hrun
    exact absurd rfl hexit
  rename_i loaded hloaded
  dsimp only at hrun
  have hdocuments := (documents_gives a.input).run_eq t
  rw [FileTree.run_bind hdocuments] at hrun
  split at hrun
  · cases hrun
    exact absurd rfl hexit
  rename_i documents hread
  rw [hloaded] at hoptions
  rw [hread] at hdocuments
  refine ⟨⟨a, t, _, documents, ⟨loaded, hoptions, rfl⟩, hdocuments⟩, rfl, rfl, ?_⟩
  split at hrun
  · rename_i dir _
    exact ⟨_, Cache.prepare_wrote dir t, hrun⟩
  · exact ⟨t, .refl t, hrun⟩

end CommandLine

end ViewTree
