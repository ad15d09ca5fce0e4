import ViewTree.Proofs.Cache.Transparent
import ViewTree.Proofs.Compile.Places

/-!
# What a run leaves of its outputs

A run writes the artifacts of the documents that compile, one document after the other, and
what lies at a place in the end is what was written there last. The output directory of a
document is named by its file, so documents of one name in different directories share it.
Artifacts are all there exactly if no two of them that differ go to one place, as is the case
if the names of the documents differ.
-/

namespace ViewTree.CommandLine

open Cache (Request Genuine)
open FileTree (lastText)

/-! ## Writing artifacts -/

theorem writeFile_wrote {path contents : String} {t t' : FileTree}
    (h : (writeFile FileTree.system path contents).run t = (.ok (), t')) :
    t.Wrote [(t.placeOf path, contents)] t' ∧ t'.Writable path := by
  have hdirs := FileTree.ensureDirectories_wrote (FilePath.parents path) t
  unfold writeFile at h
  rcases hrun : (FileTree.system.ensureDirectories (FilePath.parents path)).run t with ⟨result, t₁⟩
  rw [hrun] at hdirs
  rw [FileTree.run_bind hrun] at h
  cases result with
  | error e => cases h
  | ok _ =>
    dsimp only at h
    rw [FileTree.run_writeText] at h
    split at h
    · rename_i t₂ hwrite
      cases h
      have hwrote := FileTree.write_wrote hwrite
      rw [hdirs.placeOf_eq] at hwrote
      exact ⟨hdirs.trans hwrote, hwrote.writable (FileTree.write_ok hwrite).1⟩
    · cases h

theorem writeFiles_wrote {dir : String} {files : List Artifact} {t t' : FileTree}
    (h : (writeFiles FileTree.system dir files).run t = (.ok (), t')) :
    t.Wrote (files.map fun f => (t.placeOf (FilePath.join dir f.path), f.contents)) t' ∧
      ∀ f ∈ files, t'.Writable (FilePath.join dir f.path) := by
  induction files generalizing t with
  | nil =>
    cases h
    exact ⟨.refl _, by simp⟩
  | cons file files ih =>
    unfold writeFiles at h
    rcases hrun : (writeFile FileTree.system (FilePath.join dir file.path) file.contents).run t with ⟨result, t₁⟩
    rw [FileTree.run_bind hrun] at h
    cases result with
    | error e => cases h
    | ok _ =>
      obtain ⟨hfirst, hwritable⟩ := writeFile_wrote hrun
      obtain ⟨hrest, hwritables⟩ := ih h
      rw [hfirst.placeOf_eq] at hrest
      exact ⟨hfirst.trans hrest, List.forall_mem_cons.2 ⟨hrest.writable hwritable, hwritables⟩⟩

/-! ## Documents that compile -/

/-- The documents that compile, with their outputs. -/
def compiled (options : Options) (documents : List SourceDocument) : List (SourceDocument × Output) :=
  documents.filterMap fun d => (compile d.value options).toOption.map fun output => (d, output)

theorem mem_compiled {options : Options} {documents : List SourceDocument} {d : SourceDocument} {output : Output} :
    (d, output) ∈ compiled options documents ↔ d ∈ documents ∧ compile d.value options = .ok output := by
  unfold compiled
  rw [List.mem_filterMap]
  constructor
  · rintro ⟨d', hd', hmap⟩
    cases hcompile : compile d'.value options with
    | error problems => simp [hcompile, Except.toOption] at hmap
    | ok output' =>
      simp only [hcompile, Except.toOption, Option.map_some, Option.some.injEq, Prod.mk.injEq] at hmap
      obtain ⟨rfl, rfl⟩ := hmap
      exact ⟨hd', hcompile⟩
  · rintro ⟨hd, hcompile⟩
    exact ⟨d, hd, by rw [hcompile]; rfl⟩

/-- The texts that are written for the artifacts of documents, each with its place. -/
def artifactWrites (placeOf : String → Place) (dirOf : SourceDocument → String)
    (compiled : List (SourceDocument × Output)) : List (Place × String) :=
  compiled.flatMap fun c => c.2.files.map fun f => (placeOf (FilePath.join (dirOf c.1) f.path), f.contents)

/-- Whether a place has the name of a cache entry. -/
def isEntryPlace (p : Place) : Bool := p.getLast?.any fun name => ending name == ['n', 'o', 's']

theorem isEntryPlace_entryPath (t : FileTree) (dir key : String) :
    isEntryPlace (t.placeOf (Cache.entryPath dir key)) = true := by
  have hending : ending (Cache.entryName key) = ['n', 'o', 's'] := by
    unfold Cache.entryName
    rw [ending_append _ (by decide)]
    decide
  unfold isEntryPlace
  rw [Cache.placeOf_entryPath, List.getLast?_concat, Option.any_some, hending]
  rfl

/-- No artifact has the name of a cache entry. -/
theorem isEntryPlace_artifact {document : Json} {options : Options} {output : Output}
    (h : compile document options = .ok output) {f : Artifact} (hf : f ∈ output.files) (t : FileTree) (dir : String) :
    isEntryPlace (t.placeOf (FilePath.join dir f.path)) = false := by
  obtain ⟨before, name, hname, hsteps⟩ := compile_artifact_steps h hf
  obtain ⟨place, hplace⟩ := t.placeOf_join_last dir hname.isName hsteps
  unfold isEntryPlace
  rw [hplace, List.getLast?_concat, Option.any_some]
  exact beq_false_of_ne hname.ending_ne

/-- Artifacts are no entries, so a cache stays genuine. -/
theorem genuine_writeFiles {document : Json} {options : Options} {output : Output}
    (houtput : compile document options = .ok output) {requests : List Request} {t t' : FileTree} {cache dir : String}
    (h : Genuine requests t cache) (hfiles : (writeFiles FileTree.system dir output.files).run t = (.ok (), t')) :
    Genuine requests t' cache := by
  refine h.wrote (writeFiles_wrote hfiles).1 ?_
  intro key text hmem
  obtain ⟨f, hf, heq⟩ := List.mem_map.1 hmem
  obtain ⟨hplace, -⟩ := Prod.mk.inj heq
  have hartifact := isEntryPlace_artifact houtput hf t dir
  rw [hplace, isEntryPlace_entryPath] at hartifact
  cases hartifact

/-! ## Compiling documents one after the other -/

/-- What compiling documents did: the files that were written, which are the artifacts of
those that compile, and cache entries of their outputs. -/
structure Delivered (t : FileTree) (options : Options) (cacheDir : Option String) (dirOf : SourceDocument → String)
    (documents : List SourceDocument) (writes : List (Place × String)) (t' : FileTree) : Prop where
  wrote : t.Wrote writes t'
  artifacts : writes.filter (fun w => !isEntryPlace w.1) =
    artifactWrites t.placeOf dirOf (compiled options documents)
  entries : ∀ w ∈ writes, isEntryPlace w.1 = true → ∃ dir ∈ cacheDir, ∃ c ∈ compiled options documents,
    w = Request.entryWrite t.placeOf dir ⟨c.1, options⟩ c.2
  writable : ∀ c ∈ compiled options documents, ∀ f ∈ c.2.files, t'.Writable (FilePath.join (dirOf c.1) f.path)

/-- Directories that were made before do not matter. -/
theorem Delivered.after {t t₁ t' : FileTree} {options : Options} {cacheDir : Option String}
    {dirOf : SourceDocument → String} {documents : List SourceDocument} {writes : List (Place × String)}
    (hdirs : t.Wrote [] t₁) (h : Delivered t₁ options cacheDir dirOf documents writes t') :
    Delivered t options cacheDir dirOf documents writes t' := by
  have hplace : t₁.placeOf = t.placeOf := hdirs.placeOf_eq
  exact ⟨hdirs.trans h.wrote, hplace ▸ h.artifacts, hplace ▸ h.entries, h.writable⟩

/-- A document that does not compile adds nothing. -/
theorem compiled_cons_error {options : Options} {d : SourceDocument} {problems : List Problem}
    (h : compile d.value options = .error problems) (documents : List SourceDocument) :
    compiled options (d :: documents) = compiled options documents := by
  refine List.filterMap_cons_none ?_
  rw [h]
  rfl

theorem compiled_cons_ok {options : Options} {d : SourceDocument} {output : Output}
    (h : compile d.value options = .ok output) (documents : List SourceDocument) :
    compiled options (d :: documents) = (d, output) :: compiled options documents := by
  refine List.filterMap_cons_some ?_
  rw [h]
  rfl

/-- One document more: its entry, its artifacts, then what the others write. -/
theorem Delivered.cons {options : Options} {cacheDir : Option String} {dirOf : SourceDocument → String}
    {d : SourceDocument} {output : Output} (houtput : compile d.value options = .ok output) {t t₁ t₂ t' : FileTree}
    {stores : List (Place × String)} (hstores : t.Wrote stores t₁)
    (hentries : ∀ w ∈ stores, ∃ dir ∈ cacheDir, w = Request.entryWrite t.placeOf dir ⟨d, options⟩ output)
    (hfiles : (writeFiles FileTree.system (dirOf d) output.files).run t₁ = (.ok (), t₂))
    {documents : List SourceDocument} {writes : List (Place × String)}
    (h : Delivered t₂ options cacheDir dirOf documents writes t') :
    Delivered t options cacheDir dirOf (d :: documents)
      (stores ++ (output.files.map fun f => (t.placeOf (FilePath.join (dirOf d) f.path), f.contents)) ++ writes)
      t' := by
  obtain ⟨hwrote, hwritable⟩ := writeFiles_wrote hfiles
  rw [hstores.placeOf_eq] at hwrote
  have hplace : t₂.placeOf = t.placeOf := (hstores.trans hwrote).placeOf_eq
  have hartifact : ∀ w ∈ output.files.map fun f => (t.placeOf (FilePath.join (dirOf d) f.path), f.contents),
      isEntryPlace w.1 = false := by
    intro w hw
    obtain ⟨f, hf, rfl⟩ := List.mem_map.1 hw
    exact isEntryPlace_artifact houtput hf t (dirOf d)
  have hstore : ∀ w ∈ stores, isEntryPlace w.1 = true := by
    intro w hw
    obtain ⟨dir, -, rfl⟩ := hentries w hw
    rw [Request.entryWrite_fst]
    exact isEntryPlace_entryPath t dir d.path
  refine ⟨(hstores.trans hwrote).trans h.wrote, ?_, ?_, ?_⟩
  · -- of the three parts, the filter drops the first and keeps the second
    rw [List.filter_append, List.filter_append, List.filter_eq_nil_iff.2 fun w hw => by simp [hstore w hw],
      List.filter_eq_self.2 fun w hw => by simp [hartifact w hw], h.artifacts, hplace, compiled_cons_ok houtput]
    rfl
  · intro w hw hentry
    rw [compiled_cons_ok houtput]
    rw [List.mem_append, List.mem_append] at hw
    rcases hw with (hw | hw) | hw
    · obtain ⟨dir, hdir, heq⟩ := hentries w hw
      exact ⟨dir, hdir, _, List.mem_cons_self, heq⟩
    · rw [hartifact w hw] at hentry
      cases hentry
    · obtain ⟨dir, hdir, c, hc, heq⟩ := h.entries w hw hentry
      exact ⟨dir, hdir, c, List.mem_cons_of_mem _ hc, hplace ▸ heq⟩
  · rw [compiled_cons_ok houtput]
    exact List.forall_mem_cons.2 ⟨fun f hf => h.wrote.writable (hwritable f hf), h.writable⟩

section

variable {options : Options} {cacheDir : Option String} {dirOf : SourceDocument → String} {requests : List Request}
  (hparsed : ∀ r ∈ requests, r.document.Parsed)
  (hfree : ∀ dir ∈ cacheDir, Digest.CollisionFree (requests.map Request.digested))

include hparsed hfree

/-- By induction on the documents: the cache stays genuine from each one to the next. -/
theorem compileAll_delivered {documents : List SourceDocument}
    (hdocuments : ∀ d ∈ documents, ⟨d, options⟩ ∈ requests) {t t' : FileTree}
    (hcache : ∀ dir ∈ cacheDir, Genuine requests t dir) {progress : Progress} {outcome : Outcome}
    (hrun : (compileAll FileTree.system options cacheDir dirOf documents progress).run t = (outcome, t'))
    (hexit : outcome.exit ≠ 2) : ∃ writes, Delivered t options cacheDir dirOf documents writes t' := by
  induction documents generalizing t progress with
  | nil =>
    cases hrun
    exact ⟨[], .refl _, rfl, by simp, by simp [compiled]⟩
  | cons d documents ih =>
    obtain ⟨hd, hrest⟩ := List.forall_mem_cons.1 hdocuments
    obtain ⟨t₁, stores, hcompile, hstores, herror, hentries⟩ := compileOne_genuine hcache hd
    unfold compileAll at hrun
    rw [FileTree.run_bind hcompile] at hrun
    split at hrun
    · -- the document does not compile, and the tree is as it was
      rename_i problems hanswer
      obtain rfl := herror problems hanswer
      obtain ⟨writes, hdelivered⟩ := ih hrest hcache hrun
      have hsame := compiled_cons_error hanswer documents
      exact ⟨writes, hdelivered.wrote, hsame ▸ hdelivered.artifacts, hsame ▸ hdelivered.entries,
        hsame ▸ hdelivered.writable⟩
    · rename_i output hanswer
      dsimp only at hrun
      rcases hfiles : (writeFiles FileTree.system (dirOf d) output.files).run t₁ with ⟨result, t₂⟩
      rw [FileTree.run_bind hfiles] at hrun
      cases result with
      | error e =>
        cases hrun
        exact absurd rfl hexit
      | ok _ =>
        have hentry : ∀ w ∈ stores, ∃ dir ∈ cacheDir, w = Request.entryWrite t.placeOf dir ⟨d, options⟩ output := by
          intro w hw
          obtain ⟨dir, hdir, output', houtput', heq⟩ := hentries w hw
          obtain rfl : output = output' := by
            rw [hanswer] at houtput'
            exact Except.ok.inj houtput'
          exact ⟨dir, hdir, heq⟩
        have hgenuine : ∀ dir ∈ cacheDir, Genuine requests t₂ dir := by
          intro dir hdir
          refine genuine_writeFiles hanswer ((hcache dir hdir).stored hparsed (hfree dir hdir) hstores ?_) hfiles
          intro w hw
          obtain ⟨dir', -, heq⟩ := hentry w hw
          exact ⟨_, hd, dir', output, hanswer, heq⟩
        obtain ⟨writes, hdelivered⟩ := ih hrest hgenuine hrun
        exact ⟨_, .cons hanswer hstores hentry hfiles hdelivered⟩

end

/-! ## Whole runs -/

namespace Session

variable (s : Session)

/-- What is asked of the cache. -/
def requests : List Request := s.documents.map fun d => ⟨d, s.options⟩

/-- The documents that compile, with their outputs. -/
def compiled : List (SourceDocument × Output) := CommandLine.compiled s.options s.documents

/-- The path of an artifact of a document. -/
def pathOf (d : SourceDocument) (f : Artifact) : String := FilePath.join (s.dirOf d) f.path

/-- The texts of the artifacts with their places, in the order of writing. -/
def writes : List (Place × String) := artifactWrites s.files.placeOf s.dirOf s.compiled

/-- The cache, if one is used, is genuine, and digests tell the documents. -/
def CacheRight : Prop :=
  ∀ dir ∈ s.cacheDir, Genuine s.requests s.files dir ∧ Digest.CollisionFree (s.requests.map Request.digested)

/-- Every artifact of every document that compiles is there. -/
def Intact (t' : FileTree) : Prop :=
  ∀ c ∈ s.compiled, ∀ f ∈ c.2.files, t'.readText (s.pathOf c.1 f) = .ok f.contents

/-- No two artifacts that differ go to one place. -/
def Agree : Prop := ∀ p text text', (p, text) ∈ s.writes → (p, text') ∈ s.writes → text = text'

/-- The documents that compile have names of their own, or there is only one document. -/
def NamedApart : Prop :=
  s.documents.length ≤ 1 ∨
    (s.compiled.map fun c => Documents.stem c.1.path).Nodup ∧
      ∀ c ∈ s.compiled, FilePath.IsName (Documents.stem c.1.path)

theorem mem_writes {w : Place × String} : w ∈ s.writes ↔
    ∃ c ∈ s.compiled, ∃ f ∈ c.2.files, (s.files.placeOf (s.pathOf c.1 f), f.contents) = w := by
  unfold writes artifactWrites
  rw [List.mem_flatMap]
  constructor
  · rintro ⟨c, hc, hw⟩
    obtain ⟨f, hf, heq⟩ := List.mem_map.1 hw
    exact ⟨c, hc, f, hf, heq⟩
  · rintro ⟨c, hc, f, hf, heq⟩
    exact ⟨c, hc, List.mem_map.2 ⟨f, hf, heq⟩⟩

theorem compile_of_mem {c : SourceDocument × Output} (hc : c ∈ s.compiled) :
    compile c.1.value s.options = .ok c.2 :=
  (mem_compiled.1 hc).2

section

variable {s} {all : List (Place × String)} {t' : FileTree}
  (h : Delivered s.files s.options s.cacheDir s.dirOf s.documents all t')

include h

/-- What lies at the place of an artifact is what was written there last. -/
theorem readText_last {c : SourceDocument × Output} (hc : c ∈ s.compiled) {f : Artifact} (hf : f ∈ c.2.files) :
    ∃ text, t'.readText (s.pathOf c.1 f) = .ok text ∧
      lastText s.writes (s.files.placeOf (s.pathOf c.1 f)) = some text := by
  have hmem : (s.files.placeOf (s.pathOf c.1 f), f.contents) ∈ s.writes := s.mem_writes.2 ⟨c, hc, f, hf, rfl⟩
  obtain ⟨text, htext⟩ := FileTree.exists_lastText hmem
  refine ⟨text, ?_, htext⟩
  have hkeep : (!isEntryPlace (s.files.placeOf (s.pathOf c.1 f))) = true := by
    rw [Session.pathOf, isEntryPlace_artifact (s.compile_of_mem hc) hf s.files (s.dirOf c.1)]
    rfl
  have hlast : lastText all (s.files.placeOf (s.pathOf c.1 f)) = some text := by
    rw [← htext, Session.writes, Session.compiled, ← h.artifacts]
    exact (FileTree.lastText_filter (fun p => !isEntryPlace p) hkeep all).symm
  have hentry : t'.entry? (t'.placeOf (s.pathOf c.1 f)) = some (.file (.text text)) := by
    rw [h.wrote.placeOf_eq, h.wrote.file, hlast]
  exact (h.writable c hc f hf).readText_eq hentry

/-- All artifacts are there exactly if those that go to one place agree. -/
theorem intact_iff_agree : s.Intact t' ↔ s.Agree := by
  constructor
  · intro hintact p text text' hw hw'
    obtain ⟨c, hc, f, hf, heq⟩ := s.mem_writes.1 hw
    obtain ⟨c', hc', f', hf', heq'⟩ := s.mem_writes.1 hw'
    obtain ⟨hplace, rfl⟩ := Prod.mk.inj heq
    obtain ⟨hplace', rfl⟩ := Prod.mk.inj heq'
    have hread := FileTree.readText_ok (hintact c hc f hf)
    have hread' := FileTree.readText_ok (hintact c' hc' f' hf')
    rw [h.wrote.placeOf_eq, hplace] at hread
    rw [h.wrote.placeOf_eq, hplace', hread] at hread'
    simpa using hread'
  · intro hagree c hc f hf
    obtain ⟨text, hread, hlast⟩ := readText_last h hc hf
    have hmem : (s.files.placeOf (s.pathOf c.1 f), f.contents) ∈ s.writes := s.mem_writes.2 ⟨c, hc, f, hf, rfl⟩
    rw [hread, hagree _ _ _ (FileTree.mem_of_lastText hlast) hmem]

/-- A file is as it was, or an artifact, or a cache entry of a document that compiles. -/
theorem file_origin {p : Place} {contents : FileContents} (hentry : t'.entry? p = some (.file contents)) :
    s.files.entry? p = some (.file contents) ∨ ∃ text, contents = .text text ∧ ((p, text) ∈ s.writes ∨
      ∃ dir ∈ s.cacheDir, ∃ c ∈ s.compiled,
        (p, text) = Request.entryWrite s.files.placeOf dir ⟨c.1, s.options⟩ c.2) := by
  rw [h.wrote.file] at hentry
  split at hentry
  · rename_i text hlast
    have hmem := FileTree.mem_of_lastText hlast
    refine .inr ⟨text, hentry, ?_⟩
    cases hplace : isEntryPlace p with
    | true =>
      exact .inr (h.entries (p, text) hmem hplace)
    | false =>
      refine .inl ?_
      rw [Session.writes, Session.compiled, ← h.artifacts, List.mem_filter]
      exact ⟨hmem, by simp [hplace]⟩
  · exact .inl hentry

end

/-! ### Documents with names of their own -/

/-- The way from the output directory to that of a document. -/
def dirSteps (d : SourceDocument) : Place := if 1 < s.documents.length then [Documents.stem d.path] else []

section

variable {s} (hconfined : s.options.Confined) (hnamed : s.NamedApart)

include hconfined hnamed

/-- An artifact lies in the directory of its document. -/
theorem placeOf_pathOf {c : SourceDocument × Output} (hc : c ∈ s.compiled) {f : Artifact} (hf : f ∈ c.2.files) :
    s.files.placeOf (s.pathOf c.1 f) =
      s.files.placeOf s.arguments.out ++ s.dirSteps c.1 ++ (FilePath.steps f.path).map String.ofList := by
  have hinside := compile_inside (s.compile_of_mem hc) hconfined hf
  have hdir : s.files.placeOf (s.dirOf c.1) = s.files.placeOf s.arguments.out ++ s.dirSteps c.1 := by
    unfold dirOf outputDir dirSteps
    by_cases hmany : 1 < s.documents.length
    · have hname := (hnamed.resolve_left (Nat.not_le.2 hmany)).2 c hc
      rw [if_pos (decide_eq_true hmany), if_pos hmany, FileTree.placeOf_join_name _ hname]
    · rw [if_neg (by simpa using hmany), if_neg hmany, List.append_nil]
  rw [pathOf, FileTree.placeOf_join_forward _ hinside.head_ne hinside.2, hdir]

omit hconfined in
/-- Artifacts that go to one place are of one document. -/
theorem eq_of_dirSteps {c c' : SourceDocument × Output} (hc : c ∈ s.compiled) (hc' : c' ∈ s.compiled)
    {ss ss' : Place} (h : s.dirSteps c.1 ++ ss = s.dirSteps c'.1 ++ ss') : c = c' ∧ ss = ss' := by
  unfold dirSteps at h
  by_cases hmany : 1 < s.documents.length
  · rw [if_pos hmany, if_pos hmany, List.singleton_append, List.singleton_append, List.cons.injEq] at h
    have hnodup := (hnamed.resolve_left (Nat.not_le.2 hmany)).1
    exact ⟨List.inj_on_of_nodup_map hnodup hc hc' h.1, h.2⟩
  · rw [if_neg hmany, if_neg hmany, List.nil_append, List.nil_append] at h
    refine ⟨?_, h⟩
    obtain ⟨d, output⟩ := c
    obtain ⟨d', output'⟩ := c'
    obtain ⟨hd, houtput⟩ := mem_compiled.1 hc
    obtain ⟨hd', houtput'⟩ := mem_compiled.1 hc'
    obtain rfl : d = d' := by
      obtain ⟨i, hi, hget⟩ := List.getElem_of_mem hd
      obtain ⟨j, hj, hget'⟩ := List.getElem_of_mem hd'
      obtain rfl : i = j := by omega
      exact hget.symm.trans hget'
    rw [houtput] at houtput'
    rw [Except.ok.inj houtput']

theorem agree_of_namedApart : s.Agree := by
  intro p text text' hw hw'
  obtain ⟨c, hc, f, hf, heq⟩ := s.mem_writes.1 hw
  obtain ⟨c', hc', f', hf', heq'⟩ := s.mem_writes.1 hw'
  obtain ⟨hplace, rfl⟩ := Prod.mk.inj heq
  obtain ⟨hplace', rfl⟩ := Prod.mk.inj heq'
  rw [← hplace', placeOf_pathOf hconfined hnamed hc hf, placeOf_pathOf hconfined hnamed hc' hf', List.append_assoc,
    List.append_assoc] at hplace
  obtain ⟨rfl, hsteps⟩ := eq_of_dirSteps hnamed hc hc' (List.append_cancel_left hplace)
  have hinj : Function.Injective String.ofList := fun a b hab => by simpa using congrArg String.toList hab
  have hnodup := compile_steps_nodup (s.compile_of_mem hc) hconfined
  rw [List.inj_on_of_nodup_map hnodup hf hf' (List.map_injective_iff.2 hinj hsteps)]

end

end Session

/-- What a run of `compile` leaves that no failing file operation ended, if its cache is
genuine. At the path of an artifact lies what was written last to its place. So all
artifacts of all documents that compile are there exactly if no two that differ go to one
place, and they are there, below the output directory, if the documents have names of their
own and the directories of the options stay inside. No other file is new or changed but for
cache entries, so a document that does not compile has written nothing. -/
theorem runCompile_artifacts {a : CompileArguments} {t t' : FileTree} {outcome : Outcome}
    (hrun : (runCompile FileTree.system a).run t = (outcome, t')) (hexit : outcome.exit ≠ 2) :
    ∃ s : Session, s.arguments = a ∧ s.files = t ∧ (s.CacheRight →
      (∀ c ∈ s.compiled, ∀ f ∈ c.2.files, ∃ text, t'.readText (s.pathOf c.1 f) = .ok text ∧
        lastText s.writes (t.placeOf (s.pathOf c.1 f)) = some text) ∧
      (s.Intact t' ↔ s.Agree) ∧
      (s.options.Confined → s.NamedApart → s.Intact t' ∧ ∀ c ∈ s.compiled, ∀ f ∈ c.2.files,
        t.placeOf a.out <+: t.placeOf (s.pathOf c.1 f)) ∧
      ∀ p contents, t'.entry? p = some (.file contents) → t.entry? p = some (.file contents) ∨
        ∃ text, contents = .text text ∧ ((p, text) ∈ s.writes ∨ ∃ dir ∈ s.cacheDir, ∃ c ∈ s.compiled,
          (p, text) = Request.entryWrite t.placeOf dir ⟨c.1, s.options⟩ c.2)) := by
  obtain ⟨s, rfl, rfl, t₁, hdirs, hall⟩ := runCompile_session hrun hexit
  refine ⟨s, rfl, rfl, fun hcache => ?_⟩
  have hparsed : ∀ r ∈ s.requests, r.document.Parsed := by
    intro r hr
    obtain ⟨d, hd, rfl⟩ := List.mem_map.1 hr
    exact s.parsed hd
  have hgenuine : ∀ dir ∈ s.cacheDir, Genuine s.requests t₁ dir := fun dir hdir =>
    (hcache dir hdir).1.wrote hdirs (by simp)
  obtain ⟨all, h₁⟩ := compileAll_delivered hparsed (fun dir hdir => (hcache dir hdir).2)
    (fun d hd => List.mem_map_of_mem hd) hgenuine hall hexit
  have h := h₁.after hdirs
  have hiff := Session.intact_iff_agree h
  refine ⟨fun c hc f hf => Session.readText_last h hc hf, hiff, fun hconfined hnamed => ⟨?_, ?_⟩,
    fun p contents hentry => Session.file_origin h hentry⟩
  · exact hiff.2 (Session.agree_of_namedApart hconfined hnamed)
  · intro c hc f hf
    rw [Session.placeOf_pathOf hconfined hnamed hc hf, List.append_assoc]
    exact List.prefix_append _ _

/-! ## Two documents -/

/-- The text of a document with one component. -/
def appText (word : String) : String :=
  "\x7b\"components\":[\x7b\"name\":\"App\",\"children\":\"" ++ word ++ "\"\x7d]\x7d"

/-- Two documents in different directories. -/
def appsTree (first second : String) : FileTree :=
  { entries :=
      [(["apps"], .directory), (["apps", "a"], .directory), (["apps", "a", first], .file (.text (appText "one"))),
       (["apps", "b"], .directory), (["apps", "b", second], .file (.text (appText "two")))] }

/-- Both documents, compiled without a cache. -/
def appsArguments : CompileArguments :=
  { input := "apps", platform := none, out := "out", config := none, noCache := true, cacheDir := ".cache",
    sequential := false }

/-- What can be computed from the documents of the two files and from compiling them is true
of the run. -/
theorem exists_appsSession (first second : String) (known : List SourceDocument → Outcome × FileTree → Bool)
    (hthere : ((FileTree.system.pathExists "apps").run (appsTree first second)).1 = true)
    (hroot : (appsTree first second).isFile "apps" = false)
    (hfound : (((appsTree first second).filesBelow "apps").filter fun names =>
      (names.getLast?.map Documents.isDocumentName).getD false) = [["a", first], ["b", second]])
    (hknown : (((Documents.readAll FileTree.system
      ([["a", first], ["b", second]].map fun names => FilePath.join "apps" (Text.join "/" names))).run
        (appsTree first second)).1.toOption.any fun ds => known ds ((compileAll FileTree.system {} none
          (outputDir "out" (1 < ds.length)) ds {}).run (appsTree first second))) = true) :
    ∃ s : Session, s.arguments = appsArguments ∧ s.files = appsTree first second ∧ s.options = {} ∧
      known s.documents ((runCompile FileTree.system s.arguments).run s.files) = true := by
  have hordered : [["a", first], ["b", second]].Pairwise fun a b => Documents.ordered a b = true := by
    have hab : ("a" < "b") := by decide
    simp [Documents.ordered, hab]
  have hfind := Documents.run_find hroot hfound hordered
  cases hread : ((Documents.readAll FileTree.system
      ([["a", first], ["b", second]].map fun names => FilePath.join "apps" (Text.join "/" names))).run
        (appsTree first second)).1 with
  | error e =>
    rw [hread] at hknown
    cases hknown
  | ok ds =>
    rw [hread] at hknown
    have hdocuments := run_documents hthere hfind rfl hread
    refine ⟨⟨appsArguments, appsTree first second, {}, ds, ⟨{}, rfl, rfl⟩, hdocuments⟩, rfl, rfl, rfl, ?_⟩
    rw [Session.runCompile_eq _ rfl]
    exact hknown

theorem runCompile_artifacts_apart :
    ∃ s : Session, s.arguments = appsArguments ∧ s.files = appsTree "shop.app.json" "blog.app.json" ∧
      ((runCompile FileTree.system s.arguments).run s.files).1.exit = 0 ∧ s.CacheRight ∧ s.options.Confined ∧
      s.NamedApart ∧ s.Intact ((runCompile FileTree.system s.arguments).run s.files).2 := by
  obtain ⟨s, harguments, hfiles, hoptions, hknown⟩ := exists_appsSession "shop.app.json" "blog.app.json"
    (fun ds run => run.1.exit == 0 && (compiled {} ds).map (fun c => Documents.stem c.1.path) == ["shop", "blog"])
    (by decide +kernel) (by decide +kernel) (by decide +kernel) (by decide +kernel)
  rw [Bool.and_eq_true, beq_iff_eq, beq_iff_eq] at hknown
  obtain ⟨hexit, hstems⟩ := hknown
  replace hstems : (s.compiled.map fun c => Documents.stem c.1.path) = ["shop", "blog"] := by
    rw [← hstems, Session.compiled, hoptions]
  have hcache : s.CacheRight := by
    intro dir hdir
    rw [Session.cacheDir, harguments] at hdir
    cases hdir
  have hconfined : s.options.Confined := by
    rw [hoptions]
    exact ⟨by decide, by decide, by decide⟩
  have hnamed : s.NamedApart := by
    refine .inr ⟨?_, ?_⟩
    · rw [hstems]
      decide
    · intro c hc
      have hstem : Documents.stem c.1.path ∈ ["shop", "blog"] := hstems ▸ List.mem_map_of_mem hc
      simp only [List.mem_cons, List.not_mem_nil, or_false] at hstem
      rcases hstem with heq | heq
      · rw [heq]
        exact ⟨by decide, by decide, by decide⟩
      · rw [heq]
        exact ⟨by decide, by decide, by decide⟩
  rcases hrun : (runCompile FileTree.system s.arguments).run s.files with ⟨outcome, t'⟩
  rw [hrun] at hexit
  obtain ⟨s', harguments', hfiles', hright⟩ := runCompile_artifacts hrun (by rw [hexit]; decide)
  obtain rfl := Session.eq_of_files harguments' hfiles'
  refine ⟨s', harguments, hfiles, ?_, hcache, hconfined, hnamed, ?_⟩
  · rw [hrun]
    exact hexit
  · rw [hrun]
    exact ((hright hcache).2.2.1 hconfined hnamed).1

/-- Two documents of one name share a directory, and the run ends as if all were well, while
the first of them has lost an artifact to the second. -/
theorem runCompile_loses_artifact :
    ∃ s : Session, s.arguments = appsArguments ∧ s.files = appsTree "shop.app.json" "shop.app.json" ∧
      ((runCompile FileTree.system s.arguments).run s.files).1.exit = 0 ∧
      ¬ s.Intact ((runCompile FileTree.system s.arguments).run s.files).2 := by
  obtain ⟨s, harguments, hfiles, hoptions, hknown⟩ := exists_appsSession "shop.app.json" "shop.app.json"
    (fun ds run => run.1.exit == 0 && (compiled {} ds).any fun c => c.2.files.any fun f =>
      (run.2.readText (FilePath.join (outputDir "out" (1 < ds.length) c.1) f.path)).toOption != some f.contents)
    (by decide +kernel) (by decide +kernel) (by decide +kernel) (by decide +kernel)
  rw [Bool.and_eq_true, beq_iff_eq, List.any_eq_true] at hknown
  obtain ⟨hexit, c, hc, hlost⟩ := hknown
  obtain ⟨f, hf, hlost⟩ := List.any_eq_true.1 hlost
  refine ⟨s, harguments, hfiles, hexit, fun hintact => ?_⟩
  have hread := hintact c (by rw [Session.compiled, hoptions]; exact hc) f hf
  rw [Session.pathOf, Session.dirOf, show s.arguments.out = "out" by rw [harguments]; rfl] at hread
  rw [hread] at hlost
  simp [Except.toOption] at hlost

end ViewTree.CommandLine
