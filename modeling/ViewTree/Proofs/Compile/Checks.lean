import Mathlib.Data.List.Forall2
import ViewTree.Compile

/-!
# Where a compilation can fail

A compilation fails when the document does not load, or when one of the three
checks of the whole app finds a problem: names, contexts and imports. Nothing that
comes after them can fail. `collect_ok` is the reason: whether the imports of a file
can be collected is settled by the imports of the document alone, whatever the
compiler adds.
-/

namespace ViewTree

/-! ## The checks of an app -/

/-- The problems a failed step leaves behind. -/
def problemsOf {α : Type} : Except (List Problem) α → List Problem
  | .ok _ => []
  | .error problems => problems

/-- The result of a step, or what stands in for it after a failure. -/
def resultOr {α : Type} (other : α) : Except (List Problem) α → α
  | .ok a => a
  | .error _ => other

theorem exists_ok_of_isOk {α : Type} {result : Except (List Problem) α} (h : result.isOk = true) :
    ∃ a, result = .ok a := by
  cases result with
  | ok a => exact ⟨a, rfl⟩
  | error problems => cases h

theorem eq_ok_of_toOption {α : Type} {result : Except (List Problem) α} {a : α} (h : result.toOption = some a) :
    result = .ok a := by
  cases result with
  | ok b => exact congrArg _ (Option.some.inj h)
  | error problems => cases h

namespace App

/-- The table that contexts are bound with: that of the names, or an empty one. -/
def nameTable (app : App) : NameTable := resultOr {} (Names.resolve app {}).outcome

/-- The contexts of an app, bound after its names, and the table afterwards. -/
def bound (app : App) : Except (List Problem) Contexts × NameTable :=
  Contexts.bind app (Names.resolve app {}).naming app.nameTable

/-- The problems of the names, of the contexts and of the imports, in this order. -/
def checkProblems (app : App) : List Problem :=
  problemsOf (Names.resolve app {}).outcome ++ problemsOf app.bound.1 ++
    app.importProblems (Names.resolve app {}).naming

/-- What the components of an app that passed its checks are written with. -/
def scope (app : App) (options : Options) : Scope :=
  { app, options
    platform := options.resolvePlatform app.platform
    naming := (Names.resolve app {}).naming, table := app.bound.2, contexts := resultOr [] app.bound.1 }

@[simp]
theorem scope_app (app : App) (options : Options) : (app.scope options).app = app := rfl

@[simp]
theorem scope_options (app : App) (options : Options) : (app.scope options).options = options := rfl

@[simp]
theorem scope_platform (app : App) (options : Options) :
    (app.scope options).platform = options.resolvePlatform app.platform := rfl

theorem scope_contexts {app : App} {contexts : Contexts} (h : app.bound.1 = .ok contexts) (options : Options) :
    (app.scope options).contexts = contexts := by
  simp only [scope, h, resultOr]

theorem analyze_eq (app : App) :
    app.analyze =
      { naming := (Names.resolve app {}).naming, table := app.bound.2, contexts := resultOr [] app.bound.1
        problems := app.checkProblems } := by
  unfold analyze checkProblems bound nameTable
  cases hn : (Names.resolve app {}).outcome with
  | ok table =>
    simp only [hn, resultOr, problemsOf]
    cases (Contexts.bind app (Names.resolve app {}).naming table).1 <;> simp
  | error problems =>
    simp only [hn, resultOr, problemsOf]
    cases (Contexts.bind app (Names.resolve app {}).naming {}).1 <;> simp

theorem compile_eq (app : App) (options : Options) :
    app.compile options =
      if app.checkProblems = [] then
        match componentFiles (app.scope options) 0 app.components with
        | (files, []) =>
          .ok (Output.assemble app files (app.scope options).contexts options (app.scope options).platform)
        | (_, problems) => .error problems
      else .error app.checkProblems := by
  unfold compile
  simp only [analyze_eq, List.isEmpty_iff, scope]
  split
  · rcases componentFiles _ 0 app.components with ⟨files, _ | ⟨p, ps⟩⟩ <;> rfl
  · rfl

end App

/-! ## Imports -/

theorem addNewProblems_ne_nil (problems found : List Problem) (h : problems ≠ []) :
    addNewProblems problems found ≠ [] := by
  unfold addNewProblems
  induction found generalizing problems with
  | nil => exact h
  | cons p found ih =>
    rw [List.foldl_cons]
    apply ih
    split
    · exact h
    · simp

theorem addNewProblems_eq_nil (problems found : List Problem) :
    addNewProblems problems found = [] ↔ problems = [] ∧ found = [] := by
  constructor
  · intro h
    have hp : problems = [] := by
      by_contra hp
      exact addNewProblems_ne_nil problems found hp h
    subst hp
    refine ⟨rfl, ?_⟩
    cases found with
    | nil => rfl
    | cons p found => exact absurd h (addNewProblems_ne_nil [p] found (by simp))
  · rintro ⟨rfl, rfl⟩
    rfl

/-- The check of the whole app finds nothing exactly if the check of each file does. -/
theorem App.importProblems_eq_nil (app : App) (naming : Naming) :
    app.importProblems naming = [] ↔
      ∀ c ∈ app.components, (ImportBlock.check (naming.functions c) (app.userImports c)).problems = [] := by
  have main : ∀ (cs : List Node) (problems : List Problem),
      cs.foldl (fun problems c => addNewProblems problems
        (ImportBlock.check (naming.functions c) (app.userImports c)).problems) problems = [] ↔
      problems = [] ∧
        ∀ c ∈ cs, (ImportBlock.check (naming.functions c) (app.userImports c)).problems = [] := by
    intro cs
    induction cs with
    | nil => simp
    | cons c cs ih =>
      intro problems
      rw [List.foldl_cons, ih, addNewProblems_eq_nil]
      simp [and_assoc]
  unfold importProblems
  rw [main]
  simp

/-- Imports that pass the check are collected, whatever the compiler adds to them. -/
theorem ImportBlock.collect_ok {user : List Import} {reserved : Reserved}
    (h : (check reserved user).problems = []) (implicit : List Import) :
    ∃ block, collect user implicit reserved = .ok block := by
  unfold collect
  simp [h]

/-! ## Files -/

theorem ComponentFile.ofComponent_ok {s : Scope} {c : Node}
    (h : (ImportBlock.check (s.naming.functions c) (s.app.userImports c)).problems = []) (index : Nat) :
    ∃ file, ofComponent s index c = .ok file := by
  obtain ⟨block, hb⟩ := ImportBlock.collect_ok h (implicitImports s index (functions s index c).notes)
  unfold ofComponent
  dsimp only
  rw [hb]
  exact ⟨_, rfl⟩

/-- What a component's file is made of. -/
theorem ComponentFile.ofComponent_eq_ok {s : Scope} {index : Nat} {c : Node} {file : ComponentFile}
    (h : ofComponent s index c = .ok file) :
    file.path = pathOf s (s.functionName c.head) ∧
      ∃ block, ImportBlock.collect (s.app.userImports c) (implicitImports s index (functions s index c).notes)
          (s.naming.functions c) = .ok block ∧
        file.source = sourceText block (functions s index c).value := by
  unfold ofComponent at h
  dsimp only at h
  cases hb : ImportBlock.collect (s.app.userImports c) (implicitImports s index (functions s index c).notes)
      (s.naming.functions c) with
  | error problems =>
    rw [hb] at h
    cases h
  | ok block =>
    rw [hb] at h
    obtain rfl := Except.ok.inj h
    exact ⟨rfl, block, rfl, rfl⟩

/-- What a component adds to the two stylesheets. -/
theorem ComponentFile.ofComponent_sheets {s : Scope} {index : Nat} {c : Node} {file : ComponentFile}
    (h : ofComponent s index c = .ok file) :
    file.styleSheet = (c.definitions.filterMap fun d => d.head.styleSheet) ∧
      file.styleModule = (c.definitions.filterMap fun d => d.head.styleModule) ++ classBlocks s c := by
  unfold ofComponent at h
  dsimp only at h
  cases hb : ImportBlock.collect (s.app.userImports c) (implicitImports s index (functions s index c).notes)
      (s.naming.functions c) with
  | error problems =>
    rw [hb] at h
    cases h
  | ok block =>
    rw [hb] at h
    obtain rfl := Except.ok.inj h
    exact ⟨rfl, rfl⟩

/-- The files are those of the components, one for each and in their order, the next
of which is number `index`. -/
def Written (s : Scope) (index : Nat) (components : List Node) (files : List ComponentFile) : Prop :=
  List.Forall₂ (fun (c : Node × Nat) file => ComponentFile.ofComponent s c.2 c.1 = .ok file)
    (components.zipIdx index) files

theorem Written.getElem? {s : Scope} {cs : List Node} {index : Nat} {files : List ComponentFile}
    (hw : Written s index cs files) {i : Nat} {c : Node} (hc : cs[i]? = some c) :
    ∃ file, files[i]? = some file ∧ ComponentFile.ofComponent s (index + i) c = .ok file := by
  induction cs generalizing index i files with
  | nil => cases hc
  | cons d cs ih =>
    obtain ⟨file, files, ho, hw', rfl⟩ := List.forall₂_cons_left_iff.1 hw
    cases i with
    | zero =>
      obtain rfl := Option.some.inj hc
      exact ⟨file, rfl, ho⟩
    | succ i =>
      obtain ⟨found, hf, hfo⟩ := ih hw' hc
      rw [Nat.add_right_comm] at hfo
      exact ⟨found, hf, hfo⟩

/-- What is told of a file by its component is told of all files by the components. -/
theorem Written.map_eq {α : Type} {s : Scope} {cs : List Node} {index : Nat} {files : List ComponentFile}
    (hw : Written s index cs files) {g : ComponentFile → α} {k : Node → α}
    (h : ∀ i c file, ComponentFile.ofComponent s i c = .ok file → g file = k c) : files.map g = cs.map k := by
  induction cs generalizing index files with
  | nil =>
    cases hw
    rfl
  | cons c cs ih =>
    obtain ⟨file, files, ho, hw', rfl⟩ := List.forall₂_cons_left_iff.1 hw
    rw [List.map_cons, List.map_cons, ih hw', h _ _ _ ho]

theorem componentFiles_ok {s : Scope} (cs : List Node) (index : Nat)
    (h : ∀ c ∈ cs, (ImportBlock.check (s.naming.functions c) (s.app.userImports c)).problems = []) :
    ∃ files, componentFiles s index cs = (files, []) ∧ Written s index cs files := by
  induction cs generalizing index with
  | nil => exact ⟨[], rfl, .nil⟩
  | cons c cs ih =>
    obtain ⟨files, hf, hw⟩ := ih (index + 1) (fun d hd => h d (by simp [hd]))
    obtain ⟨file, ho⟩ := ComponentFile.ofComponent_ok (h c (by simp)) index
    refine ⟨file :: files, ?_, .cons ho hw⟩
    simp only [componentFiles, hf, ho]

/-- Naming that finds no problem gives a table. -/
theorem Names.resolve_ok {app : App} {before : Naming}
    (h : problemsOf (Names.resolve app before).outcome = []) :
    ∃ table, (Names.resolve app before).outcome = .ok table := by
  unfold Names.resolve at h ⊢
  dsimp only at h ⊢
  split at h
  · rename_i hp
    rw [if_pos hp]
    exact ⟨_, rfl⟩
  · rename_i hp
    exact absurd (List.isEmpty_iff.2 h) hp

/-- Binding that finds no problem gives contexts. -/
theorem Contexts.bind_ok {app : App} {naming : Naming} {table : NameTable}
    (h : problemsOf (Contexts.bind app naming table).1 = []) :
    ∃ contexts, (Contexts.bind app naming table).1 = .ok contexts := by
  unfold Contexts.bind at h ⊢
  dsimp only at h ⊢
  split at h
  · rename_i hp
    rw [if_pos hp]
    exact ⟨_, rfl⟩
  · rename_i hp
    exact absurd (List.isEmpty_iff.2 h) hp

/-- What it means that the checks find nothing. -/
theorem App.check_nil {app : App} (h : app.checkProblems = []) :
    (∃ table, (Names.resolve app {}).outcome = .ok table) ∧ (∃ contexts, app.bound.1 = .ok contexts) ∧
      ∀ c ∈ app.components,
        (ImportBlock.check ((Names.resolve app {}).naming.functions c) (app.userImports c)).problems = [] := by
  unfold checkProblems at h
  rw [List.append_eq_nil_iff, List.append_eq_nil_iff] at h
  obtain ⟨⟨hn, hc⟩, hi⟩ := h
  exact ⟨Names.resolve_ok hn, Contexts.bind_ok hc, (importProblems_eq_nil app _).1 hi⟩

/-- An app that passes its checks compiles to the files of its components. -/
theorem App.compile_of_check {app : App} (h : app.checkProblems = []) (options : Options) :
    ∃ files, Written (app.scope options) 0 app.components files ∧
      app.compile options =
        .ok (Output.assemble app files (app.scope options).contexts options (app.scope options).platform) := by
  obtain ⟨files, hf, hw⟩ := componentFiles_ok (s := app.scope options) app.components 0 (check_nil h).2.2
  refine ⟨files, hw, ?_⟩
  rw [compile_eq, if_pos h, hf]

/-- The component files come first in the output, in the order of the components. -/
theorem Written.artifact {app : App} {options : Options} {files : List ComponentFile}
    (hw : Written (app.scope options) 0 app.components files) {i : Nat} {c : Node}
    (hc : app.components[i]? = some c) (contexts : Contexts) :
    ∃ file, ComponentFile.ofComponent (app.scope options) i c = .ok file ∧
      (Output.artifacts app files contexts options)[i]? =
        some { path := file.path, kind := .component, contents := file.source } := by
  obtain ⟨file, hfile, ho⟩ := hw.getElem? hc
  have hlt : i < files.length := (List.getElem?_eq_some_iff.1 hfile).1
  rw [Nat.zero_add] at ho
  refine ⟨file, ho, ?_⟩
  unfold Output.artifacts
  rw [List.append_assoc, List.getElem?_append_left (by simpa using hlt), List.getElem?_map, hfile]
  rfl

/-- The artifacts of an output, kind by kind. -/
theorem Output.ofKind_assemble (app : App) (files : List ComponentFile) (contexts : Contexts) (options : Options)
    (platform : Platform) (kind : ArtifactKind) :
    (assemble app files contexts options platform).ofKind kind =
      match kind with
      | .component => files.map fun c => { path := c.path, kind := .component, contents := c.source }
      | .globalStylesheet =>
        [{ path := ComponentFile.dropSlashes options.styleDir ++ "/" ++ ComponentFile.globalSheet
           kind := .globalStylesheet
           contents := appendSections app.styleSheet (files.flatMap ComponentFile.styleSheet) }]
      | .styleModule =>
        [{ path := ComponentFile.dropSlashes options.styleDir ++ "/" ++ ComponentFile.styleModuleSheet
           kind := .styleModule
           contents := appendSections app.styleModule (files.flatMap ComponentFile.styleModule) }]
      | .contexts =>
        if contexts.isEmpty then [] else [{ path := contextsPath, kind := .contexts, contents := contexts.render }] := by
  have hcomponents : (files.map fun c => ({ path := c.path, kind := .component, contents := c.source } : Artifact)).filter
      (fun f => f.kind == kind) =
      if kind = .component then files.map fun c => { path := c.path, kind := .component, contents := c.source } else [] := by
    cases kind <;> simp [List.filter_map, Function.comp_def]
  unfold ofKind assemble artifacts
  simp only [List.filter_append, hcomponents]
  cases contexts.isEmpty <;> cases kind <;> simp

/-- An app that compiles has passed its checks. -/
theorem App.compile_eq_ok {app : App} {options : Options} {output : Output} (h : app.compile options = .ok output) :
    app.checkProblems = [] ∧ ∃ files, Written (app.scope options) 0 app.components files ∧
      output = Output.assemble app files (app.scope options).contexts options (app.scope options).platform := by
  by_cases hc : app.checkProblems = []
  · obtain ⟨files, hw, ho⟩ := compile_of_check hc options
    rw [ho] at h
    exact ⟨hc, files, hw, (Except.ok.inj h).symm⟩
  · rw [compile_eq, if_neg hc] at h
    cases h

/-- What compiles has passed the checks of its app. -/
theorem compile_eq_ok {document : Json} {options : Options} {output : Output}
    (h : compile document options = .ok output) :
    ∃ app files, Load.app document = .ok app ∧ app.checkProblems = [] ∧
      Written (app.scope options) 0 app.components files ∧
      output = Output.assemble app files (app.scope options).contexts options (app.scope options).platform := by
  unfold compile at h
  split at h
  · rename_i app hl
    obtain ⟨hc, files, hw, ho⟩ := App.compile_eq_ok h
    exact ⟨app, files, hl, hc, hw, ho⟩
  · cases h

/-- A document that does not load has a problem. -/
theorem Load.app_error_ne_nil {document : Json} {problems : List Problem}
    (h : Load.app document = .error problems) : problems ≠ [] := by
  unfold Load.app at h
  split at h
  · split at h
    · cases h
    · cases h
      assumption
  · cases h
    simp

/-- A compilation fails with exactly these lists of problems. -/
theorem compile_eq_error_iff (document : Json) (options : Options) (problems : List Problem) :
    compile document options = .error problems ↔
      Load.app document = .error problems ∨
        ∃ app, Load.app document = .ok app ∧ app.checkProblems = problems ∧ problems ≠ [] := by
  unfold compile
  cases hl : Load.app document with
  | error found => simp
  | ok app =>
    by_cases hc : app.checkProblems = []
    · obtain ⟨files, -, ho⟩ := App.compile_of_check hc options
      simp only [ho, reduceCtorEq, Except.ok.injEq, false_or, exists_eq_left', false_iff, not_and, not_not]
      exact fun h => h.symm.trans hc
    · simp only [App.compile_eq, if_neg hc, Except.error.injEq, reduceCtorEq, Except.ok.injEq, false_or,
        exists_eq_left']
      exact ⟨fun h => ⟨h, h ▸ hc⟩, fun h => h.1⟩

/-- A compilation fails only where the document does not load or the checks of the
app find a problem, and then with exactly the problems found there. Past the checks
the file of every component can be written, whatever the compiler imports on its own
account, so the options never decide whether a document compiles. -/
theorem compile_fails_only_at_checks (document : Json) (options : Options) :
    (∀ problems, compile document options = .error problems ↔
      Load.app document = .error problems ∨
        ∃ app, Load.app document = .ok app ∧ app.checkProblems = problems ∧ problems ≠ []) ∧
    (∀ problems, compile document options = .error problems → problems ≠ []) ∧
    (∀ app, Load.app document = .ok app → app.checkProblems = [] →
      ∀ i c, app.components[i]? = some c →
        (∀ implicit, ∃ block, ImportBlock.collect (app.userImports c) implicit
          ((app.scope options).naming.functions c) = .ok block) ∧
        ∃ file, ComponentFile.ofComponent (app.scope options) i c = .ok file) ∧
    ∀ other : Options,
      ((∃ a, compile document options = .ok a) ∧ ∃ b, compile document other = .ok b) ∨
        ∃ problems, compile document options = .error problems ∧ compile document other = .error problems := by
  refine ⟨compile_eq_error_iff document options, ?_, ?_, ?_⟩
  · intro problems h
    rcases (compile_eq_error_iff document options problems).1 h with hl | ⟨app, -, -, hne⟩
    · exact Load.app_error_ne_nil hl
    · exact hne
  · intro app _ hc i c hi
    have hcheck : (ImportBlock.check ((app.scope options).naming.functions c)
        ((app.scope options).app.userImports c)).problems = [] :=
      (App.check_nil hc).2.2 c (List.mem_of_getElem? hi)
    exact ⟨ImportBlock.collect_ok hcheck, ComponentFile.ofComponent_ok hcheck i⟩
  · intro other
    cases ho : compile document options with
    | error problems =>
      have h := (compile_eq_error_iff document options problems).1 ho
      exact .inr ⟨problems, rfl, (compile_eq_error_iff document other problems).2 h⟩
    | ok a =>
      refine .inl ⟨⟨a, rfl⟩, ?_⟩
      cases hp : compile document other with
      | ok b => exact ⟨b, rfl⟩
      | error problems =>
        have h := (compile_eq_error_iff document other problems).1 hp
        rw [(compile_eq_error_iff document options problems).2 h] at ho
        cases ho

end ViewTree
