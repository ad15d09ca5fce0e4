import ViewTree.Proofs.Compile.Files
import ViewTree.Proofs.Import.Exact
import ViewTree.Proofs.Names.Apart

/-!
# The imports of the compiler

The compiler asks for its imports in this order: stylesheets, hooks, contexts, style
helpers, elements, components of other files. No local name is asked for twice before
the components, and no two components ask for the same one. Contexts and components of
other files are called like no function of the file. So an import that the compiler asks
for is there unless the document binds its local name, or that is one of the compiler's
own names and a component has it too (`compile_keeps_generated_imports`).
-/

namespace ViewTree

theorem nodup_eraseDups {α : Type} [BEq α] [LawfulBEq α] : ∀ l : List α, l.eraseDups.Nodup
  | [] => by simp
  | a :: l => by
    rw [List.eraseDups_cons, List.nodup_cons, List.mem_eraseDups]
    exact ⟨by simp, nodup_eraseDups (l.filter fun b => !b == a)⟩
termination_by l => l.length
decreasing_by exact Nat.lt_succ_of_le (List.length_filter_le _ _)

/-- The local names that imports ask for, in order. -/
def localsOf (imports : List Import) : List String := imports.flatMap Import.locals

/-- The style helpers. -/
def styleHelpers : List String := ["mergeStyles", "matchFormat", "useWindowDimensions"]

/-- The names that the compiler writes on its own account: hooks, style helpers and the
elements of the platform. -/
def ownNames : List String := hookNames ++ styleHelpers ++ Platform.nativeElements

theorem ownNames_nodup : ownNames.Nodup := by decide

theorem ownNames_not_cased : ∀ name ∈ ownNames, ¬ Contexts.Cased name := by decide

/-! ## The local names that are asked for -/

namespace ComponentFile

theorem locals_ofNames (source : String) (names : List String) : (Import.ofNames source names).locals = names := by
  simp [Import.locals, Import.ofNames, Import.entries, NamedImport.localName, Function.comp_def]

theorem localsOf_namesImport (source : String) (names : List String) : localsOf (namesImport source names) = names := by
  unfold namesImport
  split
  · rename_i hempty
    rw [List.isEmpty_iff.1 hempty]
    rfl
  · rw [localsOf, List.flatMap_singleton, locals_ofNames]

theorem localsOf_sheetImports (s : Scope) (index : Nat) : localsOf (sheetImports s index) = [] := by
  rw [sheetImports_eq]
  split
  · rfl
  · rfl

theorem localsOf_styleImports (platform : Platform) (usage : StyleUsage) (runtimeModule : String) :
    (localsOf (platform.styleImports usage runtimeModule)).Sublist styleHelpers := by
  obtain ⟨merge, format⟩ := usage
  cases platform with
  | web => exact List.nil_sublist _
  | crossPlatform =>
    cases merge <;> cases format <;>
      simp [localsOf, Platform.styleImports, styleHelpers, locals_ofNames]

theorem localsOf_elements (platform : Platform) (tags : List String) :
    (localsOf (tags.filterMap platform.elementImport)).Sublist (tags.filter Platform.nativeElements.contains) := by
  induction tags with
  | nil => exact List.Sublist.refl _
  | cons tag tags ih =>
    cases htag : platform.elementImport tag with
    | none =>
      rw [List.filterMap_cons_none htag]
      exact ih.trans ((List.sublist_cons_self tag tags).filter _)
    | some u =>
      obtain ⟨hnative, rfl⟩ := elementImport_eq_some htag
      rw [List.filterMap_cons_some htag, List.filter_cons_of_pos hnative, localsOf, List.flatMap_cons, locals_ofNames]
      exact ih.cons_cons tag

theorem locals_referenceImport (r : Reference) : (referenceImport r).locals = [r.identifier] := by
  unfold referenceImport
  dsimp only
  split
  · rfl
  · rw [locals_ofNames]

theorem localsOf_referenceImports (needs : Needs) :
    localsOf (referenceImports needs) = needs.references.eraseDups.map Reference.identifier := by
  rw [localsOf, referenceImports, List.flatMap_map]
  simp only [locals_referenceImport]
  exact List.map_eq_flatMap.symm

theorem localsOf_plainImports (s : Scope) (index : Nat) (needs : Needs) :
    localsOf (plainImports s index needs) =
      needs.hooks.eraseDups ++ needs.contexts.eraseDups ++
        localsOf (s.platform.styleImports needs.usage s.options.runtimeModule) ++
        localsOf (needs.tags.eraseDups.filterMap s.platform.elementImport) := by
  have happend : ∀ a b : List Import, localsOf (a ++ b) = localsOf a ++ localsOf b := fun _ _ => List.flatMap_append
  rw [plainImports, happend, happend, happend, happend, localsOf_sheetImports, localsOf_namesImport, localsOf_namesImport,
    List.nil_append]

section

variable {s : Scope} {index : Nat} {needs : Needs} (haccounted : needs.Accounted s index)

include haccounted

/-- Before the components, the compiler asks for its own names and for contexts. -/
theorem mem_localsOf_plainImports {name : String} (h : name ∈ localsOf (plainImports s index needs)) :
    name ∈ ownNames ∨ name ∈ s.contexts.map fun c => c.2.identifier := by
  rw [localsOf_plainImports, List.mem_append, List.mem_append, List.mem_append, List.mem_eraseDups, List.mem_eraseDups] at h
  unfold ownNames
  rw [List.mem_append, List.mem_append]
  rcases h with ((h | h) | h) | h
  · exact .inl (.inl (.inl (haccounted.hooks name h)))
  · exact .inr (haccounted.contexts name h)
  · exact .inl (.inl (.inr ((localsOf_styleImports _ _ _).subset h)))
  · have hnative := List.of_mem_filter ((localsOf_elements _ _).subset h)
    exact .inl (.inr (by simpa using hnative))

/-- Before the components, no local name is asked for twice. -/
theorem localsOf_plainImports_nodup (hcased : ∀ name ∈ s.contexts.map fun c => c.2.identifier, Contexts.Cased name) :
    (localsOf (plainImports s index needs)).Nodup := by
  have hhooks : needs.hooks.eraseDups ⊆ hookNames := fun name h => haccounted.hooks name (List.mem_eraseDups.1 h)
  have hstyles := localsOf_styleImports s.platform needs.usage s.options.runtimeModule
  have helements := localsOf_elements s.platform needs.tags.eraseDups
  have hnative : localsOf (needs.tags.eraseDups.filterMap s.platform.elementImport) ⊆ Platform.nativeElements :=
    fun name h => by simpa using List.of_mem_filter (helements.subset h)
  have hcontexts : ∀ names ⊆ ownNames, needs.contexts.eraseDups.Disjoint names := by
    intro names hnames name hcontext hname
    exact ownNames_not_cased name (hnames hname) (hcased name (haccounted.contexts name (List.mem_eraseDups.1 hcontext)))
  have hown := ownNames_nodup
  rw [ownNames, List.nodup_append', List.nodup_append', List.disjoint_append_left] at hown
  obtain ⟨⟨-, hhelpers, hhooksHelpers⟩, -, hhooksNative, hhelpersNative⟩ := hown
  have howned : hookNames ⊆ ownNames ∧ styleHelpers ⊆ ownNames ∧ Platform.nativeElements ⊆ ownNames := by decide
  rw [localsOf_plainImports]
  refine (((nodup_eraseDups _).append (nodup_eraseDups _) ?_).append (hhelpers.sublist hstyles) ?_).append
    (((nodup_eraseDups _).filter _).sublist helements) ?_
  · exact List.disjoint_comm.1 (hcontexts _ (List.Subset.trans hhooks howned.1))
  · rw [List.disjoint_append_left]
    exact ⟨List.disjoint_of_subset_left hhooks (List.disjoint_of_subset_right hstyles.subset hhooksHelpers),
      hcontexts _ (List.Subset.trans hstyles.subset howned.2.1)⟩
  · rw [List.disjoint_append_left, List.disjoint_append_left]
    exact ⟨⟨List.disjoint_of_subset_left hhooks (List.disjoint_of_subset_right hnative hhooksNative),
      hcontexts _ (List.Subset.trans hnative howned.2.2)⟩,
      List.disjoint_of_subset_left hstyles.subset (List.disjoint_of_subset_right hnative hhelpersNative)⟩

end

end ComponentFile

open ImportBlock (entriesOf first?)

/-- Where no local name is asked for twice, every entry is the first to ask for its own. -/
theorem first?_entriesOf {imports : List Import} (h : (localsOf imports).Nodup) {u : Import} (hu : u ∈ imports)
    {symbol : Symbol} {name : String} (he : (symbol, name) ∈ u.entries) :
    first? (entriesOf imports) name = some (u, symbol, name) := by
  refine ImportBlock.first?_of_nodup (e := (u, symbol, name)) ?_ (List.mem_flatMap.2 ⟨u, hu, List.mem_map_of_mem he⟩)
  rw [ImportBlock.map_entriesOf]
  exact h

theorem Naming.functions_has {naming : Naming} {c : Node} {name : String}
    (h : (naming.functions c).has name = true) : ∃ d ∈ c.definitions, naming.nameOf d.head = some name := by
  obtain ⟨path, hpath⟩ := Option.isSome_iff_exists.1 h
  obtain ⟨d, hd, hname⟩ := List.mem_filterMap.1 (mem_of_lookup hpath)
  obtain ⟨found, hfound, heq⟩ := Option.map_eq_some_iff.1 hname
  obtain ⟨rfl, -⟩ := Prod.mk.inj heq
  exact ⟨d, hd, hfound⟩

/-! ## Components of other files -/

namespace App

/-- The imports for components of other files, which the compiler adds to the file of the
component at place `i`. -/
def referenceImports (app : App) (options : Options) (i : Nat) (c : Node) : List Import :=
  ComponentFile.referenceImports (ComponentFile.functions (app.scope options) i c).notes

/-- The imports that the compiler adds before those. -/
def plainImports (app : App) (options : Options) (i : Nat) (c : Node) : List Import :=
  ComponentFile.plainImports (app.scope options) i (ComponentFile.functions (app.scope options) i c).notes

/-- The import of a component binds the name of its function. -/
theorem referenceImports_name {app : App} {options : Options} {i : Nat} {c : Node} {u : Import}
    (hu : u ∈ app.referenceImports options i c) {symbol : Symbol} {name : String} (hentry : (symbol, name) ∈ u.entries) :
    ∃ r ∈ (ComponentFile.functions (app.scope options) i c).notes.references, name = r.identifier := by
  obtain ⟨r, hr, rfl⟩ := List.mem_map.1 hu
  have hname : name ∈ (ComponentFile.referenceImport r).locals := List.mem_map.2 ⟨_, hentry, rfl⟩
  rw [ComponentFile.locals_referenceImport, List.mem_singleton] at hname
  exact ⟨r, List.mem_eraseDups.1 hr, hname⟩

section

variable {document : Json} {app : App} (hload : Load.app document = .ok app) (hcheck : app.checkProblems = [])
  {options : Options} {i : Nat} {c : Node}

include hload hcheck

/-- The function of a component of another file is that of a node in that file. -/
theorem reference_node {r : Reference} (hr : r ∈ (ComponentFile.functions (app.scope options) i c).notes.references) :
    ∃ j d n, j ≠ i ∧ app.components[j]? = some d ∧ n ∈ d.nodes ∧
      (app.scope options).naming.nameOf n.head = some r.identifier := by
  obtain ⟨type, entry, hentry, howner, rfl⟩ := (ComponentFile.functions_accounted (app.scope options) i c).references r hr
  obtain ⟨d, n, hstands⟩ := component?_stands hload hcheck hentry
  exact ⟨entry.owner, d, n, howner, hstands.component, List.mem_of_mem_filter hstands.definition, hstands.identifier⟩

/-- The name of a component's function tells which component is referred to. -/
theorem reference_eq {r r' : Reference}
    (hr : r ∈ (ComponentFile.functions (app.scope options) i c).notes.references)
    (hr' : r' ∈ (ComponentFile.functions (app.scope options) i c).notes.references)
    (h : r.identifier = r'.identifier) : r = r' := by
  have haccounted := (ComponentFile.functions_accounted (app.scope options) i c).references
  obtain ⟨type, entry, hentry, -, rfl⟩ := haccounted r hr
  obtain ⟨type', entry', hentry', -, rfl⟩ := haccounted r' hr'
  obtain ⟨d, n, hstands⟩ := component?_stands hload hcheck hentry
  obtain ⟨d', n', hstands'⟩ := component?_stands hload hcheck hentry'
  have hidentifier := hstands.identifier
  rw [show entry.identifier = entry'.identifier from h] at hidentifier
  obtain rfl := eq_of_nameOf hload hcheck hstands.mem_nodes hstands'.mem_nodes hidentifier hstands'.identifier
  obtain rfl := Option.some.inj (hstands.explicit.symm.trans hstands'.explicit)
  rw [Option.some.inj (hentry.symm.trans hentry')]

theorem localsOf_referenceImports_nodup : (localsOf (app.referenceImports options i c)).Nodup := by
  rw [referenceImports, ComponentFile.localsOf_referenceImports]
  refine List.Nodup.map_on (fun r hr r' hr' h => ?_) (nodup_eraseDups _)
  exact reference_eq hload hcheck (List.mem_eraseDups.1 hr) (List.mem_eraseDups.1 hr') h

theorem localsOf_plainImports_nodup : (localsOf (app.plainImports options i c)).Nodup :=
  ComponentFile.localsOf_plainImports_nodup (ComponentFile.functions_accounted _ _ _)
    fun _ h => (contexts_apart hload hcheck h).1

/-- A context is not called like a function of the file. -/
theorem context_not_reserved {identifier : String}
    (h : identifier ∈ (app.scope options).contexts.map fun c => c.2.identifier) (c : Node) :
    ((app.scope options).naming.functions c).has identifier = false := by
  rw [← Bool.not_eq_true]
  intro hhas
  obtain ⟨d, -, hname⟩ := Naming.functions_has hhas
  exact (contexts_apart hload hcheck h).2 d.head hname

/-- A component of another file is not called like a function of the file. -/
theorem reference_not_reserved (hc : app.components[i]? = some c) {r : Reference}
    (hr : r ∈ (ComponentFile.functions (app.scope options) i c).notes.references) :
    ((app.scope options).naming.functions c).has r.identifier = false := by
  rw [← Bool.not_eq_true]
  intro hhas
  obtain ⟨d, hd, hname⟩ := Naming.functions_has hhas
  obtain ⟨j, e, n, hj, he, hn, hname'⟩ := reference_node hload hcheck hr
  have hdc : d ∈ c.nodes := List.mem_of_mem_filter hd
  have hdn : d = n := eq_of_nameOf hload hcheck (List.mem_flatMap.2 ⟨c, List.mem_of_getElem? hc, hdc⟩)
    (List.mem_flatMap.2 ⟨e, List.mem_of_getElem? he, hn⟩) hname hname'
  exact hj (component_unique hload he hc hn (hdn ▸ hdc))

end

end App

/-! ## The imports of a file -/

section

variable {document : Json} {app : App} (hload : Load.app document = .ok app) (hcheck : app.checkProblems = [])
  {options : Options} {i : Nat} {c : Node} {block : ImportBlock}
  (hblock : ImportBlock.collect (app.userImports c) (app.generatedImports options i c)
    ((app.scope options).naming.functions c) = .ok block)
  {u : Import} {symbol : Symbol} {name : String} (hentry : (symbol, name) ∈ u.entries)
  (huser : ∀ v ∈ app.userImports c, name ∉ v.locals)

include hload hcheck hblock hentry huser

/-- An import before those of components is there, unless a function of the file is called
like it. -/
theorem App.plainImports_bound (hu : u ∈ app.plainImports options i c)
    (hreserved : ((app.scope options).naming.functions c).has name = false) : block.Binds u symbol name := by
  have hfirst := first?_entriesOf (localsOf_plainImports_nodup hload hcheck) hu hentry
  refine ImportBlock.collect_binds hblock ?_ (by simpa using huser) hreserved
  rw [generatedImports, ComponentFile.implicitImports, ImportBlock.entriesOf_append, ImportBlock.first?_append]
  exact Option.or_eq_some_iff.2 (.inl hfirst)

/-- The import of a component is there, unless an import before it is called like it. -/
theorem App.referenceImports_bound (hc : app.components[i]? = some c) (hu : u ∈ app.referenceImports options i c)
    (hplain : name ∉ localsOf (app.plainImports options i c)) : block.Binds u symbol name := by
  have hfirst := first?_entriesOf (localsOf_referenceImports_nodup hload hcheck) hu hentry
  have hreserved : ((app.scope options).naming.functions c).has name = false := by
    obtain ⟨r, hr, rfl⟩ := referenceImports_name hu hentry
    exact reference_not_reserved hload hcheck hc hr
  have hnone := ImportBlock.first?_of_notMem hplain
  refine ImportBlock.collect_binds hblock ?_ (by simpa using huser) hreserved
  rw [generatedImports, ComponentFile.implicitImports, ImportBlock.entriesOf_append, ImportBlock.first?_append]
  exact Option.or_eq_some_iff.2 (.inr ⟨hnone, hfirst⟩)

end

/-- Every entry of an import that the compiler adds to a file is in the import block with
its source and its symbol, and its local name stands for it, unless an import of the
document binds that name. Else it is one of the compiler's own names, and a component has
it too: a function of the file, or a component of another file that is to be imported
next to it. -/
theorem compile_keeps_generated_imports {document : Json} {options : Options} {output : Output}
    (h : compile document options = .ok output) :
    ∃ app, Load.app document = .ok app ∧ ∀ (i : Nat) (c : Node), app.components[i]? = some c →
      ∃ file block, output.files[i]? = some file ∧
        ImportBlock.collect (app.userImports c) (app.generatedImports options i c)
          ((app.scope options).naming.functions c) = .ok block ∧
        file.contents = ComponentFile.sourceText block (ComponentFile.functions (app.scope options) i c).value ∧
        ∀ u ∈ app.generatedImports options i c, ∀ (symbol : Symbol) (name : String), (symbol, name) ∈ u.entries →
          block.Binds u symbol name ∨ (∃ v ∈ app.userImports c, name ∈ v.locals) ∨
            name ∈ ownNames ∧
              (u ∈ app.plainImports options i c ∧ ((app.scope options).naming.functions c).has name = true ∨
                u ∈ app.referenceImports options i c ∧ name ∈ localsOf (app.plainImports options i c)) := by
  obtain ⟨app, files, hload, hcheck, hwritten, rfl⟩ := compile_eq_ok h
  refine ⟨app, hload, fun i c hc => ?_⟩
  obtain ⟨file, ho, hartifact⟩ := hwritten.artifact hc (app.scope options).contexts
  obtain ⟨-, block, hblock, hsource⟩ := ComponentFile.ofComponent_eq_ok ho
  refine ⟨_, block, hartifact, hblock, hsource, fun u hu symbol name hentry => ?_⟩
  by_cases huser : ∃ v ∈ app.userImports c, name ∈ v.locals
  · exact .inr (.inl huser)
  push Not at huser
  have haccounted := ComponentFile.functions_accounted (app.scope options) i c
  rcases List.mem_append.1 hu with hplain | hreference
  · cases hreserved : ((app.scope options).naming.functions c).has name with
    | false => exact .inl (App.plainImports_bound hload hcheck hblock hentry huser hplain hreserved)
    | true =>
      have hname : name ∈ localsOf (app.plainImports options i c) :=
        List.mem_flatMap.2 ⟨u, hplain, List.mem_map.2 ⟨_, hentry, rfl⟩⟩
      rcases ComponentFile.mem_localsOf_plainImports haccounted hname with hown | hcontext
      · exact .inr (.inr ⟨hown, .inl ⟨hplain, rfl⟩⟩)
      · rw [App.context_not_reserved hload hcheck hcontext c] at hreserved
        cases hreserved
  · by_cases hname : name ∈ localsOf (app.plainImports options i c)
    · rcases ComponentFile.mem_localsOf_plainImports haccounted hname with hown | hcontext
      · exact .inr (.inr ⟨hown, .inr ⟨hreference, hname⟩⟩)
      · obtain ⟨r, hr, rfl⟩ := App.referenceImports_name hreference hentry
        obtain ⟨-, -, n, -, -, -, hnamed⟩ := App.reference_node hload hcheck hr
        exact absurd hnamed ((App.contexts_apart hload hcheck hcontext).2 n.head)
    · exact .inl (App.referenceImports_bound hload hcheck hblock hentry huser hc hreference hname)

/-- The document imports one hook of the first component; the compiler imports the other,
a context and a component of another file. -/
def mockedHook : Json :=
  .object [("components", .array
    [.object [("name", .string "Home"), ("provideContexts", .string "use"), ("useContexts", .string "use"),
      ("imports", .object [("from", .string "./mocks"), ("import", .object [("useState", .object [])])]),
      ("expressions", .array [.object [("type", .string "state"), ("var", .string "n")]]),
      ("children", .object [("type", .string "Card")])],
      .object [("name", .string "Card")]])]

theorem compile_keeps_generated_imports_mockedHook :
    ∃ output app c block, compile mockedHook {} = .ok output ∧ Load.app mockedHook = .ok app ∧
      app.components[0]? = some c ∧
      ImportBlock.collect (app.userImports c) (app.generatedImports {} 0 c) ((app.scope {}).naming.functions c) =
        .ok block ∧
      localsOf (app.generatedImports {} 0 c) = ["useContext", "useState", "UseContext", "Card"] ∧
      ∀ u ∈ app.generatedImports {} 0 c, ∀ (symbol : Symbol) (name : String), (symbol, name) ∈ u.entries →
        block.Binds u symbol name ∨ (∃ v ∈ app.userImports c, name ∈ v.locals) ∨
          name ∈ ownNames ∧ (u ∈ app.plainImports {} 0 c ∧ ((app.scope {}).naming.functions c).has name = true ∨
            u ∈ app.referenceImports {} 0 c ∧ name ∈ localsOf (app.plainImports {} 0 c)) := by
  have hlocals : ((Load.app mockedHook).toOption.bind fun app => app.components[0]?.map fun c =>
      localsOf (app.generatedImports {} 0 c)) = some ["useContext", "useState", "UseContext", "Card"] := by
    decide +kernel
  obtain ⟨output, h⟩ : ∃ output, compile mockedHook {} = .ok output := exists_ok_of_isOk (by decide +kernel)
  obtain ⟨app, hload, hfiles⟩ := compile_keeps_generated_imports h
  rw [hload] at hlocals
  obtain ⟨c, hc, hnames⟩ := Option.map_eq_some_iff.1 hlocals
  obtain ⟨-, block, -, hblock, -, hkept⟩ := hfiles 0 c hc
  exact ⟨output, app, c, block, h, hload, hc, hblock, hnames, hkept⟩

/-! ## Names that components take from the compiler -/

/-- The entries that the compiler asks for in the file of the component at place `i`, that
no import of the document binds, and that are not in the import block. -/
def App.missingImports (app : App) (options : Options) (i : Nat) (c : Node) : List (String × Symbol × String) :=
  match ImportBlock.collect (app.userImports c) (app.generatedImports options i c)
      ((app.scope options).naming.functions c) with
  | .ok block =>
    ((app.generatedImports options i c).flatMap fun u => u.entries.map (u.source, ·)).filter fun t =>
      !block.triples.contains t && !(app.userImports c).any fun v => v.locals.contains t.2.2
  | .error _ => []

/-- A component is called like the hook that it uses. -/
def hookComponent : Json :=
  .object [("components", .array
    [.object [("name", .string "useState"),
      ("expressions", .array [.object [("type", .string "state"), ("var", .string "n")]])]])]

/-- A component is called like the container that the compiler puts around another, which
uses it. -/
def containerComponent : Json :=
  .object [("platform", .string "cross-platform"), ("components", .array
    [.object [("name", .string "Panel"), ("style", .object [("flex", .string "1")]),
      ("children", .array [.object [("type", .string "View")], .string "x"])],
      .object [("name", .string "View")]])]

/-- The hook is not imported next to a function of its name, and the component is not
imported next to the container of its name. -/
theorem generated_imports_missing :
    (compile hookComponent {}).isOk = true ∧
    ((Load.app hookComponent).toOption.bind fun app => app.components[0]?.map fun c => app.missingImports {} 0 c) =
      some [("react", .named "useState", "useState")] ∧
    (compile containerComponent {}).isOk = true ∧
    ((Load.app containerComponent).toOption.bind fun app => app.components[0]?.map fun c =>
      app.missingImports {} 0 c) = some [("./View", .default, "View")] := by
  decide +kernel

end ViewTree
