import ViewTree.Proofs.Load.Nodes
import ViewTree.Proofs.Text.Blank

/-!
# What the nodes of a loaded app hold

The contexts a node provides have identifiers for names, and so do the symbols it
imports. Only a node with a condition has a fallback. A component of the app is a
definition with a name, and the root component is one of them.
-/

namespace ViewTree.Load

/-! ## Contexts -/

theorem isIdentifier_identifierText {s path name : String} {rule : Rule}
    (h : (identifierText s path rule).value = some name) : Text.isIdentifier name = true := by
  unfold identifierText at h
  split at h
  · rename_i hs
    obtain rfl := Option.some.inj h
    exact hs
  · simp [fail] at h

theorem isIdentifier_identifier {value : Json} {path name : String} {rule : Rule}
    (h : (identifier value path rule).value = some name) : Text.isIdentifier name = true := by
  unfold identifier at h
  split at h
  · exact isIdentifier_identifierText h
  · simp [fail] at h

theorem contextNames_identifiers (value : Json) (path : String) :
    ∀ name ∈ (contextNames value path).value, Text.isIdentifier name = true := by
  intro name hn
  unfold contextNames at hn
  split at hn
  · simp only [Noted.value_bind, Noted.value_pure, Option.mem_toList] at hn
    exact isIdentifier_identifierText hn
  · simp only [Noted.value_bind, Noted.value_pure, Noted.eachIndexed, Noted.value_each, List.mem_filterMap,
      List.mem_map, id_eq] at hn
    obtain ⟨o, ⟨⟨v, i⟩, -, hv⟩, rfl⟩ := hn
    exact isIdentifier_identifier hv
  · simp at hn

theorem provisions_identifiers (value : Json) (path : String) :
    ∀ p ∈ (provisions value path).value, Text.isIdentifier p.name = true := by
  intro p hp
  unfold provisions at hp
  split at hp
  · simp only [Noted.eachSome, Noted.value_bind, Noted.value_pure, Noted.value_each, List.mem_filterMap,
      List.mem_map, id_eq] at hp
    obtain ⟨o, ⟨⟨key, v⟩, -, hv⟩, rfl⟩ := hp
    obtain ⟨name, hname, rfl⟩ := Option.map_eq_some_iff.1 hv
    have hid := isIdentifier_identifierText hname
    split <;> exact hid
  · simp only [Noted.value_bind, Noted.value_pure, List.mem_map] at hp
    obtain ⟨name, hname, rfl⟩ := hp
    exact contextNames_identifiers _ _ name hname

theorem body_provides (fields : Keyed Json) (loaders : ContentLoaders) (kind : NodeKind)
    (fallback : List Content) (path : String) (position : List Nat) :
    ∀ p ∈ (body fields loaders kind fallback path position).value.head.provides,
      Text.isIdentifier p.name = true := by
  intro p hp
  simp only [body, Noted.value_bind, Noted.value_pure] at hp
  unfold onDefinition at hp
  split at hp
  · simp at hp
  · split at hp
    · exact provisions_identifiers _ _ p hp
    · simp at hp

/-- The names of provided contexts are identifiers. -/
theorem built_provides : Built fun n => ∀ p ∈ n.head.provides, Text.isIdentifier p.name = true where
  node fields path position n h _ := by
    obtain ⟨type, kind, fallback, -, -, rfl, -⟩ := node_eq_some h
    exact body_provides _ _ _ _ _ _
  definition fields path position n h _ := by
    rw [definition_value, Option.some.injEq] at h
    subst h
    exact body_provides _ _ _ _ _ _

/-! ## Imports -/

/-- An import whose local names are identifiers. -/
def BindsIdentifiers (i : Import) : Prop := ∀ e ∈ i.entries, Text.isIdentifier e.2 = true

theorem symbolShape_identifier {shape : Json} {path name : String}
    (h : (symbolShape shape path).value = some (some name)) : Text.isIdentifier name = true := by
  unfold symbolShape at h
  split at h
  · cases h
  · cases h
  · split at h
    · exact isIdentifier_identifier (Option.some.inj h)
    · cases h
  · exact isIdentifier_identifierText (Option.some.inj h)
  · cases h

theorem bindsIdentifiers_default {name : String} (h : Text.isIdentifier name = true) (source path : String) :
    BindsIdentifiers ⟨source, .default name, path⟩ := by
  intro e he
  obtain rfl := List.mem_singleton.1 he
  exact h

theorem bindsIdentifiers_everything {name : String} (h : Text.isIdentifier name = true) (source path : String) :
    BindsIdentifiers ⟨source, .everything name, path⟩ := by
  intro e he
  obtain rfl := List.mem_singleton.1 he
  exact h

theorem bindsIdentifiers_named {items : List NamedImport}
    (h : ∀ item ∈ items, Text.isIdentifier item.localName = true) (source path : String) :
    BindsIdentifiers ⟨source, .named items, path⟩ := by
  intro e he
  obtain ⟨item, hi, rfl⟩ := List.mem_map.1 he
  exact h item hi

/-- The local names that a field of a symbol map stands for are identifiers. -/
def SymbolEntry.BindsIdentifiers : SymbolEntry → Prop
  | .own kind => ∀ source path, Load.BindsIdentifiers ⟨source, kind, path⟩
  | .named item => Text.isIdentifier item.localName = true

theorem symbolEntry_identifiers {symbol path : String} {shape : Json} {entry : SymbolEntry}
    (h : (symbolEntry symbol shape path).value = some entry) : entry.BindsIdentifiers := by
  simp only [symbolEntry, Noted.value_bind] at h
  cases hs : (symbolShape shape path).value with
  | none => simp [hs] at h
  | some renamed =>
    simp only [hs] at h
    split at h
    · cases renamed with
      | none => cases h
      | some name =>
        have hname := symbolShape_identifier hs
        obtain rfl := Option.some.inj h
        intro source path
        split
        · exact bindsIdentifiers_everything hname source path
        · exact bindsIdentifiers_default hname source path
    · split at h
      · rename_i hsymbol
        obtain rfl := Option.some.inj h
        cases renamed with
        | none => exact hsymbol
        | some name => exact symbolShape_identifier hs
      · cases h

theorem symbolImports_identifiers (symbols : Keyed Json) (source path : String) :
    ∀ i ∈ (symbolImports symbols source path).value, BindsIdentifiers i := by
  intro i hi
  simp only [symbolImports, Noted.eachSome, Noted.value_bind, Noted.value_pure, Noted.value_each] at hi
  have hentries : ∀ entry ∈ (symbols.map fun p =>
      (symbolEntry p.1 p.2 (field (field path "import") p.1)).value).filterMap id, entry.BindsIdentifiers := by
    intro entry he
    obtain ⟨o, ho, rfl⟩ := List.mem_filterMap.1 he
    obtain ⟨p, -, hp⟩ := List.mem_map.1 ho
    exact symbolEntry_identifiers hp
  rcases List.mem_append.1 hi with hi | hi
  · obtain ⟨entry, he, hk⟩ := List.mem_filterMap.1 hi
    have hb := hentries entry he
    cases entry with
    | own kind =>
      obtain rfl := Option.some.inj hk
      exact hb source path
    | named item => cases hk
  · split at hi
    · cases hi
    · obtain rfl := List.mem_singleton.1 hi
      refine bindsIdentifiers_named (fun item hitem => ?_) source path
      obtain ⟨entry, he, hk⟩ := List.mem_filterMap.1 hitem
      have hb := hentries entry he
      cases entry with
      | own kind => cases hk
      | named symbol =>
        obtain rfl := Option.some.inj hk
        exact hb

theorem starName_identifier {s name : String} (h : starName? s = some name) : Text.isIdentifier name = true := by
  unfold starName? at h
  split at h
  · dsimp only at h
    split at h
    · split at h
      · rename_i hname
        obtain rfl := Option.some.inj h
        simp only [Bool.and_eq_true] at hname
        rw [Text.isIdentifier, String.toList_ofList]
        exact hname.2
      · cases h
    · cases h
  · cases h

theorem nameImport_identifiers (symbol : String) (fields : Keyed Json) (source path : String) :
    ∀ i ∈ (nameImport symbol fields source path).value, BindsIdentifiers i := by
  intro i hi
  unfold nameImport at hi
  split at hi
  · rename_i hname
    obtain rfl := List.mem_singleton.1 hi
    exact bindsIdentifiers_everything (starName_identifier hname) source path
  · split at hi
    · split at hi
      · simp only [Noted.value_bind, Noted.value_pure, List.mem_map, Option.mem_toList] at hi
        obtain ⟨name, hname, rfl⟩ := hi
        exact bindsIdentifiers_everything (isIdentifier_identifier hname) source path
      · cases hi
    · split at hi
      · rename_i hsymbol
        obtain rfl := List.mem_singleton.1 hi
        exact bindsIdentifiers_default hsymbol source path
      · cases hi

theorem importEntry_identifiers (value : Json) (path : String) :
    ∀ i ∈ (importEntry value path).value, BindsIdentifiers i := by
  have heffects : ∀ source, ∀ i ∈ [({ source, kind := .effects, path } : Import)], BindsIdentifiers i := by
    intro source i hi e he
    obtain rfl := List.mem_singleton.1 hi
    cases he
  unfold importEntry
  split
  · split
    · unfold importsFrom
      split
      · exact heffects _
      · exact heffects _
      · exact nameImport_identifiers _ _ _ _
      · exact symbolImports_identifiers _ _ _
      · exact fun i hi => by cases hi
    · exact fun i hi => by cases hi
  · split
    · exact heffects _
    · exact fun i hi => by cases hi

theorem imports_identifiers (value : Json) (path : String) :
    ∀ i ∈ (imports value path).value, BindsIdentifiers i := by
  unfold imports
  split
  · exact fun i hi => by cases hi
  · intro i hi
    simp only [Noted.eachIndexed, Noted.value_bind, Noted.value_pure, Noted.value_each, List.mem_flatten,
      List.mem_map] at hi
    obtain ⟨is, ⟨⟨v, k⟩, -, rfl⟩, hi⟩ := hi
    exact importEntry_identifiers _ _ i hi
  · exact importEntry_identifiers _ _

theorem body_imports (fields : Keyed Json) (loaders : ContentLoaders) (kind : NodeKind)
    (fallback : List Content) (path : String) (position : List Nat) :
    ∀ i ∈ (body fields loaders kind fallback path position).value.head.imports, BindsIdentifiers i := by
  intro i hi
  simp only [body, Noted.value_bind, Noted.value_pure] at hi
  unfold ifPresent at hi
  split at hi
  · exact imports_identifiers _ _ i hi
  · cases hi

/-- The local names of imports are identifiers. -/
theorem built_imports : Built fun n => ∀ i ∈ n.head.imports, BindsIdentifiers i where
  node fields path position n h _ := by
    obtain ⟨type, kind, fallback, -, -, rfl, -⟩ := node_eq_some h
    exact body_imports _ _ _ _ _ _
  definition fields path position n h _ := by
    rw [definition_value, Option.some.injEq] at h
    subst h
    exact body_imports _ _ _ _ _ _

theorem app_imports {document : Json} {app : App} (h : Load.app document = .ok app) :
    ∀ i ∈ app.imports, BindsIdentifiers i := by
  obtain ⟨fields, items, -, -, -, rfl, -, -⟩ := app_eq_ok h
  simp only [appFields, Noted.value_bind, Noted.value_pure]
  unfold appImports
  split
  · exact imports_identifiers _ _
  · exact fun i hi => by cases hi

/-! ## Fallbacks -/

/-- Only a node with a condition has a fallback. -/
theorem built_fallback : Built fun n => n.fallback = [] ∨ ∃ condition, n.head.kind = .branch condition where
  node fields path position n h _ := by
    obtain ⟨type, kind, fallback, -, hk, rfl, -⟩ := node_eq_some h
    have hf := kindOf_fallback type fields (contentLoaders fields) path position
    rw [hk] at hf
    rcases hf with hf | ⟨hb, -, -⟩
    · exact .inl hf
    · exact .inr hb
  definition fields path position n h _ := by
    rw [definition_value, Option.some.injEq] at h
    subst h
    exact .inl rfl

/-! ## Components -/

theorem nonBlank_eq_some {value : Option Json} {s : String} (h : nonBlank? value = some s) :
    Text.isBlank s = false := by
  unfold nonBlank? at h
  split at h
  · split at h
    · cases h
    · rename_i hblank
      obtain rfl := Option.some.inj h
      exact Bool.eq_false_iff.2 hblank
  · cases h

/-- A text that is not blank and has no blank characters at its ends. -/
def Trimmed (s : String) : Prop := Text.isBlank s = false ∧ Text.trim s = s

theorem definitionName_trimmed {fields : Keyed Json} {path : String}
    (h : (definitionName fields path).notes.problems = []) :
    ∃ name, (nonBlank? (fields.lookup "name")).map Text.trim = some name ∧ Trimmed name := by
  unfold definitionName at h
  split at h
  · simp [problem] at h
  · rename_i hn
    cases hb : nonBlank? (fields.lookup "name") with
    | none => simp [hb] at hn
    | some name =>
      exact ⟨_, rfl, by rw [Text.isBlank_trim, nonBlank_eq_some hb], Text.trim_trim name⟩

theorem componentItems_named (items : List Json) (i : Nat) (hp : (componentItems items i).notes.problems = []) :
    ∀ c ∈ (componentItems items i).value, c.isDefinition = true ∧ ∃ name, c.head.name = some name ∧ Trimmed name := by
  induction items generalizing i with
  | nil => simp [componentItems]
  | cons v more ih =>
    simp only [componentItems, Noted.value_bind, Noted.value_pure, Noted.notes_bind, Noted.notes_pure,
      Log.problems_append, Log.problems_empty, List.append_nil, List.append_eq_nil_iff] at hp ⊢
    intro c hc
    rcases List.mem_append.1 hc with hc | hc
    · cases v with
      | object fields =>
        rw [definition_notes] at hp
        rw [definition_value, Option.mem_toList, Option.some.injEq] at hc
        subst hc
        simp only [Log.problems_append, List.append_eq_nil_iff] at hp
        exact ⟨rfl, definitionName_trimmed hp.1.2.1⟩
      | _ => simp [definition, fail] at hc
    · exact ih (i + 1) hp.2 c hc

/-- The components of a loaded app are definitions with names. -/
theorem app_components {document : Json} {app : App} (h : Load.app document = .ok app) :
    ∀ c ∈ app.components, c.isDefinition = true ∧ c.head.name.isSome = true := by
  obtain ⟨fields, items, -, -, hp, rfl, -, -⟩ := app_eq_ok h
  intro c hc
  obtain ⟨hd, name, hname, -⟩ := componentItems_named items 0 hp c hc
  exact ⟨hd, by rw [hname]; rfl⟩

theorem root_of_unknownRoot {root : String} {components : List Node}
    (h : unknownRoot (some root) components = []) : ∃ c ∈ components, c.head.name = some root := by
  unfold unknownRoot at h
  dsimp only at h
  split at h
  · rename_i hany
    obtain ⟨c, hc, hname⟩ := List.any_eq_true.1 hany
    exact ⟨c, hc, beq_iff_eq.1 hname⟩
  · cases h

/-- The root component is there, and it is the one that the document names. -/
theorem app_root {document : Json} {app : App} (h : Load.app document = .ok app) (hne : app.components ≠ []) :
    ∃ root, app.components[app.rootIndex]? = some root ∧
      (app.rootComponent = none → app.rootIndex = 0) ∧
      ∀ name, app.rootComponent = some name → root.head.name = some name := by
  obtain ⟨fields, items, -, -, -, -, -, hroot⟩ := app_eq_ok h
  unfold App.rootIndex
  cases hr : app.rootComponent with
  | none =>
    obtain ⟨c, cs, hc⟩ := List.exists_cons_of_ne_nil hne
    exact ⟨c, by simp [hc], fun _ => rfl, fun name hn => by cases hn⟩
  | some root =>
    rw [hr] at hroot
    obtain ⟨c, hc, hn⟩ := root_of_unknownRoot hroot
    cases hf : app.components.findIdx? fun c => c.head.name == some root with
    | none =>
      rw [List.findIdx?_eq_none_iff] at hf
      have hc := hf c hc
      simp [hn] at hc
    | some i =>
      obtain ⟨hi, hn, -⟩ := List.findIdx?_eq_some_iff_getElem.1 hf
      refine ⟨app.components[i], by simp [hf, hi], by simp, ?_⟩
      intro name hname
      rw [beq_iff_eq.1 hn, hname]

end ViewTree.Load
