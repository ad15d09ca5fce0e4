import ViewTree.Proofs.Load.Binders
import ViewTree.Proofs.Load.Styles

/-!
# Loaded apps are well formed

Loading goes on after a problem with a stand-in: an empty script, a missing entry, the
default variable of a loop. `App.WellFormed` says what a tree without stand-ins is, part
by part, and `load_wellFormed` that every app that loads is one. Most parts hold of
whatever loading gives; where a stand-in would break one, a problem is noted with it.
-/

namespace ViewTree

/-! ## Well-formed trees -/

/-- The types of nodes that are no elements. -/
def nodeTypes : List String := ["Component", "Map", "If", "Script"]

/-- What a node is, with scripts that are not blank and patterns that bind names. -/
def NodeKind.WellFormed : NodeKind → Prop
  | .component params => ∀ p ∈ params, p.Binds
  | .element tag => Text.isBlank tag = false ∧ tag ∉ nodeTypes
  | .map data var index =>
    Text.isBlank data = false ∧ var.Binds ∧ ∀ name ∈ index, Text.isIdentifier name = true
  | .branch condition => Text.isBlank condition = false
  | .script code => Text.isBlank code = false

/-- The data of a node of an app with these formats. -/
structure Head.WellFormed (formats : Keyed Predicate) (h : Head) : Prop where
  kind : h.kind.WellFormed
  expressions : ∀ e ∈ h.expressions, e.WellFormed
  style : ∀ e ∈ h.style, e.WellFormed formats
  imports : ∀ i ∈ h.imports, Load.BindsIdentifiers i
  provides : ∀ p ∈ h.provides, Text.isIdentifier p.name = true
  uses : ∀ name ∈ h.uses, Text.isIdentifier name = true
  /-- A definition has no props. -/
  props : h.isDefinition = true → h.props = []
  /-- Only definitions have statements, contexts and sheets. -/
  ownership : h.isDefinition = false →
    h.expressions = [] ∧ h.provides = [] ∧ h.uses = [] ∧ h.styleSheet = none ∧ h.styleModule = none

/-- A node whose data is well formed and right below which no script is blank. -/
structure Node.WellFormed (formats : Keyed Predicate) (n : Node) : Prop where
  head : n.head.WellFormed formats
  scripts : ∀ code, .script code ∈ n.children ++ n.fallback → Text.isBlank code = false

/-- A whole app. -/
structure App.WellFormed (app : App) : Prop where
  components : ∀ c ∈ app.components, c.isDefinition = true ∧
    ∃ name, c.head.name = some name ∧ Load.Trimmed name
  nodes : ∀ n ∈ app.nodes, n.WellFormed app.styleFormats
  imports : ∀ i ∈ app.imports, Load.BindsIdentifiers i
  formats : ∀ format ∈ app.styleFormats, format.2.isEmpty = false
  root : ∀ name, app.rootComponent = some name → ∃ c ∈ app.components, c.head.name = some name

namespace Load

/-! ## Kinds -/

theorem nodeType_not_blank {fields : Keyed Json} {path type : String}
    (h : (nodeType fields path).value = some type) : Text.isBlank type = false := by
  unfold nodeType at h
  split at h
  · cases h
  · split at h
    · rename_i hname
      obtain rfl := Option.some.inj h
      exact nonBlank_eq_some hname
    · cases h

/-- Without a problem, the script that a node requires is there, so no stand-in is. -/
theorem requiredScript_getD {fields : Keyed Json} {key path what : String} {rule : Rule}
    (h : (requiredScript fields key path rule what).notes.problems = []) :
    Text.isBlank ((requiredScript fields key path rule what).value.getD "") = false := by
  obtain ⟨script, hs⟩ := requiredScript_isSome h
  rw [hs]
  exact requiredScript_value hs

theorem kindOf_wellFormed {type path : String} {fields : Keyed Json} {loaders : ContentLoaders}
    {position : List Nat} (htype : Text.isBlank type = false)
    (hp : (kindOf type fields loaders path position).notes.problems = []) :
    (kindOf type fields loaders path position).value.1.WellFormed := by
  unfold kindOf at hp ⊢
  split at hp
  · exact fun p hparams => params_binds hparams
  · simp only [Noted.notes_bind, Log.problems_append, List.append_eq_nil_iff] at hp
    exact ⟨requiredScript_getD hp.1, loopVar_binds fields path, fun name hname => loopIndex_identifier hname⟩
  · simp only [Noted.notes_bind, Log.problems_append, List.append_eq_nil_iff] at hp
    exact requiredScript_getD hp.1
  · simp only [Noted.notes_bind, Log.problems_append, List.append_eq_nil_iff] at hp
    exact requiredScript_getD hp.1
  · rename_i hcomponent hmap hif hscript
    refine ⟨htype, ?_⟩
    simp only [nodeTypes, List.mem_cons, List.not_mem_nil, or_false, not_or]
    exact ⟨hcomponent, hmap, hif, hscript⟩

/-! ## Fields of every node -/

section
variable {α : Type} {isDefinition : Bool} {fields : Keyed Json} {key path : String}
  {load : Json → String → Load (List α)} {misplaced : Load Unit}

theorem onDefinition_forall {Q : α → Prop} (h : ∀ v path, ∀ a ∈ (load v path).value, Q a) :
    ∀ a ∈ (onDefinition isDefinition fields key path load misplaced).value, Q a := by
  unfold onDefinition
  split
  · simp
  · split
    · exact h _ _
    · simp

theorem onDefinition_nil (h : isDefinition = false) :
    (onDefinition isDefinition fields key path load misplaced).value = [] := by
  unfold onDefinition
  split
  · rfl
  · rw [if_neg (by simp [h])]
    rfl

end

theorem sheetOverride_none {isDefinition : Bool} (h : isDefinition = false) (fields : Keyed Json)
    (key path : String) : (sheetOverride isDefinition fields key path).value = none := by
  unfold sheetOverride
  rw [Noted.value_bind]
  split
  · rfl
  · rw [if_neg (by simp [h])]
    rfl

theorem ownProps_nil {isDefinition : Bool} (h : isDefinition = true) (fields : Keyed Json) (path : String) :
    (ownProps isDefinition fields path).value = [] := by
  rw [ownProps, if_pos h]
  rfl

theorem body_style_known {formats fields} {loaders : ContentLoaders} {kind : NodeKind} {fallback : List Content}
    {path : String} {position : List Nat}
    (h : (body fields loaders kind fallback path position).notes.Known formats) :
    (ifPresent fields "style" path styles).notes.Known formats :=
  -- after the props, the children, the expressions and the imports
  h.right.right.right.right.left

theorem body_wellFormed {formats fields} {loaders : ContentLoaders} {kind : NodeKind} {fallback : List Content}
    {path : String} {position : List Nat} (hkind : kind.WellFormed)
    (hk : (body fields loaders kind fallback path position).notes.Known formats) :
    (body fields loaders kind fallback path position).value.head.WellFormed formats where
  kind := hkind
  expressions := onDefinition_forall expressions_wellFormed
  style := by
    have hstyle := body_style_known hk
    show ∀ e ∈ (ifPresent fields "style" path styles).value, e.WellFormed formats
    revert hstyle
    unfold ifPresent
    split
    · exact styles_wellFormed
    · simp
  imports := body_imports _ _ _ _ _ _
  provides := body_provides _ _ _ _ _ _
  uses := onDefinition_forall contextNames_identifiers
  props h := ownProps_nil h _ _
  ownership h :=
    ⟨onDefinition_nil h, onDefinition_nil h, onDefinition_nil h, sheetOverride_none h _ _ _,
      sheetOverride_none h _ _ _⟩

/-! ## Scripts among the content -/

theorem content_script {v : Json} {path : String} {position : List Nat} {code : String}
    (h : (content v path position).value = some (.script code)) : Text.isBlank code = false := by
  cases v with
  | string text =>
    rw [content, textContent] at h
    split at h
    · split at h
      · rename_i found hfound
        split at h
        · cases h
        · rename_i hempty
          obtain rfl := Content.script.inj (Option.some.inj h)
          exact reference_not_blank hfound (Bool.eq_false_iff.2 hempty)
      · cases h
    · cases h
  | object fields =>
    rw [content] at h
    obtain ⟨n, -, hn⟩ := Option.map_eq_some_iff.1 h
    cases hn
  | _ =>
    rw [content] at h
    cases h

theorem contentItems_script {items : List Json} {i : Nat} {path : String} {parent : List Nat} {offset : Nat}
    {code : String} (h : .script code ∈ (contentItems items i path parent offset).value) :
    Text.isBlank code = false := by
  induction items generalizing i with
  | nil => cases h
  | cons v items ih =>
    rw [contentItems] at h
    rcases List.mem_append.1 h with h | h
    · exact content_script (Option.mem_toList.1 h)
    · exact ih h

theorem contentOf_script {fields : Keyed Json} {key path : String} {position : List Nat} {offset : Nat}
    {code : String} (h : .script code ∈ (contentOf (contentLoaders fields) key path position offset).value) :
    Text.isBlank code = false := by
  unfold contentOf at h
  rw [lookup_contentLoaders] at h
  cases hv : fields.lookup key with
  | none =>
    rw [hv] at h
    cases h
  | some v =>
    rw [hv] at h
    by_cases harray : ∃ items, v = .array items
    · obtain ⟨items, rfl⟩ := harray
      exact contentItems_script h
    · simp only [Option.map_some, contentLoader_single fun items hi => harray ⟨items, hi⟩] at h
      exact content_script (Option.mem_toList.1 h)

/-! ## Nodes -/

theorem built_wellFormed (formats : Keyed Predicate) :
    BuiltWhile (fun log => log.problems = [] ∧ log.Known formats) (Node.WellFormed formats) where
  left h := ⟨(List.append_eq_nil_iff.1 h.1).1, h.2.left⟩
  right h := ⟨(List.append_eq_nil_iff.1 h.1).2, h.2.right⟩
  node fields path position n h hfine := by
    obtain ⟨type, kind, fallback, htype, hk, rfl, hnotes⟩ := node_eq_some h
    rw [hnotes] at hfine
    obtain ⟨hproblems, hknown⟩ := hfine
    simp only [Log.problems_append, List.append_eq_nil_iff] at hproblems
    have hkind := kindOf_wellFormed (nodeType_not_blank htype) hproblems.2.1
    rw [hk] at hkind
    refine ⟨body_wellFormed hkind hknown.right.right.left, fun code hcode => ?_⟩
    rw [body_children, body_fallback] at hcode
    rcases List.mem_append.1 hcode with hcode | hcode
    · exact contentOf_script hcode
    · have hf := kindOf_fallback type fields (contentLoaders fields) path position
      rw [hk] at hf
      rcases hf with hf | ⟨-, hf, -⟩
      · rw [show fallback = [] from hf] at hcode
        cases hcode
      · rw [show fallback = _ from hf] at hcode
        exact contentOf_script hcode
  definition fields path position n h hfine := by
    rw [definition_value, Option.some.injEq] at h
    subst h
    rw [definition_notes] at hfine
    refine ⟨body_wellFormed (fun p hp => params_binds hp) hfine.2.right.right.right.left, fun code hcode => ?_⟩
    rw [body_children, body_fallback, List.append_nil] at hcode
    exact contentOf_script hcode

/-! ## Apps -/

theorem known_of_unknownFormats {formats : Keyed Predicate} {log : Log}
    (h : unknownFormats formats log.formats = []) : log.Known formats := by
  intro u hu
  rw [unknownFormats, List.map_eq_nil_iff, List.filter_eq_nil_iff] at h
  simpa using h u hu

end Load

/-- Every app that loads is well formed. -/
theorem load_wellFormed {document : Json} {app : App} (h : Load.app document = .ok app) : app.WellFormed := by
  obtain ⟨fields, items, -, hown, hparts, happ, hformats, hroot⟩ := Load.app_eq_ok h
  have hknown := Load.known_of_unknownFormats hformats
  constructor
  · rw [happ]
    exact Load.componentItems_named items 0 hparts
  · intro n hn
    obtain ⟨c, hc, hn⟩ := List.mem_flatMap.1 hn
    rw [happ] at hc
    exact Load.componentItems_forall (Load.built_wellFormed _) items 0 ⟨hparts, hknown.right⟩ c hc n hn
  · exact Load.app_imports h
  · intro format hformat
    rw [happ] at hformat
    obtain ⟨v, path, hv⟩ := Load.mem_objectField hformat
    exact Load.formatPredicate_isEmpty hv
  · intro name hname
    rw [hname] at hroot
    exact Load.root_of_unknownRoot hroot

/-- Every kind of node, and most of what binds a name. -/
def assortedNodes : Json :=
  .object [("rootComponent", .string "App"),
    ("styleFormats", .object [("tall", .object [("orientation", .string "portrait")])]),
    ("components", .array [.object [("name", .string " App "),
      ("props", .object [("a", .string "b"), ("...rest", .null)]),
      ("provideContexts", .object [("theme", .bool true)]),
      ("expressions", .array [.object [("type", .string "state"), ("var", .string "count")]]),
      ("children", .array
        [.object [("type", .string "Map"), ("data", .string "rows"), ("index", .string "i"),
          ("var", .array [.string "x", .null, .string "...xs"]), ("children", .string "\x7b x \x7d")],
        .object [("type", .string "If"), ("condition", .string "ready"),
          ("else", .object [("type", .string "Script"), ("code", .string "run()")])],
        .object [("type", .string "p"), ("style", .array [.string "\x7b look \x7d",
          .object [("format", .string "tall"), ("style", .object [("color", .string "red")])]])]])]])]

theorem load_wellFormed_assorted :
    ∃ app, Load.app assortedNodes = .ok app ∧ app.nodes.length = 5 ∧ app.WellFormed := by
  have hnodes : (Load.app assortedNodes).toOption.map (fun app => app.nodes.length) = some 5 := by
    decide +kernel
  cases hload : Load.app assortedNodes with
  | error problems => simp [hload, Except.toOption] at hnodes
  | ok app =>
    simp only [hload, Except.toOption, Option.map_some, Option.some.injEq] at hnodes
    exact ⟨app, rfl, hnodes, load_wellFormed hload⟩

end ViewTree
