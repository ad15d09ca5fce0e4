import ViewTree.Proofs.Compile.Checks
import ViewTree.Proofs.Load.Heads
import ViewTree.Proofs.Markup.Opaque
import ViewTree.Proofs.Markup.Walk
import ViewTree.Proofs.Names.Unique

/-!
# Opaque texts are copied unchanged

An opaque text of a tree is shielded in the item of the piece of content it belongs
to, unless a definition inside holds it: then it is in the function of that
definition (`rendered_kept`). Functions and files keep what is shielded and read it
back at the end, so every opaque text of a component is a part of the component's file
(`compile_keeps_opaque_texts`).
-/

namespace ViewTree

open Text

namespace Markup

variable {s : Scope} {index : Nat} {t : String}

/-! ## Frames -/

theorem loopText_data (data : String) (var : Pattern) (i : Option String) (inner : String) :
    Shielded (Text.trim data) (loopText data var i inner) := by
  have h : Shielded (Text.trim data) ("\x7b" ++ shield (operand data) ++ ".map((") :=
    operand_shielded rfl (d := '.') (by decide) data
  exact (((h.append_right _).append_right _).append_right _).append_right _

theorem loopText_default {var : Pattern} (h : t ∈ var.defaults) (data : String) (i : Option String)
    (inner : String) : Shielded t (loopText data var i inner) := by
  have hvar := Pattern.defaults_enclosed h
  have hparams : ∀ {params : String}, Enclosed t params → Shielded t ("\x7b" ++ shield (operand data) ++ ".map((" ++
      shield params ++ ") => (\n" ++ Text.indent inner ++ "\n))\x7d") :=
    fun hp => (((hp.shield.append_left _).append_right _).append_right _).append_right _
  cases i with
  | none => exact hparams hvar
  | some i => exact hparams ((hvar.append_right _).append_right _)

theorem whenText_condition (condition inner : String) :
    Shielded (Text.trim condition) (whenText condition inner) := by
  have h : Shielded (Text.trim condition) ("\x7b" ++ shield (operand condition) ++ " && (\n") :=
    operand_shielded rfl (d := ' ') (by decide) condition
  exact (h.append_right _).append_right _

theorem chooseText_condition (condition inner other : String) :
    Shielded (Text.trim condition) (chooseText condition inner other) := by
  have h : Shielded (Text.trim condition) ("\x7b" ++ shield (operand condition) ++ " ? (\n") :=
    operand_shielded rfl (d := ' ') (by decide) condition
  exact (((h.append_right _).append_right _).append_right _).append_right _

/-- A frame holds the opaque texts of its node. -/
theorem frame_head {n : Node} {f : Frame} (hf : n.frame? = some f) (h : t ∈ n.head.opaqueTexts) (inner other : String) :
    Shielded t (f.text inner other) := by
  unfold Head.opaqueTexts at h
  obtain ⟨data, var, i, hk, -, rfl⟩ | ⟨condition, hk, -, -, rfl⟩ | ⟨condition, hk, -, -, rfl⟩ := n.frame?_cases hf
  · rw [hk, List.mem_cons] at h
    rcases h with rfl | h
    · exact loopText_data _ _ _ _
    · exact loopText_default h _ _ _
  · rw [hk, List.mem_singleton] at h
    subst h
    exact whenText_condition _ _
  · rw [hk, List.mem_singleton] at h
    subst h
    exact chooseText_condition _ _ _

theorem frame_inner {inner : String} (h : Shielded t inner) (f : Frame) (other : String) :
    Shielded t (f.text inner other) := by
  cases f with
  | loop data var i => exact (h.indent.append_left _).append_right _
  | when condition => exact (h.indent.append_left _).append_right _
  | choose condition => exact (((h.indent.append_left _).append_right _).append_right _).append_right _

theorem frame_other {other : String} (h : Shielded t other) (condition inner : String) :
    Shielded t ((Frame.choose condition).text inner other) :=
  (h.indent.append_left _).append_right _

/-- A frame holds what its content holds, and what its alternative holds. -/
theorem frame_shielded {n : Node} {f : Frame} (hf : n.frame? = some f)
    (h : (∃ item ∈ (contents s index n.children).value, Shielded t item) ∨
      ∃ item ∈ (contents s index n.alternative).value, Shielded t item) :
    Shielded t (content s index n.toContent).value := by
  rw [content_frame hf]
  rcases h with ⟨item, hi, hs⟩ | ⟨item, hi, hs⟩
  · exact frame_inner (singleOrNull_shielded hs hi n.children) f _
  · have hne : n.alternative ≠ [] := by
      intro hnil
      rw [hnil, contents] at hi
      cases hi
    obtain ⟨condition, rfl⟩ := Node.choose_of_alternative hf hne
    exact frame_other (singleOrNull_shielded hs hi n.alternative) condition _

/-! ## Content -/

/-- The text is one of the definition's own, or it is shielded in its markup. -/
def BelongsTo (s : Scope) (index : Nat) (t : String) (d : Node) : Prop :=
  t ∈ d.head.opaqueTexts ∨ ∃ m, (root s index d).value = some m ∧ Shielded t m

/-- The text is shielded in the item of a piece of content that is no definition, and in
an element whatever style it inherits. -/
structure InItem (s : Scope) (index : Nat) (t : String) (c : Content) : Prop where
  item : Shielded t (content s index c).value
  styled : ∀ n type, c.node? = some n → n.head.kind = .element type → ∀ inherited,
    Shielded t (elementNode s index n.head type inherited (contents s index n.children)).value
  plain : ∀ n, c.node? = some n → n.isDefinition = false

/-- The text is in the item of one of the pieces of content. -/
def InContents (s : Scope) (index : Nat) (t : String) (cs : List Content) : Prop := ∃ c ∈ cs, InItem s index t c

theorem InContents.item {cs : List Content} (h : InContents s index t cs) :
    ∃ item ∈ (contents s index cs).value, Shielded t item := by
  obtain ⟨c, hc, ht⟩ := h
  rw [contents_value]
  exact ⟨_, List.mem_map_of_mem hc, ht.item⟩

/-- What is in the children of a definition is in its markup. -/
theorem InContents.root {d : Node} (h : InContents s index t d.children) :
    ∃ m, (root s index d).value = some m ∧ Shielded t m := by
  obtain ⟨item, hi, hs⟩ := h.item
  cases hstyle : s.styleOf d.head with
  | none =>
    rw [root_plain hstyle]
    exact single_shielded hs hi _
  | some style =>
    cases hd : d.rootElement? with
    | none =>
      rw [root_contained hstyle hd]
      exact ⟨_, rfl, elementText_item hs hi _ _⟩
    | some n =>
      -- the only child takes the style itself: its item is none of those of `contents`
      obtain ⟨hchildren, type, hk⟩ := Node.rootElement?_eq_some hd
      obtain ⟨c, hc, ht⟩ := h
      rw [hchildren, List.mem_singleton] at hc
      rw [root_element hstyle hd hk]
      exact ⟨_, rfl, ht.styled n type (hc ▸ rfl) hk (some style)⟩

/-- An element holds the opaque texts of its props and of its children. -/
theorem elementNode_texts {head : Head} {type : String} (inherited : Option ResolvedStyle) {children : List Content}
    (h : t ∈ head.props.flatMap PropEntry.opaqueTexts ∨ InContents s index t children) :
    Shielded t (elementNode s index head type inherited (contents s index children)).value := by
  rcases h with h | h
  · obtain ⟨o, ho, hs⟩ := attributes_texts s.platform (inherited.toList ++ (s.styleOf head).toList) h
    exact elementText_attribute hs ho _ _
  · obtain ⟨item, hi, hs⟩ := h.item
    exact elementText_item hs hi _ _

/-! ## Opaque texts -/

/-- An opaque text of the content is in its item, or it belongs to a definition inside. -/
def Kept (s : Scope) (index : Nat) (t : String) (c : Content) : Prop :=
  t ∈ c.opaqueTexts → InItem s index t c ∨ ∃ d ∈ c.nodes, d.isDefinition = true ∧ BelongsTo s index t d

theorem kept_contents {cs : List Content} (h : ∀ c ∈ cs, Kept s index t c) (ht : t ∈ contentOpaqueTexts cs) :
    InContents s index t cs ∨ ∃ d ∈ contentNodes cs, d.isDefinition = true ∧ BelongsTo s index t d := by
  rw [contentOpaqueTexts_eq_flatMap] at ht
  obtain ⟨c, hc, ht⟩ := List.mem_flatMap.1 ht
  rcases h c hc ht with hi | ⟨d, hd, hb⟩
  · exact .inl ⟨c, hc, hi⟩
  · rw [contentNodes_eq_flatMap]
    exact .inr ⟨d, List.mem_flatMap.2 ⟨c, hc, hd⟩, hb⟩

/-- A node that puts its own texts and those of its content into its item, or that is a
definition to which they belong. -/
theorem kept_node {n : Node} (hf : n.fallback = [] ∨ ∃ condition, n.head.kind = .branch condition)
    (hchildren : ∀ c ∈ n.children, Kept s index t c) (halternative : ∀ c ∈ n.alternative, Kept s index t c)
    (h : (t ∈ n.head.opaqueTexts ∨ (∀ code, n.head.kind ≠ .script code) ∧
        (InContents s index t n.children ∨ InContents s index t n.alternative)) →
      InItem s index t n.toContent ∨ n.isDefinition = true ∧ BelongsTo s index t n) : Kept s index t n.toContent := by
  intro ht
  rw [Node.toContent, Content.nodes]
  rw [Node.toContent, Content.opaqueTexts, List.mem_append] at ht
  have hhere : (t ∈ n.head.opaqueTexts ∨ (∀ code, n.head.kind ≠ .script code) ∧
        (InContents s index t n.children ∨ InContents s index t n.alternative)) ∨
      ∃ d ∈ contentNodes n.children ++ contentNodes n.fallback, d.isDefinition = true ∧ BelongsTo s index t d := by
    rcases ht with ht | ht
    · exact .inl (.inl ht)
    · split at ht
      · cases ht
      · rename_i hs
        rw [n.alternative_eq hf] at halternative ⊢
        rcases List.mem_append.1 ht with ht | ht
        · rcases kept_contents hchildren ht with hi | ⟨d, hd, hb⟩
          · exact .inl (.inr ⟨hs, .inl hi⟩)
          · exact .inr ⟨d, List.mem_append_left _ hd, hb⟩
        · rcases kept_contents halternative ht with hi | ⟨d, hd, hb⟩
          · exact .inl (.inr ⟨hs, .inr hi⟩)
          · exact .inr ⟨d, List.mem_append_right _ hd, hb⟩
  rcases hhere with hhere | ⟨d, hd, hb⟩
  · rcases h hhere with hi | hb
    · exact .inl hi
    · exact .inr ⟨n, List.mem_cons_self, hb⟩
  · exact .inr ⟨d, List.mem_cons_of_mem _ hd, hb⟩

theorem not_inContents_nil : ¬ InContents s index t [] := by
  rintro ⟨c, hc, -⟩
  cases hc

theorem kept_leaf {n : Node} (hleaf : n.toContent.isLeaf = true)
    (hf : n.fallback = [] ∨ ∃ condition, n.head.kind = .branch condition)
    (hchildren : ∀ c ∈ n.children, Kept s index t c) : Kept s index t n.toContent := by
  have halternative := n.alternative_of_isLeaf hleaf
  refine kept_node hf hchildren (by simp [halternative]) fun h => ?_
  rw [halternative] at h
  cases hk : n.head.kind with
  | component params =>
    refine .inr ⟨by rw [Node.isDefinition, Head.isDefinition, hk], ?_⟩
    rcases h with h | ⟨-, h | h⟩
    · exact .inl h
    · exact .inr h.root
    · exact absurd h not_inContents_nil
  | script code =>
    rcases h with h | ⟨hs, -⟩
    · rw [Head.opaqueTexts, hk, List.mem_singleton] at h
      subst h
      refine .inl ⟨?_, ?_, ?_⟩
      · rw [content_leaf hleaf, Node.toContent, leafText, hk]
        exact braces_shielded t
      · rintro m type ⟨⟩ hk'
        cases hk.symm.trans hk'
      · rintro m ⟨⟩
        rw [Node.isDefinition, Head.isDefinition, hk]
    · exact absurd hk (hs code)
  | _ => simp [Node.toContent, Content.isLeaf, Head.isDefinition, Head.isScript, hk] at hleaf

theorem rendered_kept (t : String) :
    Rendered (fun n => n.fallback = [] ∨ ∃ condition, n.head.kind = .branch condition) (Kept s index t) where
  leaf c hc hn := by
    cases c with
    | text _ => simp [Kept, Content.opaqueTexts]
    | literal _ => simp [Kept, Content.opaqueTexts]
    | script code =>
      intro ht
      rw [Content.opaqueTexts, List.mem_singleton] at ht
      subst ht
      exact .inl ⟨braces_shielded t, by simp [Content.node?], by simp [Content.node?]⟩
    | node head children fallback =>
      obtain ⟨hf, hchildren⟩ := hn ⟨head, children, fallback⟩ rfl
      exact kept_leaf (n := ⟨head, children, fallback⟩) hc hf hchildren
  element n type hk hf hchildren := by
    have halternative := n.alternative_of_element hk
    refine kept_node hf hchildren (by simp [halternative]) fun h => .inl ?_
    have hown : t ∈ n.head.props.flatMap PropEntry.opaqueTexts ∨ InContents s index t n.children := by
      rw [Head.opaqueTexts, hk, halternative] at h
      rcases h with h | ⟨-, h | h⟩
      · exact .inl h
      · exact .inr h
      · exact absurd h not_inContents_nil
    refine ⟨?_, ?_, ?_⟩
    · rw [content_element hk]
      exact elementNode_texts none hown
    · rintro m type' ⟨⟩ - inherited
      exact elementNode_texts inherited hown
    · rintro m ⟨⟩
      rw [Node.isDefinition, Head.isDefinition, hk]
  frame n f hframe hf hchildren halternative := by
    have hleaf := n.isLeaf_of_frame hframe
    refine kept_node hf hchildren halternative fun h => .inl ⟨?_, ?_, ?_⟩
    · rcases h with h | ⟨-, h⟩
      · rw [content_frame hframe]
        exact frame_head hframe h _ _
      · exact frame_shielded hframe (h.imp InContents.item InContents.item)
    · rintro m type ⟨⟩ hk
      rw [Node.frame?_of_element hk] at hframe
      cases hframe
    · rintro m ⟨⟩
      simp only [Node.toContent, Content.isLeaf, Bool.or_eq_false_iff] at hleaf
      exact hleaf.1

/-- An opaque text of a definition belongs to it or to a definition inside. -/
theorem definition_texts (s : Scope) (index : Nat) {n : Node} (hd : n.isDefinition = true)
    (hf : ∀ m ∈ n.nodes, m.fallback = [] ∨ ∃ condition, m.head.kind = .branch condition) (ht : t ∈ n.opaqueTexts) :
    ∃ d ∈ n.definitions, BelongsTo s index t d := by
  -- A definition has no item of its own, so the first case is excluded.
  rcases (rendered_kept t).content n.toContent hf ht with hi | ⟨d, hdn, hdd, hb⟩
  · rw [hi.plain n rfl] at hd
    cases hd
  · exact ⟨d, List.mem_filter.2 ⟨hdn, hdd⟩, hb⟩

end Markup

/-! ## Functions -/

namespace Function

variable {t : String}

theorem provide_markup {m : String} (h : Shielded t m) (providers : List Provider) :
    ∃ m', provide providers (some m) = some m' ∧ Shielded t m' := by
  induction providers with
  | nil => exact ⟨m, rfl, h⟩
  | cons p providers ih =>
    obtain ⟨m', hm, hs⟩ := ih
    exact ⟨_, rfl, Markup.wrap_item hs (Option.mem_toList.2 hm) _ _⟩

theorem provide_value {providers : List Provider} {p : Provider} (hp : p ∈ providers) (markup : Option String) :
    ∃ m, provide providers markup = some m ∧ Shielded p.value m := by
  induction providers with
  | nil => cases hp
  | cons q providers ih =>
    rcases List.mem_cons.1 hp with rfl | hp
    · exact ⟨_, rfl, Markup.wrap_opening ((Markup.braces_shielded p.value).append_left _) _ _⟩
    · obtain ⟨m, hm, hs⟩ := ih hp
      exact ⟨_, rfl, Markup.wrap_item hs (Option.mem_toList.2 hm) _ _⟩

theorem render_params {f : Function} {p : Pattern} (hp : f.params = some p) (h : Enclosed t p.render) :
    Shielded t f.render := by
  unfold render
  rw [hp]
  exact (((h.shield.append_left _).append_right _).append_right _).append_right _

theorem render_line {f : Function} {l : String} (hl : l ∈ f.lines) (h : Shielded t l) :
    Shielded t f.render :=
  ((h.join hl "\n").indent.append_left _).append_right _

theorem render_statement {f : Function} {x : Statement} (hs : x ∈ f.statements)
    (h : Enclosed t x.render) : Shielded t f.render := by
  refine render_line (List.mem_append_left _ (List.mem_append_right _ ?_)) h.shield
  exact List.mem_map.2 ⟨x, hs, rfl⟩

theorem render_markup {f : Function} {m : String} (hm : f.markup = some m) (h : Shielded t m) :
    Shielded t f.render := by
  refine render_line (l := f.returnText) (List.mem_append_right _ (List.mem_singleton.2 rfl)) ?_
  unfold returnText
  rw [hm]
  dsimp only
  split
  · exact (h.indent.append_left _).append_right _
  · exact (h.append_left _).append_right _

theorem mark_eq (names : List String) (statement : Statement) :
    ∃ redeclared, Statement.mark names statement = { statement with redeclared } := by
  unfold Statement.mark
  split
  · exact ⟨true, rfl⟩
  · exact ⟨statement.redeclared, rfl⟩

/-- The function of a definition holds what belongs to the definition. -/
theorem ofDefinition_texts {s : Scope} {index : Nat} {d : Node} (hd : d.isDefinition = true)
    (hcontexts : ∀ p ∈ d.head.provides, (s.contexts.lookup p.name).isSome = true)
    (h : Markup.BelongsTo s index t d) (isComponent : Bool) :
    Shielded t (ofDefinition s index d isComponent).value.render := by
  rcases h with h | ⟨m, hm, hs⟩
  · cases hk : d.head.kind with
    | component params =>
      rw [Head.opaqueTexts, hk, List.mem_append, List.mem_append] at h
      rcases h with (h | h) | h
      -- The parameters, the statements and the providers around the markup, in this order.
      · cases params with
        | none => cases h
        | some p =>
          refine render_params (p := p) ?_ (Pattern.defaults_enclosed h)
          simp [ofDefinition, paramsOf, hk]
      · obtain ⟨e, he, hte⟩ := List.mem_flatMap.1 h
        refine render_statement (x := Statement.mark _ (.ofExpression e))
          (List.mem_map_of_mem (List.mem_map_of_mem he)) ?_
        obtain ⟨redeclared, hr⟩ := mark_eq _ (.ofExpression e)
        rw [hr]
        exact Expression.texts_enclosed hte redeclared
      · obtain ⟨p, hp, rfl⟩ := List.mem_map.1 h
        obtain ⟨c, hc⟩ := Option.isSome_iff_exists.1 (hcontexts p hp)
        have hprovider : { identifier := c.identifier, value := p.value } ∈ s.contexts.providers d.head :=
          List.mem_filterMap.2 ⟨p, hp, by rw [hc]; rfl⟩
        obtain ⟨m, hm, hs⟩ := provide_value hprovider (Markup.root s index d).value
        exact render_markup hm hs
    | _ => simp [Node.isDefinition, Head.isDefinition, hk] at hd
  · obtain ⟨m', hm', hs'⟩ := provide_markup hs (s.contexts.providers d.head)
    rw [← hm] at hm'
    exact render_markup hm' hs'

end Function

/-! ## Files -/

/-- A component's file has a function for every definition. -/
theorem ComponentFile.mem_functions (s : Scope) (index : Nat) {c d : Node} (hd : d ∈ c.definitions) :
    ∃ isComponent, (Function.ofDefinition s index d isComponent).value ∈ (functions s index c).value := by
  obtain ⟨i, hi⟩ := List.mem_iff_getElem?.1 hd
  refine ⟨i == 0, ?_⟩
  rw [functions, Noted.eachIndexed, Noted.value_each]
  exact List.mem_map.2 ⟨(d, i), List.mem_zipIdx_iff_getElem?.2 hi, rfl⟩

/-- What is shielded in a function stands in the file as it is. -/
theorem ComponentFile.infix_sourceText {t : String} (block : ImportBlock) {functions : List Function} {f : Function}
    (hf : f ∈ functions) (h : Shielded t f.render) : t.toList <:+: (sourceText block functions).toList := by
  unfold sourceText
  rw [String.toList_append, String.toList_append]
  exact (h.join (List.mem_map_of_mem hf) "\n\n").unshield.trans (List.infix_append _ _ _)

/-- Every opaque text of a component's rendered tree is a part of the component's file,
character by character, at any depth. -/
theorem compile_keeps_opaque_texts {document : Json} {options : Options} {output : Output}
    (h : compile document options = .ok output) :
    ∃ app, Load.app document = .ok app ∧ ∀ (i : Nat) (c : Node), app.components[i]? = some c →
      ∃ file, output.files[i]? = some file ∧ ∀ t ∈ c.opaqueTexts, t.toList <:+: file.contents.toList := by
  obtain ⟨app, files, hload, hcheck, hwritten, rfl⟩ := compile_eq_ok h
  refine ⟨app, hload, fun i c hc => ?_⟩
  obtain ⟨file, ho, hfile⟩ := hwritten.artifact hc (app.scope options).contexts
  obtain ⟨-, block, -, hsource⟩ := ComponentFile.ofComponent_eq_ok ho
  refine ⟨_, hfile, fun t ht => ?_⟩
  have hmem := List.mem_of_getElem? hc
  have hfallback := Load.app_forall Load.built_fallback hload
  obtain ⟨d, hd, hb⟩ := Markup.definition_texts (app.scope options) i (Load.app_components hload c hmem).1
    (fun m hm => hfallback m (List.mem_flatMap.2 ⟨c, hmem, hm⟩)) ht
  obtain ⟨isComponent, hf⟩ := ComponentFile.mem_functions (app.scope options) i hd
  have hprovided := App.scope_found hcheck options d (List.mem_flatMap.2 ⟨c, hmem, hd⟩)
  rw [hsource]
  exact ComponentFile.infix_sourceText block hf
    (Function.ofDefinition_texts (List.mem_filter.1 hd).2 hprovided hb isComponent)

/-- A loop inside an element, around a script that holds a line break and the marker. -/
def layeredScript : Json :=
  .object [("components", .array
    [.object [("name", .string "App"), ("children", .object
      [("type", .string "ul"), ("children", .object
        [("type", .string "Map"), ("data", .string "rows"), ("children", .object
          [("type", .string "li"), ("children", .string "\x7ba\x0d\n\uE000n + b\x7d")])])])]])]

theorem compile_keeps_opaque_texts_layered :
    ∃ output file, compile layeredScript {} = .ok output ∧ output.files[0]? = some file ∧
      "a\x0d\n\uE000n + b".toList <:+: file.contents.toList := by
  have htext : (((Load.app layeredScript).toOption.bind fun app => app.components[0]?).any fun c =>
      c.opaqueTexts.contains "a\x0d\n\uE000n + b") = true := by decide +kernel
  obtain ⟨output, h⟩ : ∃ output, compile layeredScript {} = .ok output := exists_ok_of_isOk (by decide +kernel)
  obtain ⟨app, hload, htexts⟩ := compile_keeps_opaque_texts h
  rw [hload, Option.any_eq_true] at htext
  obtain ⟨c, hc, ht⟩ := htext
  obtain ⟨file, hfile, hall⟩ := htexts 0 c hc
  exact ⟨output, file, h, hfile, hall _ (List.contains_iff_mem.1 ht)⟩

end ViewTree
