import ViewTree.Proofs.Markup.Regions

/-!
# What rendering writes

Content is rendered in one of three ways. A leaf is written as it is, whatever stands below
it: a text, a literal, a script, or a definition, which is only referred to
(`content_leaf`). An element puts tags around the items of its children
(`content_element`). A frame, that is a loop or a choice, puts texts around its children
and around its alternative, if it has one (`content_frame`). So what holds of leaves and
passes through elements and frames holds of all content (`Rendered.content`).

The markup of a definition is its content as one expression. A style of its own goes to
its only child, if that is an element (`root_element`), and else to a container
(`root_contained`).
-/

namespace ViewTree

/-- Whether the content is written without what stands below it. -/
def Content.isLeaf : Content → Bool
  | .node head _ _ => head.isDefinition || head.isScript
  | _ => true

namespace Markup

/-- A loop or a choice, without and with an alternative. -/
inductive Frame where
  | loop (data : String) (var : Pattern) (index : Option String)
  | when (condition : String)
  | choose (condition : String)

/-- What a frame writes around its content and its alternative. -/
def Frame.text : Frame → String → String → String
  | loop data var index, inner, _ => loopText data var index inner
  | when condition, inner, _ => whenText condition inner
  | choose condition, inner, other => chooseText condition inner other

end Markup

open Markup

namespace Node

/-- Whether the node is an element. -/
def isElement (n : Node) : Bool :=
  match n.head.kind with
  | .element _ => true
  | _ => false

/-- The frame that a node is. -/
def frame? (n : Node) : Option Frame :=
  match n.head.kind with
  | .map data var index => some (.loop data var index)
  | .branch condition => some (if n.fallback.isEmpty then .when condition else .choose condition)
  | _ => none

/-- What a choice shows if its condition fails. -/
def alternative (n : Node) : List Content :=
  match n.head.kind with
  | .branch _ => n.fallback
  | _ => []

/-- The only child of a definition, if it is an element: it takes the style of the
definition. -/
def rootElement? (d : Node) : Option Node :=
  match d.children with
  | [.node head children fallback] =>
    match head.kind with
    | .element _ => some ⟨head, children, fallback⟩
    | _ => none
  | _ => none

variable {n : Node}

/-- Only a choice has a fallback, so nothing else is left out. -/
theorem alternative_eq (h : n.fallback = [] ∨ ∃ condition, n.head.kind = .branch condition) :
    n.alternative = n.fallback := by
  unfold alternative
  split
  · rfl
  · rename_i hk
    exact (h.resolve_right fun ⟨condition, hc⟩ => hk condition hc).symm

theorem frame?_of_element {type : String} (hk : n.head.kind = .element type) : n.frame? = none := by
  unfold frame?
  rw [hk]

theorem alternative_of_element {type : String} (hk : n.head.kind = .element type) : n.alternative = [] := by
  unfold alternative
  rw [hk]

theorem alternative_of_isLeaf (h : n.toContent.isLeaf = true) : n.alternative = [] := by
  unfold alternative
  split
  · rename_i hk
    simp [toContent, Content.isLeaf, Head.isDefinition, Head.isScript, hk] at h
  · rfl

/-- A loop and a choice without an alternative have one content, a choice with one has two. -/
theorem frame?_cases {f : Frame} (hf : n.frame? = some f) :
    (∃ data var index, n.head.kind = .map data var index ∧ n.alternative = [] ∧ f = .loop data var index) ∨
    (∃ condition, n.head.kind = .branch condition ∧ n.fallback.isEmpty = true ∧ n.alternative = [] ∧
      f = .when condition) ∨
    ∃ condition, n.head.kind = .branch condition ∧ n.fallback.isEmpty = false ∧ n.alternative = n.fallback ∧
      f = .choose condition := by
  unfold frame? at hf
  unfold alternative
  split at hf
  · rename_i data var index hk
    rw [hk]
    exact .inl ⟨data, var, index, rfl, rfl, (Option.some.inj hf).symm⟩
  · rename_i condition hk
    rw [hk]
    cases hempty : n.fallback.isEmpty with
    | true =>
      rw [hempty] at hf
      exact .inr (.inl ⟨condition, rfl, rfl, List.isEmpty_iff.1 hempty, (Option.some.inj hf).symm⟩)
    | false =>
      rw [hempty] at hf
      exact .inr (.inr ⟨condition, rfl, rfl, rfl, (Option.some.inj hf).symm⟩)
  · cases hf

theorem choose_of_alternative {f : Frame} (hf : n.frame? = some f) (h : n.alternative ≠ []) :
    ∃ condition, f = .choose condition := by
  obtain ⟨_, _, _, -, hnone, -⟩ | ⟨_, -, -, hnone, -⟩ | ⟨condition, -, -, -, rfl⟩ := frame?_cases hf
  · exact absurd hnone h
  · exact absurd hnone h
  · exact ⟨condition, rfl⟩

theorem isLeaf_of_element {type : String} (hk : n.head.kind = .element type) : n.toContent.isLeaf = false := by
  simp [toContent, Content.isLeaf, Head.isDefinition, Head.isScript, hk]

theorem isLeaf_of_frame {f : Frame} (hf : n.frame? = some f) : n.toContent.isLeaf = false := by
  obtain ⟨_, _, _, hk, -⟩ | ⟨_, hk, -⟩ | ⟨_, hk, -⟩ := frame?_cases hf
  · simp [toContent, Content.isLeaf, Head.isDefinition, Head.isScript, hk]
  · simp [toContent, Content.isLeaf, Head.isDefinition, Head.isScript, hk]
  · simp [toContent, Content.isLeaf, Head.isDefinition, Head.isScript, hk]

/-- A node is a leaf, an element or a frame. -/
theorem render_cases (n : Node) :
    n.toContent.isLeaf = true ∨ (∃ type, n.head.kind = .element type) ∨ ∃ f, n.frame? = some f := by
  cases hk : n.head.kind with
  | component params => exact .inl (by simp [toContent, Content.isLeaf, Head.isDefinition, hk])
  | script code => exact .inl (by simp [toContent, Content.isLeaf, Head.isScript, hk])
  | element type => exact .inr (.inl ⟨type, rfl⟩)
  | map data var i => exact .inr (.inr ⟨_, by rw [frame?, hk]⟩)
  | branch condition => exact .inr (.inr ⟨_, by rw [frame?, hk]⟩)

theorem rootElement?_eq_some {d : Node} (h : d.rootElement? = some n) :
    d.children = [n.toContent] ∧ ∃ type, n.head.kind = .element type := by
  unfold rootElement? at h
  split at h
  · rename_i head children fallback hd
    split at h
    · rename_i type hk
      obtain rfl := Option.some.inj h
      exact ⟨hd, type, hk⟩
    · cases h
  · cases h

theorem rootElement?_of_children {d : Node} {type : String} (hd : d.children = [n.toContent])
    (hk : n.head.kind = .element type) : d.rootElement? = some n := by
  simp [rootElement?, hd, toContent, hk]

theorem rootElement?_none {d : Node} (h : d.rootElement? = none) {head : Head} {children fallback : List Content}
    (hd : d.children = [.node head children fallback]) (type : String) : head.kind ≠ .element type := by
  intro hk
  rw [rootElement?_of_children (n := ⟨head, children, fallback⟩) hd hk] at h
  cases h

/-- What holds of the nodes below a definition holds of its only child and below that. -/
theorem rootElement?_forall {R : Node → Prop} {d : Node} (h : d.rootElement? = some n)
    (hr : ∀ m ∈ contentNodes d.children, R m) : R n ∧ ∀ m ∈ contentNodes n.children, R m := by
  rw [(rootElement?_eq_some h).1, contentNodes, contentNodes, List.append_nil] at hr
  exact ⟨hr n List.mem_cons_self, fun m hm => hr m (List.mem_cons_of_mem _ (List.mem_append_left _ hm))⟩

end Node

/-! ## What is shown -/

theorem contentShown_eq_flatMap (cs : List Content) : contentShown cs = cs.flatMap Content.shown := by
  induction cs with
  | nil => rfl
  | cons c cs ih => rw [contentShown, ih, List.flatMap_cons]

/-- Of a leaf only itself is shown. -/
theorem Content.shown_leaf {c : Content} (h : c.isLeaf = true) : c.shown = c.node?.toList := by
  cases c with
  | node head children fallback =>
    unfold Content.isLeaf at h
    rw [Content.shown, if_pos h]
    rfl
  | _ => rw [Content.shown]; rfl

/-- An element and a frame are shown with what stands in them. -/
theorem Node.toContent_shown {n : Node} (h : n.toContent.isLeaf = false)
    (hf : n.fallback = [] ∨ ∃ condition, n.head.kind = .branch condition) :
    n.toContent.shown = n :: (contentShown n.children ++ contentShown n.alternative) := by
  rw [n.alternative_eq hf, toContent, Content.shown, if_neg]
  simpa [toContent, Content.isLeaf] using h

/-! ## What is written -/

namespace Markup

open Text

variable {s : Scope} {index : Nat}

/-- What a leaf is written as. -/
def leafText (s : Scope) : Content → String
  | .text t => shield (textItem t)
  | .literal v => shield (braces v.render)
  | .script code => braces (shield code)
  | .node head _ _ =>
    match head.kind with
    | .script code => braces (shield code)
    | _ => "<" ++ s.functionName head ++ " />"

theorem content_leaf {c : Content} (h : c.isLeaf = true) : content s index c = pure (leafText s c) := by
  cases c with
  | text t => rw [content, leafText]
  | literal v => rw [content, leafText]
  | script code => rw [content, leafText]
  | node head children fallback =>
    rw [content, leafText]
    cases hk : head.kind with
    | component params => rfl
    | script code => rfl
    | _ => simp [Content.isLeaf, Head.isDefinition, Head.isScript, hk] at h

theorem content_element {n : Node} {type : String} (hk : n.head.kind = .element type) :
    content s index n.toContent = elementNode s index n.head type none (contents s index n.children) := by
  rw [Node.toContent, content, hk]

theorem content_frame {n : Node} {f : Frame} (hf : n.frame? = some f) :
    content s index n.toContent = (do
      let items ← contents s index n.children
      let others ← contents s index n.alternative
      pure (f.text (singleOrNull n.children items) (singleOrNull n.alternative others))) := by
  rw [Node.toContent, content]
  obtain ⟨data, var, i, hk, hnone, rfl⟩ | ⟨condition, hk, hempty, hnone, rfl⟩ | ⟨condition, hk, hempty, hother, rfl⟩ :=
    n.frame?_cases hf
  · simp only [hk, hnone, contents]
    rfl
  · simp only [hk, hempty, hnone, contents, if_true]
    rfl
  · simp only [hk, hempty, hother, Bool.false_eq_true, if_false]
    rfl

theorem contents_eq_each (cs : List Content) : contents s index cs = Noted.each (content s index) cs := by
  induction cs with
  | nil => rw [contents, Noted.each]
  | cons c cs ih => rw [contents, Noted.each, ih]

theorem contents_value (cs : List Content) :
    (contents s index cs).value = cs.map fun c => (content s index c).value := by
  rw [contents_eq_each, Noted.value_each]

theorem contents_length (cs : List Content) : (contents s index cs).value.length = cs.length := by
  rw [contents_value, List.length_map]

/-- `P` holds of content as it is rendered, given `R` of its nodes: of leaves, and of
elements and frames because it holds of what stands in them. -/
structure Rendered (R : Node → Prop) (P : Content → Prop) : Prop where
  leaf : ∀ c : Content, c.isLeaf = true → (∀ n, c.node? = some n → R n ∧ ∀ d ∈ n.children, P d) → P c
  element : ∀ (n : Node) (type : String), n.head.kind = .element type → R n → (∀ c ∈ n.children, P c) → P n.toContent
  frame : ∀ (n : Node) (f : Frame), n.frame? = some f → R n → (∀ c ∈ n.children, P c) →
    (∀ c ∈ n.alternative, P c) → P n.toContent

namespace Rendered

variable {R : Node → Prop} {P : Content → Prop}

/-- What is no node is a leaf. -/
theorem of_node?_none (h : Rendered R P) {c : Content} (hc : c.node? = none) : P c := by
  refine h.leaf c ?_ fun n hn => ?_
  · cases c with
    | node head children fallback => cases hc
    | _ => rfl
  · rw [hc] at hn
    cases hn

theorem node (h : Rendered R P) (n : Node) (hr : ∀ m ∈ n.nodes, R m) : P n.toContent := by
  induction n using Node.below_induction with
  | step n ih =>
    have hbelow : ∀ c ∈ n.children ++ n.fallback, P c := by
      intro c hc
      cases hm : c.node? with
      | none => exact h.of_node?_none hm
      | some m =>
        have hchild : m ∈ n.childNodes := List.mem_filterMap.2 ⟨c, hc, hm⟩
        rw [Content.node?_eq_some hm]
        exact ih m hchild fun k hk => hr k (Node.nodes_subset (n.childNodes_subset hchild) hk)
    have hown : R n := hr n (Node.mem_nodes.2 (.inl rfl))
    have hchildren : ∀ c ∈ n.children, P c := fun c hc => hbelow c (List.mem_append_left _ hc)
    obtain hleaf | ⟨type, hk⟩ | ⟨f, hf⟩ := n.render_cases
    · refine h.leaf n.toContent hleaf ?_
      rintro m ⟨⟩
      exact ⟨hown, hchildren⟩
    · exact h.element n type hk hown hchildren
    · refine h.frame n f hf hown hchildren fun c hc => ?_
      unfold Node.alternative at hc
      split at hc
      · exact hbelow c (List.mem_append_right _ hc)
      · cases hc

theorem content (h : Rendered R P) (c : Content) (hr : ∀ n ∈ c.nodes, R n) : P c := by
  cases hn : c.node? with
  | none => exact h.of_node?_none hn
  | some n =>
    rw [Content.node?_eq_some hn] at hr ⊢
    exact h.node n hr

theorem contents (h : Rendered R P) (cs : List Content) (hr : ∀ n ∈ contentNodes cs, R n) : ∀ c ∈ cs, P c := by
  intro c hc
  refine h.content c fun n hn => hr n ?_
  rw [contentNodes_eq_flatMap]
  exact List.mem_flatMap.2 ⟨c, hc, hn⟩

end Rendered

/-! ## Definitions -/

section
variable {d : Node} {style : ResolvedStyle}

theorem root_plain (hs : s.styleOf d.head = none) :
    root s index d = (do
      let items ← contents s index d.children
      pure (single d.children items)) := by
  unfold root
  rw [hs]

theorem root_contained (hs : s.styleOf d.head = some style) (hd : d.rootElement? = none) :
    root s index d = (do
      let items ← contents s index d.children
      Noted.note { tags := [s.platform.container] }
      let attrs ← attributes s.platform [] [style]
      pure (some (elementText s.platform.container attrs items))) := by
  unfold root
  simp only [hs]
  split
  · rename_i head children fallback hc
    split
    · rename_i type hk
      exact absurd hk (Node.rootElement?_none hd hc type)
    · rfl
  · rfl

theorem root_element {n : Node} {type : String} (hs : s.styleOf d.head = some style) (hd : d.rootElement? = some n)
    (hk : n.head.kind = .element type) :
    root s index d = (do
      let only ← elementNode s index n.head type (some style) (contents s index n.children)
      pure (some only)) := by
  unfold root
  simp only [hs, (Node.rootElement?_eq_some hd).1, Node.toContent, hk]

end

end Markup

end ViewTree
