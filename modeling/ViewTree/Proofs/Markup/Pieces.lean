import ViewTree.Proofs.Markup.Verbatim
import ViewTree.Proofs.Text.Bare

/-!
# Markup piece by piece

The markup of a definition as one sequence of pieces, without any layout
(`Markup.pieces`): each node starts with a piece of its own, and what stands between the
pieces of nodes belongs to none. Two things hold of it. The markup that is written reads
like the pieces one after the other, blanks and line breaks aside (`pieces_reads`). And
the nodes that start with a piece are those that are shown, in the order of the document
(`pieces_nodes`), so each of them is rendered once.
-/

namespace ViewTree

/-- A piece of markup. -/
structure Piece where
  /-- The node that starts with the piece, if one does. -/
  node : Option Node := none
  /-- The classes given by the compiler that the piece carries in its class attribute. -/
  classes : List String := []
  text : String

namespace Markup

open Text

/-! ## Pieces -/

/-- A tag with its attributes. -/
def tagStart (tag : String) (attributes : List String) : String :=
  if attributes.isEmpty then tag else tag ++ " " ++ join " " attributes

/-- The start of an element: its tag and its attributes. -/
def opening (platform : Platform) (node : Option Node) (tag : String) (props : List PropEntry)
    (styles : List ResolvedStyle) : Piece :=
  { node
    classes := styles.filterMap ResolvedStyle.className
    text := "<" ++ tagStart tag (attributes platform props styles).value }

/-- What follows the start of an element: the end of the tag, or all that is inside and
the closing tag. -/
def closing (tag : String) (inner : List Piece) : List Piece :=
  if inner.isEmpty then [{ text := "/>" }]
  else { text := ">" } :: inner ++ [{ text := "</" ++ tag ++ ">" }]

/-- Content as one expression: the element itself, a fragment, or nothing. -/
def expression (contents : List Content) (inner : List Piece) : List Piece :=
  if inner.isEmpty || isSingleElement contents then inner
  else { text := "<>" } :: inner ++ [{ text := "</>" }]

/-- Content as one expression, `null` if there is none. -/
def expressionOrNull (contents : List Content) (inner : List Piece) : List Piece :=
  if inner.isEmpty then [{ text := "null" }] else expression contents inner

/-- What a loop starts with. -/
def loopStart (data : String) (var : Pattern) (index : Option String) : String :=
  let params :=
    match index with
    | some i => var.render ++ ", " ++ i
    | none => var.render
  "\x7b" ++ shield (operand data) ++ ".map((" ++ shield params ++ ") => ("

/-- The piece that a node starts with. An element carries its own style after one that it
inherits from the definition whose root it is. -/
def start (s : Scope) (index : Nat) (inherited : Option ResolvedStyle) (n : Node) : Piece :=
  match n.head.kind with
  | .component _ => { node := some n, text := "<" ++ s.functionName n.head ++ " />" }
  | .element type =>
    opening s.platform (some n) (tagOf s index type).value n.head.props (inherited.toList ++ (s.styleOf n.head).toList)
  | .script code => { node := some n, text := braces (shield code) }
  | .map data var i => { node := some n, text := loopStart data var i }
  | .branch condition =>
    { node := some n
      text := "\x7b" ++ shield (operand condition) ++ if n.fallback.isEmpty then " && (" else " ? (" }

mutual

/-- The pieces of a piece of content. -/
def contentPieces (s : Scope) (index : Nat) : Content → List Piece
  | .text t => [{ text := shield (textItem t) }]
  | .literal v => [{ text := shield (braces v.render) }]
  | .script code => [{ text := braces (shield code) }]
  | .node head children fallback =>
    start s index none ⟨head, children, fallback⟩ ::
      match head.kind with
      | .component _ => []
      | .element type => closing (tagOf s index type).value (contentsPieces s index children)
      | .script _ => []
      | .map _ _ _ => expressionOrNull children (contentsPieces s index children) ++ [{ text := "))\x7d" }]
      | .branch _ =>
        expressionOrNull children (contentsPieces s index children) ++
          if fallback.isEmpty then [{ text := ")\x7d" }]
          else { text := ") : (" } :: expressionOrNull fallback (contentsPieces s index fallback) ++
            [{ text := ")\x7d" }]

/-- The pieces of a list of content. -/
def contentsPieces (s : Scope) (index : Nat) : List Content → List Piece
  | [] => []
  | c :: rest => contentPieces s index c ++ contentsPieces s index rest

end

/-- The pieces of a definition's own markup. Its style goes to its root, if that is a
single element, and otherwise to a container around everything. -/
def rootPieces (s : Scope) (index : Nat) (d : Node) : List Piece :=
  match s.styleOf d.head with
  | none => expression d.children (contentsPieces s index d.children)
  | some style =>
    let contained :=
      opening s.platform none s.platform.container [] [style] ::
        closing s.platform.container (contentsPieces s index d.children)
    match d.children with
    | [.node head children fallback] =>
      match head.kind with
      | .element type =>
        start s index (some style) ⟨head, children, fallback⟩ ::
          closing (tagOf s index type).value (contentsPieces s index children)
      | _ => contained
    | _ => contained

/-- The pieces inside the contexts that a definition provides, the first outermost. -/
def provided (providers : List Provider) (inner : List Piece) : List Piece :=
  providers.foldr
    (fun p inner =>
      { text := "<" ++ p.identifier ++ ".Provider value=" ++ braces (shield p.value) } ::
        closing (p.identifier ++ ".Provider") inner)
    inner

/-- The pieces of everything that the function of a definition returns. -/
def pieces (s : Scope) (index : Nat) (d : Node) : List Piece :=
  provided (s.contexts.providers d.head) (rootPieces s index d)

/-! ### Leaves, elements and frames -/

/-- What a frame starts with. -/
def Frame.start : Frame → String
  | loop data var index => loopStart data var index
  | when condition => "\x7b" ++ shield (operand condition) ++ " && ("
  | choose condition => "\x7b" ++ shield (operand condition) ++ " ? ("

/-- The pieces of a frame after its start, around those of its content and its
alternative. -/
def Frame.pieces : Frame → List Piece → List Piece → List Piece
  | loop _ _ _, inner, _ => inner ++ [{ text := "))\x7d" }]
  | when _, inner, _ => inner ++ [{ text := ")\x7d" }]
  | choose _, inner, other => inner ++ ({ text := ") : (" } :: other ++ [{ text := ")\x7d" }])

section
variable {s : Scope} {index : Nat} {n : Node}

theorem start_leaf (h : n.toContent.isLeaf = true) (inherited : Option ResolvedStyle) :
    start s index inherited n = { node := some n, text := leafText s n.toContent } := by
  rw [start, Node.toContent, leafText]
  cases hk : n.head.kind with
  | component params => rfl
  | script code => rfl
  | _ => simp [Node.toContent, Content.isLeaf, Head.isDefinition, Head.isScript, hk] at h

theorem start_frame {f : Frame} (hf : n.frame? = some f) (inherited : Option ResolvedStyle) :
    start s index inherited n = { node := some n, text := f.start } := by
  obtain ⟨data, var, i, hk, -, rfl⟩ | ⟨condition, hk, hempty, -, rfl⟩ | ⟨condition, hk, hempty, -, rfl⟩ :=
    n.frame?_cases hf
  · rw [start, hk]
    rfl
  · rw [start, hk, hempty]
    rfl
  · rw [start, hk, hempty]
    rfl

theorem contentPieces_leaf {c : Content} (h : c.isLeaf = true) :
    contentPieces s index c = [{ node := c.node?, text := leafText s c }] := by
  cases c with
  | text t => rw [contentPieces, leafText, Content.node?]; simp
  | literal v => rw [contentPieces, leafText, Content.node?]; simp
  | script code => rw [contentPieces, leafText, Content.node?]; simp
  | node head children fallback =>
    rw [contentPieces, start_leaf (n := ⟨head, children, fallback⟩) h]
    cases hk : head.kind with
    | component params => rfl
    | script code => rfl
    | _ => simp [Content.isLeaf, Head.isDefinition, Head.isScript, hk] at h

theorem contentPieces_element {type : String} (hk : n.head.kind = .element type) :
    contentPieces s index n.toContent =
      start s index none n :: closing (tagOf s index type).value (contentsPieces s index n.children) := by
  rw [Node.toContent, contentPieces, hk]

theorem contentPieces_frame {f : Frame} (hf : n.frame? = some f) :
    contentPieces s index n.toContent =
      start s index none n :: f.pieces (expressionOrNull n.children (contentsPieces s index n.children))
        (expressionOrNull n.alternative (contentsPieces s index n.alternative)) := by
  rw [Node.toContent, contentPieces]
  obtain ⟨data, var, i, hk, -, rfl⟩ | ⟨condition, hk, hempty, -, rfl⟩ | ⟨condition, hk, hempty, hother, rfl⟩ :=
    n.frame?_cases hf
  · rw [hk]
    rfl
  · rw [hk, hempty]
    rfl
  · rw [hk, hempty, hother]
    rfl

theorem contentsPieces_eq_flatMap (cs : List Content) :
    contentsPieces s index cs = cs.flatMap (contentPieces s index) := by
  induction cs with
  | nil => rfl
  | cons c cs ih => rw [contentsPieces, ih, List.flatMap_cons]

variable {d : Node} {style : ResolvedStyle}

theorem rootPieces_plain (hs : s.styleOf d.head = none) :
    rootPieces s index d = expression d.children (contentsPieces s index d.children) := by
  unfold rootPieces
  rw [hs]

theorem rootPieces_contained (hs : s.styleOf d.head = some style) (hd : d.rootElement? = none) :
    rootPieces s index d = opening s.platform none s.platform.container [] [style] ::
      closing s.platform.container (contentsPieces s index d.children) := by
  unfold rootPieces
  simp only [hs]
  split
  · rename_i head children fallback hc
    split
    · rename_i type hk
      exact absurd hk (Node.rootElement?_none hd hc type)
    · rfl
  · rfl

theorem rootPieces_element {type : String} (hs : s.styleOf d.head = some style) (hd : d.rootElement? = some n)
    (hk : n.head.kind = .element type) :
    rootPieces s index d = start s index (some style) n ::
      closing (tagOf s index type).value (contentsPieces s index n.children) := by
  unfold rootPieces
  simp only [hs, (Node.rootElement?_eq_some hd).1, Node.toContent, hk]

end

/-! ## Reading -/

/-- The text of pieces without layout. -/
def bareText (ps : List Piece) : List Char := ps.flatMap fun p => bare p.text

/-- The texts read like the pieces, layout aside. -/
structure Reads (ps : List Piece) (texts : List String) : Prop where
  text : bareText ps = texts.flatMap bare
  empty : ps = [] ↔ texts = []

@[simp]
theorem bareText_nil : bareText [] = [] := rfl

@[simp]
theorem bareText_cons (p : Piece) (ps : List Piece) : bareText (p :: ps) = bare p.text ++ bareText ps := rfl

@[simp]
theorem bareText_append (ps qs : List Piece) : bareText (ps ++ qs) = bareText ps ++ bareText qs := by
  unfold bareText
  rw [List.flatMap_append]

namespace Reads

variable {ps qs : List Piece} {ts us : List String} {t : String}

theorem nil : Reads [] [] := ⟨rfl, by simp⟩

theorem append (hp : Reads ps ts) (hq : Reads qs us) : Reads (ps ++ qs) (ts ++ us) := by
  refine ⟨?_, ?_⟩
  · rw [bareText_append, List.flatMap_append, hp.text, hq.text]
  · rw [List.append_eq_nil_iff, List.append_eq_nil_iff, hp.empty, hq.empty]

/-- A single text reads like pieces of which there is at least one. -/
theorem one (h : bareText ps = bare t) (hne : ps ≠ []) : Reads ps [t] := by
  refine ⟨?_, ?_⟩
  · simp [h]
  · simp [hne]

end Reads

/-! ### Tags -/

/-- Items between tags read like the start of the tag and what follows it. -/
theorem bare_wrap {start tag : String} {items : List String} {inner : List Piece} (h : Reads inner items)
    (hs : start ≠ "" ∨ items ≠ []) : bare (wrap start tag items) = bare ("<" ++ start) ++ bareText (closing tag inner) := by
  unfold wrap closing
  cases items with
  | nil =>
    rw [h.empty.2 rfl]
    have hstart : start.isEmpty = false := by
      rw [Bool.eq_false_iff, ne_eq, String.isEmpty_iff]
      simpa using hs
    simp [hstart]
    rfl
  | cons t ts =>
    have hne : inner.isEmpty = false := by
      rw [Bool.eq_false_iff, ne_eq, List.isEmpty_iff, h.empty]
      simp
    have hinner := h.text
    have hsolid : bare (join "" (t :: ts)) = bareText inner := by rw [bare_join rfl, hinner]
    have hlines : bare (indent (join "\n" (t :: ts))) = bareText inner := by rw [bare_indent, bare_join rfl, hinner]
    rw [hne]
    dsimp only
    split
    · simp [hsolid]
    · simp [hlines]
      rfl

theorem tagStart_ne_empty {tag : String} (h : tag ≠ "") (attributes : List String) : tagStart tag attributes ≠ "" := by
  unfold tagStart
  split
  · exact h
  · simp [h]

/-- An element reads like its start and what follows. -/
theorem bare_elementText (platform : Platform) (node : Option Node) {tag : String} (ht : tag ≠ "")
    (props : List PropEntry) (styles : List ResolvedStyle) {items : List String} {inner : List Piece}
    (h : Reads inner items) :
    bare (elementText tag (attributes platform props styles).value items) =
      bareText (opening platform node tag props styles :: closing tag inner) :=
  bare_wrap h (.inl (tagStart_ne_empty ht _))

/-- An element reads like the piece it starts with and what follows. -/
theorem bare_elementNode {s : Scope} {index : Nat} {n : Node} {type : String} (hk : n.head.kind = .element type)
    (ht : (tagOf s index type).value ≠ "") (inherited : Option ResolvedStyle) {children : Emit (List String)}
    {inner : List Piece} (h : Reads inner children.value) :
    bareText (start s index inherited n :: closing (tagOf s index type).value inner) =
      bare (elementNode s index n.head type inherited children).value := by
  rw [start, hk]
  exact (bare_elementText s.platform (some n) ht n.head.props _ h).symm

/-! ### Expressions -/

theorem isSingleElement_length {cs : List Content} (h : isSingleElement cs = true) : cs.length = 1 := by
  unfold isSingleElement at h
  split at h
  · rfl
  · cases h

theorem single_cons (cs : List Content) (t : String) (ts : List String) : ∃ m, single cs (t :: ts) = some m := by
  unfold single
  split
  · contradiction
  · split
    · exact ⟨_, rfl⟩
    · exact ⟨_, rfl⟩
  · exact ⟨_, rfl⟩

/-- Content that becomes one expression reads like it. -/
theorem single_reads {cs : List Content} {items : List String} {inner : List Piece} (h : Reads inner items)
    (hlength : items.length = cs.length) : Reads (expression cs inner) (single cs items).toList := by
  have hfragment : items ≠ [] → bareText ({ text := "<>" } :: inner ++ [{ text := "</>" }]) = bare (wrap "" "" items) := by
    intro hne
    have hinner : inner.isEmpty = false := by simpa [h.empty] using hne
    rw [bare_wrap h (.inr hne), closing, hinner]
    simp
    rfl
  unfold expression single
  cases items with
  | nil => simp [h.empty.2 rfl, Reads.nil]
  | cons t ts =>
    have hinner : inner.isEmpty = false := by simp [h.empty]
    rw [hinner, Bool.false_or]
    by_cases hs : isSingleElement cs = true
    · rw [isSingleElement_length hs] at hlength
      obtain rfl : ts = [] := List.length_eq_zero_iff.1 (Nat.succ.inj hlength)
      simpa [hs] using h
    · have hwrapped := Reads.one (hfragment (List.cons_ne_nil t ts)) (by simp)
      rw [if_neg hs]
      cases ts with
      | nil => simpa [hs] using hwrapped
      | cons u us => exact hwrapped

theorem singleOrNull_reads {cs : List Content} {items : List String} {inner : List Piece} (h : Reads inner items)
    (hlength : items.length = cs.length) : bareText (expressionOrNull cs inner) = bare (singleOrNull cs items) := by
  have hsingle := single_reads h hlength
  unfold expressionOrNull singleOrNull
  cases items with
  | nil => simp [h.empty.2 rfl, single]
  | cons t ts =>
    have hinner : inner.isEmpty = false := by simp [h.empty]
    obtain ⟨m, hm⟩ := single_cons cs t ts
    rw [hinner, if_neg (by simp), hsingle.text, hm]
    simp

/-! ### Content -/

/-- What rendering relies on: a tag is never empty, and only a choice has a fallback. -/
structure Renderable (s : Scope) (index : Nat) (n : Node) : Prop where
  tag : ∀ type, n.head.kind = .element type → (tagOf s index type).value ≠ ""
  fallback : n.fallback = [] ∨ ∃ condition, n.head.kind = .branch condition

section
variable {s : Scope} {index : Nat}

theorem contentPieces_ne_nil (c : Content) : contentPieces s index c ≠ [] := by
  unfold contentPieces
  split
  · simp
  · simp
  · simp
  · simp

theorem bare_loopText (data : String) (var : Pattern) (i : Option String) (inner : String) :
    bare (loopText data var i inner) = bare (loopStart data var i) ++ (bare inner ++ bare "))\x7d") := by
  unfold loopText loopStart
  simp
  rfl

/-- A frame reads like its start and the pieces after it. -/
theorem bare_frame (f : Frame) {inner other : List Piece} {item otherwise : String}
    (hinner : bareText inner = bare item) (hother : bareText other = bare otherwise) :
    bare f.start ++ bareText (f.pieces inner other) = bare (f.text item otherwise) := by
  cases f with
  | loop data var i => simp [Frame.start, Frame.pieces, Frame.text, hinner, bare_loopText]
  | when condition =>
    simp [Frame.start, Frame.pieces, Frame.text, hinner, whenText]
    rfl
  | choose condition =>
    simp [Frame.start, Frame.pieces, Frame.text, hinner, hother, chooseText]
    rfl

theorem reads_contents {cs : List Content}
    (h : ∀ c ∈ cs, bareText (contentPieces s index c) = bare (content s index c).value) :
    Reads (contentsPieces s index cs) (contents s index cs).value := by
  induction cs with
  | nil =>
    rw [contentsPieces, contents]
    exact .nil
  | cons c cs ih =>
    rw [contentsPieces, contents]
    have hrest := ih fun d hd => h d (List.mem_cons_of_mem _ hd)
    exact (Reads.one (h c List.mem_cons_self) (contentPieces_ne_nil c)).append hrest

/-- A piece of content reads like its pieces. -/
theorem rendered_reads :
    Rendered (Renderable s index) fun c => bareText (contentPieces s index c) = bare (content s index c).value where
  leaf c hc _ := by
    rw [contentPieces_leaf hc, content_leaf hc]
    exact List.append_nil _
  element n type hk hr hchildren := by
    rw [contentPieces_element hk, content_element hk]
    exact bare_elementNode hk (hr.tag type hk) none (reads_contents hchildren)
  frame n f hf _ hchildren halternative := by
    have hinner := singleOrNull_reads (reads_contents hchildren) (contents_length n.children)
    have hother := singleOrNull_reads (reads_contents halternative) (contents_length n.alternative)
    rw [contentPieces_frame hf, content_frame hf, bareText_cons, start_frame hf]
    exact bare_frame f hinner hother

theorem contents_reads (cs : List Content) (h : ∀ n ∈ contentNodes cs, Renderable s index n) :
    Reads (contentsPieces s index cs) (contents s index cs).value :=
  reads_contents (rendered_reads.contents cs h)

/-! ### Definitions -/

theorem container_ne_empty (platform : Platform) : platform.container ≠ "" := by
  cases platform with
  | web => decide
  | crossPlatform => decide

/-- The markup of a definition reads like its pieces. -/
theorem root_reads {d : Node} (h : ∀ n ∈ contentNodes d.children, Renderable s index n) :
    Reads (rootPieces s index d) (root s index d).value.toList := by
  have hchildren := contents_reads d.children h
  cases hs : s.styleOf d.head with
  | none =>
    rw [rootPieces_plain hs, root_plain hs]
    exact single_reads hchildren (contents_length d.children)
  | some style =>
    cases hd : d.rootElement? with
    | none =>
      rw [rootPieces_contained hs hd, root_contained hs hd]
      exact .one (bare_elementText _ _ (container_ne_empty _) _ _ hchildren).symm (by simp)
    | some n =>
      obtain ⟨-, type, hk⟩ := Node.rootElement?_eq_some hd
      obtain ⟨hown, hbelow⟩ := Node.rootElement?_forall hd h
      rw [rootPieces_element hs hd hk, root_element hs hd hk]
      exact .one (bare_elementNode hk (hown.tag type hk) (some style) (contents_reads n.children hbelow)) (by simp)

theorem provided_reads {inner : List Piece} {markup : Option String} (h : Reads inner markup.toList)
    (providers : List Provider) : Reads (provided providers inner) (Function.provide providers markup).toList := by
  induction providers with
  | nil => exact h
  | cons p providers ih =>
    refine .one (.trans ?_ (bare_wrap ih (.inl (by simp))).symm) (by simp [provided])
    simp [provided]

/-- What the function of a definition returns reads like the pieces of the definition. -/
theorem pieces_reads {d : Node} (h : ∀ n ∈ contentNodes d.children, Renderable s index n) (isComponent : Bool) :
    Reads (pieces s index d) (Function.ofDefinition s index d isComponent).value.markup.toList :=
  provided_reads (root_reads h) (s.contexts.providers d.head)

/-! ## What the pieces hold -/

/-- What `f` reads off a piece is due to a node or to the style of a definition, and an
element that inherits a style reads like the style before the element. -/
structure Marks {α : Type} (s : Scope) (index : Nat) (f : Piece → List α) (own : ResolvedStyle → List α) : Prop where
  plain : ∀ text, f { text } = []
  container : ∀ style, f (opening s.platform none s.platform.container [] [style]) = own style
  inherited : ∀ style n type, n.head.kind = .element type →
    f (start s index (some style) n) = own style ++ f (start s index none n)

section
variable {α : Type} {f : Piece → List α} {own : ResolvedStyle → List α}

theorem Marks.closing (h : Marks s index f own) (tag : String) (inner : List Piece) :
    (closing tag inner).flatMap f = inner.flatMap f := by
  unfold Markup.closing
  split
  · rename_i hi
    simp [List.isEmpty_iff.1 hi, h.plain]
  · simp [h.plain]

theorem Marks.expression (h : Marks s index f own) (cs : List Content) (inner : List Piece) :
    (expression cs inner).flatMap f = inner.flatMap f := by
  unfold Markup.expression
  split
  · rfl
  · simp [h.plain]

theorem Marks.expressionOrNull (h : Marks s index f own) (cs : List Content) (inner : List Piece) :
    (expressionOrNull cs inner).flatMap f = inner.flatMap f := by
  unfold Markup.expressionOrNull
  split
  · rename_i hi
    simp [List.isEmpty_iff.1 hi, h.plain]
  · exact h.expression cs inner

theorem Marks.provided (h : Marks s index f own) (providers : List Provider) (inner : List Piece) :
    (provided providers inner).flatMap f = inner.flatMap f := by
  induction providers with
  | nil => rfl
  | cons p providers ih =>
    have hclosing := h.closing (p.identifier ++ ".Provider") (Markup.provided providers inner)
    rw [ih] at hclosing
    simpa [Markup.provided, h.plain] using hclosing

theorem Marks.frame (h : Marks s index f own) {n : Node} {g : Frame} (hg : n.frame? = some g) (inner : List Piece) :
    (g.pieces inner (Markup.expressionOrNull n.alternative (contentsPieces s index n.alternative))).flatMap f =
      inner.flatMap f ++ (contentsPieces s index n.alternative).flatMap f := by
  cases halternative : n.alternative with
  | nil =>
    cases g <;> simp [Frame.pieces, Markup.expressionOrNull, contentsPieces, h.plain]
  | cons c cs =>
    obtain ⟨condition, rfl⟩ := Node.choose_of_alternative hg (by simp [halternative])
    simp [Frame.pieces, h.plain, h.expressionOrNull]

theorem Marks.contents_of {cs : List Content}
    (h : ∀ c ∈ cs, (contentPieces s index c).flatMap f = c.shown.flatMap fun n => f (start s index none n)) :
    (contentsPieces s index cs).flatMap f = (contentShown cs).flatMap fun n => f (start s index none n) := by
  rw [contentsPieces_eq_flatMap, contentShown_eq_flatMap, List.flatMap_assoc, List.flatMap_assoc]
  exact List.flatMap_congr h

/-- Pieces hold what the nodes that are shown start with, in order. -/
theorem Marks.rendered (h : Marks s index f own) : Rendered (Renderable s index) fun c =>
    (contentPieces s index c).flatMap f = c.shown.flatMap fun n => f (start s index none n) where
  leaf c hc _ := by
    rw [contentPieces_leaf hc, Content.shown_leaf hc]
    cases hn : c.node? with
    | none => simp [h.plain]
    | some n =>
      rw [Content.node?_eq_some hn] at hc ⊢
      simp [start_leaf hc]
  element n type hk hr hchildren := by
    rw [contentPieces_element hk, n.toContent_shown (n.isLeaf_of_element hk) hr.fallback, n.alternative_of_element hk,
      List.flatMap_cons, List.flatMap_cons, h.closing, Marks.contents_of hchildren, contentShown, List.append_nil]
  frame n g hg hr hchildren halternative := by
    rw [contentPieces_frame hg, n.toContent_shown (n.isLeaf_of_frame hg) hr.fallback, List.flatMap_cons,
      List.flatMap_cons, h.frame hg, h.expressionOrNull, List.flatMap_append, Marks.contents_of hchildren,
      Marks.contents_of halternative]

theorem Marks.contents (h : Marks s index f own) (cs : List Content)
    (hr : ∀ n ∈ contentNodes cs, Renderable s index n) :
    (contentsPieces s index cs).flatMap f = (contentShown cs).flatMap fun n => f (start s index none n) :=
  Marks.contents_of (h.rendered.contents cs hr)

theorem Marks.root (h : Marks s index f own) {d : Node}
    (hr : ∀ n ∈ contentNodes d.children, Renderable s index n) :
    (rootPieces s index d).flatMap f =
      (s.styleOf d.head).toList.flatMap own ++ (contentShown d.children).flatMap fun n => f (start s index none n) := by
  have hchildren := h.contents d.children hr
  cases hs : s.styleOf d.head with
  | none =>
    rw [rootPieces_plain hs, h.expression, hchildren]
    rfl
  | some style =>
    cases hd : d.rootElement? with
    | none =>
      rw [rootPieces_contained hs hd, List.flatMap_cons, h.container, h.closing, hchildren]
      simp
    | some n =>
      -- the style of the definition comes right before that of its only child
      obtain ⟨hc, type, hk⟩ := Node.rootElement?_eq_some hd
      rw [hc, contentsPieces, contentsPieces, List.append_nil, contentPieces_element hk, List.flatMap_cons,
        h.closing] at hchildren
      rw [rootPieces_element hs hd hk, List.flatMap_cons, h.inherited style n type hk, h.closing, List.append_assoc,
        hchildren, hc]
      simp

/-- The pieces of a definition hold what its style gives, and then what the nodes that are
shown start with. -/
theorem Marks.pieces (h : Marks s index f own) {d : Node} (hd : d.isDefinition = true)
    (hr : ∀ n ∈ d.nodes, Renderable s index n) :
    (pieces s index d).flatMap f =
      (s.styleOf d.head).toList.flatMap own ++ d.shown.flatMap fun n => f (start s index none n) := by
  have hfallback : d.fallback = [] := by
    refine (hr d List.mem_cons_self).fallback.resolve_right ?_
    rintro ⟨condition, hk⟩
    simp [Node.isDefinition, Head.isDefinition, hk] at hd
  have hroot := h.root fun n hn => hr n (List.mem_cons_of_mem _ (List.mem_append_left _ hn))
  unfold Markup.pieces Node.shown
  rw [h.provided, hroot, hfallback, contentShown, List.append_nil]

end

theorem start_node (inherited : Option ResolvedStyle) (n : Node) : (start s index inherited n).node = some n := by
  unfold start
  split
  · rfl
  · rfl
  · rfl
  · rfl
  · rfl

/-- The nodes that start with a piece are those that are shown, each once and in order. -/
theorem pieces_nodes {d : Node} (hd : d.isDefinition = true) (hr : ∀ n ∈ d.nodes, Renderable s index n) :
    (pieces s index d).filterMap Piece.node = d.shown := by
  have hmarks : Marks s index (fun p => p.node.toList) fun _ => [] :=
    ⟨fun _ => rfl, fun _ => rfl, fun style n _ _ => by simp [start_node]⟩
  rw [List.filterMap_eq_flatMap_toList, hmarks.pieces hd hr]
  simp [start_node]

theorem start_text_of_isDefinition (inherited : Option ResolvedStyle) {n : Node} (h : n.isDefinition = true) :
    (start s index inherited n).text = "<" ++ s.functionName n.head ++ " />" := by
  unfold start
  cases hk : n.head.kind with
  | component params => rfl
  | _ => simp [Node.isDefinition, Head.isDefinition, hk] at h

/-- What holds of the pieces that belong to no node, of the container around a definition
and of whatever a node can start with holds of all pieces. -/
theorem pieces_forall {P : Piece → Prop} (hplain : ∀ text, P { text })
    (hcontainer : ∀ style, P (opening s.platform none s.platform.container [] [style]))
    (hstart : ∀ inherited n, P (start s index inherited n)) {d : Node} (hd : d.isDefinition = true)
    (hr : ∀ n ∈ d.nodes, Renderable s index n) : ∀ p ∈ pieces s index d, P p := by
  classical
  -- no piece fails, neither those of nodes nor any other
  have hmarks : Marks s index (fun p => if P p then [] else [p]) fun _ => [] := by
    refine ⟨fun text => if_pos (hplain text), fun style => if_pos (hcontainer style), fun style n type _ => ?_⟩
    rw [if_pos (hstart _ n), if_pos (hstart _ n), List.append_nil]
  have hnone : (pieces s index d).flatMap (fun p => if P p then [] else [p]) = [] := by
    rw [hmarks.pieces hd hr]
    simp [hstart]
  intro p hp
  by_contra hP
  have hfails := List.flatMap_eq_nil_iff.1 hnone p hp
  rw [if_neg hP] at hfails
  cases hfails

/-- A piece that a definition starts with is the reference to its function. -/
theorem pieces_references {d : Node} (hd : d.isDefinition = true) (hr : ∀ n ∈ d.nodes, Renderable s index n) :
    ∀ p ∈ pieces s index d, ∀ n, p.node = some n → n.isDefinition = true →
      p.text = "<" ++ s.functionName n.head ++ " />" := by
  refine pieces_forall ?_ ?_ ?_ hd hr
  · rintro text n ⟨⟩
  · rintro style n ⟨⟩
  · intro inherited m n hn hdefinition
    obtain rfl := Option.some.inj ((start_node inherited m).symm.trans hn)
    exact start_text_of_isDefinition inherited hdefinition

end

end Markup

end ViewTree
