import ViewTree.Proofs.Markup.Walk
import ViewTree.Proofs.Restyle.Tree

/-!
# Files from scopes that look alike

What is written for a component is decided by little: a few things that its scope holds
for the whole app (`Scope.Alike`), and the name and the resolved style of each of its own
nodes (`Scope.Shows`). Two scopes that agree on these give the same file, also for a
component whose nodes have been restyled.
-/

namespace ViewTree

variable {g : List StyleEntry → List StyleEntry} {s s' : Scope}

/-- The scopes agree on what is shared between the files of an app. -/
structure Scope.Alike (s s' : Scope) : Prop where
  platform : s'.platform = s.platform
  options : s'.options = s.options
  contexts : s'.contexts = s.contexts
  component? : ∀ type, s'.table.component? type = s.table.component? type
  fileName : ∀ owner, s'.fileName owner = s.fileName owner

/-- A node has the same name and the same resolved style in both scopes, restyled in the
second. -/
structure Scope.Shows (g : List StyleEntry → List StyleEntry) (s s' : Scope) (h : Head) : Prop where
  name : s'.naming.nameOf (h.restyle g) = s.naming.nameOf h
  style : Style.resolve s'.platform s'.app.styleFormats s'.naming (h.restyle g) =
    Style.resolve s.platform s.app.styleFormats s.naming h

theorem Scope.Shows.functionName {h : Head} (hs : Scope.Shows g s s' h) :
    s'.functionName (h.restyle g) = s.functionName h := by
  unfold Scope.functionName Naming.display
  rw [hs.name]
  rfl

theorem Scope.Shows.styleOf {h : Head} (hs : Scope.Shows g s s' h) : s'.styleOf (h.restyle g) = s.styleOf h := by
  unfold Scope.styleOf
  rw [hs.style]

/-! ## Markup -/

theorem Noted.each_map_congr {ω α β γ : Type} [Append ω] [EmptyCollection ω] {f : α → Noted ω γ} {f' : β → Noted ω γ}
    {h : α → β} {as : List α} (hf : ∀ a ∈ as, f' (h a) = f a) : Noted.each f' (as.map h) = Noted.each f as := by
  induction as with
  | nil => rfl
  | cons a as ih =>
    rw [List.map_cons, Noted.each, Noted.each, hf a List.mem_cons_self,
      ih fun b hb => hf b (List.mem_cons_of_mem _ hb)]

section
variable (g)

theorem Content.isLeaf_restyle (c : Content) : (c.restyle g).isLeaf = c.isLeaf := by
  rw [Content.restyle.eq_def]
  cases c with
  | _ => rfl

namespace Node

theorem frame?_restyle (n : Node) : (n.restyle g).frame? = n.frame? := by
  have hempty : (restyleContents g n.fallback).isEmpty = n.fallback.isEmpty := by
    rw [restyleContents_eq_map, List.isEmpty_map]
  unfold frame?
  rw [show (n.restyle g).fallback = restyleContents g n.fallback from rfl, hempty]
  rfl

theorem alternative_restyle (n : Node) : (n.restyle g).alternative = restyleContents g n.alternative := by
  unfold alternative
  rw [show (n.restyle g).head.kind = n.head.kind from rfl]
  split
  · rfl
  · rw [restyleContents]

theorem rootElement?_restyle (d : Node) : (d.restyle g).rootElement? = d.rootElement?.map (Node.restyle g) := by
  unfold rootElement?
  rw [show (d.restyle g).children = restyleContents g d.children from rfl]
  -- only a single node as all content is looked into
  match d.children with
  | [] => rfl
  | [.text _] => rfl
  | [.literal _] => rfl
  | [.script _] => rfl
  | [.node head _ _] =>
    rw [restyleContents, Content.restyle, restyleContents]
    dsimp only
    rw [show (head.restyle g).kind = head.kind from rfl]
    cases head.kind <;> rfl
  | c :: _ :: _ => cases c <;> rfl

end Node

end

namespace Markup

theorem isSingleElement_restyle (cs : List Content) : isSingleElement (restyleContents g cs) = isSingleElement cs := by
  rw [restyleContents_eq_map]
  match cs with
  | [] => rfl
  | [.text _] => rfl
  | [.literal _] => rfl
  | [.script _] => rfl
  | [.node _ _ _] =>
    rw [List.map_singleton, Content.restyle]
    rfl
  | c :: _ :: _ => cases c <;> rfl

theorem single_restyle (cs : List Content) (items : List String) : single (restyleContents g cs) items = single cs items := by
  unfold single
  rw [isSingleElement_restyle]

theorem singleOrNull_restyle (cs : List Content) (items : List String) :
    singleOrNull (restyleContents g cs) items = singleOrNull cs items := by
  unfold singleOrNull
  rw [single_restyle]

variable (index : Nat)

theorem tagOf_alike (ha : Scope.Alike s s') (type : String) : tagOf s' index type = tagOf s index type := by
  unfold tagOf
  simp only [ha.component?, ha.fileName]

theorem elementNode_alike (ha : Scope.Alike s s') {h : Head} (hs : Scope.Shows g s s' h) (type : String)
    (inherited : Option ResolvedStyle) (children : Emit (List String)) :
    elementNode s' index (h.restyle g) type inherited children = elementNode s index h type inherited children := by
  unfold elementNode
  rw [tagOf_alike index ha, hs.styleOf, ha.platform]
  rfl

theorem alike_contents {cs : List Content} (h : ∀ c ∈ cs, content s' index (c.restyle g) = content s index c) :
    contents s' index (restyleContents g cs) = contents s index cs := by
  rw [contents_eq_each, contents_eq_each, restyleContents_eq_map]
  exact Noted.each_map_congr h

theorem rendered_alike (ha : Scope.Alike s s') : Rendered (fun n => Scope.Shows g s s' n.head) fun c =>
    content s' index (c.restyle g) = content s index c where
  leaf c hc hn := by
    have hleaf : (c.restyle g).isLeaf = true := by rw [c.isLeaf_restyle, hc]
    have htext : leafText s' (c.restyle g) = leafText s c := by
      cases c with
      | node head children fallback =>
        obtain ⟨hhead, -⟩ := hn ⟨head, children, fallback⟩ rfl
        rw [Content.restyle, leafText, leafText, show (head.restyle g).kind = head.kind from rfl, hhead.functionName]
      | _ => rw [Content.restyle]; rfl
    rw [content_leaf hleaf, content_leaf hc, htext]
  element n type hk hhead hchildren := by
    rw [← n.toContent_restyle, content_element hk, content_element (n := n.restyle g) hk]
    exact (congrArg _ (alike_contents index hchildren)).trans (elementNode_alike index ha hhead type none _)
  frame n f hf _ hchildren halternative := by
    rw [← n.toContent_restyle, content_frame hf, content_frame ((n.frame?_restyle g).trans hf), n.alternative_restyle,
      show (n.restyle g).children = restyleContents g n.children from rfl, alike_contents index hchildren,
      alike_contents index halternative]
    simp only [singleOrNull_restyle]

theorem contents_alike (ha : Scope.Alike s s') (cs : List Content)
    (h : ∀ n ∈ contentNodes cs, Scope.Shows g s s' n.head) :
    contents s' index (restyleContents g cs) = contents s index cs :=
  alike_contents index ((rendered_alike index ha).contents cs h)

theorem root_alike (ha : Scope.Alike s s') {d : Node} (h : ∀ n ∈ d.nodes, Scope.Shows g s s' n.head) :
    root s' index (d.restyle g) = root s index d := by
  have hhead : Scope.Shows g s s' d.head := h d List.mem_cons_self
  have hbelow : ∀ n ∈ contentNodes d.children, Scope.Shows g s s' n.head :=
    fun n hn => h n (List.mem_cons_of_mem _ (List.mem_append_left _ hn))
  have hchildren : contents s' index (d.restyle g).children = contents s index d.children :=
    contents_alike index ha d.children hbelow
  have hstyle : s'.styleOf (d.restyle g).head = s.styleOf d.head := hhead.styleOf
  cases hs : s.styleOf d.head with
  | none =>
    rw [root_plain hs, root_plain (hstyle.trans hs), hchildren]
    simp only [Node.restyle, single_restyle]
  | some style =>
    cases hd : d.rootElement? with
    | none =>
      have hd' : (d.restyle g).rootElement? = none := by rw [d.rootElement?_restyle, hd, Option.map_none]
      rw [root_contained hs hd, root_contained (hstyle.trans hs) hd', hchildren, ha.platform]
    | some n =>
      have hd' : (d.restyle g).rootElement? = some (n.restyle g) := by rw [d.rootElement?_restyle, hd, Option.map_some]
      obtain ⟨-, type, hk⟩ := Node.rootElement?_eq_some hd
      obtain ⟨hown, hinner⟩ := Node.rootElement?_forall hd hbelow
      have hcontents : contents s' index (n.restyle g).children = contents s index n.children :=
        contents_alike index ha n.children hinner
      rw [root_element hs hd hk, root_element (hstyle.trans hs) hd' hk, hcontents,
        show (n.restyle g).head = n.head.restyle g from rfl, elementNode_alike index ha hown]

end Markup

/-! ## Functions and files -/

theorem Function.ofDefinition_alike (ha : Scope.Alike s s') (index : Nat) {d : Node}
    (h : ∀ n ∈ d.nodes, Scope.Shows g s s' n.head) (isComponent : Bool) :
    ofDefinition s' index (d.restyle g) isComponent = ofDefinition s index d isComponent := by
  have hname : s'.functionName (d.restyle g).head = s.functionName d.head := (h d List.mem_cons_self).functionName
  unfold ofDefinition
  dsimp only
  rw [hname, Markup.root_alike index ha h, ha.contexts, ha.platform]
  rfl

namespace ComponentFile

variable (ha : Scope.Alike s s') (index : Nat) {c : Node} (h : ∀ n ∈ c.nodes, Scope.Shows g s s' n.head)

include ha in
theorem implicitImports_alike (hroot : index = s'.app.rootIndex ↔ index = s.app.rootIndex) (needs : Needs) :
    implicitImports s' index needs = implicitImports s index needs := by
  have hindex : (index == s'.app.rootIndex) = (index == s.app.rootIndex) := by
    rw [Bool.eq_iff_iff, beq_iff_eq, beq_iff_eq]
    exact hroot
  unfold implicitImports plainImports sheetImports
  rw [ha.platform, ha.options, hindex]

include ha h in
theorem functions_alike : functions s' index (c.restyle g) = functions s index c := by
  unfold functions Noted.eachIndexed
  rw [Node.definitions_restyle, List.zipIdx_map]
  refine Noted.each_map_congr fun d hd => ?_
  have hmem : d.1 ∈ c.nodes := List.mem_of_mem_filter (List.fst_mem_of_mem_zipIdx hd)
  exact Function.ofDefinition_alike ha index (fun n hn => h n (Node.nodes_subset hmem hn)) _

include h in
theorem classBlocks_alike : classBlocks s' (c.restyle g) = classBlocks s c := by
  unfold classBlocks
  rw [Node.nodes_restyle, List.filterMap_map]
  exact List.filterMap_congr fun n hn => congrArg ResolvedStyle.css (h n hn).style

include ha h in
/-- The file of a component is the same in scopes that look alike. -/
theorem ofComponent_alike (himports : s'.app.imports = s.app.imports)
    (hroot : index = s'.app.rootIndex ↔ index = s.app.rootIndex) :
    ofComponent s' index (c.restyle g) = ofComponent s index c := by
  have huser := App.userImports_restyle g himports c
  have hreserved := Naming.functions_restyle g fun d hd => (h d (List.mem_of_mem_filter hd)).name
  have hname : s'.functionName (c.restyle g).head = s.functionName c.head := (h c List.mem_cons_self).functionName
  unfold ofComponent pathOf
  simp only [functions_alike ha index h, implicitImports_alike ha index hroot, huser, hreserved, hname, ha.options,
    ha.platform, classBlocks_alike h, Node.definitions_restyle, List.filterMap_map]
  rfl

end ComponentFile

/-! ## Outputs -/

namespace App

theorem scope_alike (g : List StyleEntry → List StyleEntry) (app : App) (options : Options) :
    Scope.Alike (app.scope options) ((app.restyle g).scope options) where
  platform := rfl
  options := rfl
  contexts := by
    unfold scope
    rw [bound_restyle]
  component? type := by
    unfold scope
    rw [bound_restyle]
  fileName owner := by
    unfold Scope.fileName
    rw [show ((app.restyle g).scope options).app.components = app.components.map (Node.restyle g) from rfl,
      List.getElem?_map, scope_app]
    cases app.components[owner]? with
    | none => rfl
    | some c => exact Naming.display_restyle g (Names.resolve_restyle g app).2 c.head

/-- An app whose styles come out the same after they are restyled compiles to the same,
output or problems. -/
theorem compile_restyle {app : App} {options : Options}
    (h : ∀ n ∈ app.nodes,
      Style.resolve (app.scope options).platform app.styleFormats ((app.restyle g).scope options).naming
          (n.head.restyle g) =
        Style.resolve (app.scope options).platform app.styleFormats (app.scope options).naming n.head) :
    (app.restyle g).compile options = app.compile options := by
  have halike := scope_alike g app options
  have hshows : ∀ n ∈ app.nodes, Scope.Shows g (app.scope options) ((app.restyle g).scope options) n.head :=
    fun n hn => ⟨Naming.nameOf_restyle g (Names.resolve_restyle g app).2 n.head, h n hn⟩
  have hfiles : ∀ (cs : List Node) (index : Nat), cs ⊆ app.components →
      componentFiles ((app.restyle g).scope options) index (cs.map (Node.restyle g)) =
        componentFiles (app.scope options) index cs := by
    intro cs
    induction cs with
    | nil => intros; rfl
    | cons c cs ih =>
      intro index hsub
      obtain ⟨hc, hcs⟩ := List.cons_subset.1 hsub
      have hcomponent := ComponentFile.ofComponent_alike halike index
        (fun n hn => hshows n (List.mem_flatMap.2 ⟨c, hc, hn⟩)) rfl (by rw [scope_app, scope_app, rootIndex_restyle])
      rw [List.map_cons, componentFiles, componentFiles, ih (index + 1) hcs, hcomponent]
  have hcomponents := hfiles app.components 0 (List.Subset.refl _)
  rw [compile_eq, compile_eq, checkProblems_restyle, halike.contexts, halike.platform,
    show (app.restyle g).components = app.components.map (Node.restyle g) from rfl, hcomponents]
  rfl

end App

end ViewTree
