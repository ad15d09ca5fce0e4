import ViewTree.Proofs.Compile.Checks
import ViewTree.Proofs.Load.Nodes
import ViewTree.Proofs.Names.Rounds

/-!
# Changing the styles of a tree

`restyle g` rewrites the style of every node with `g` and leaves everything else alone.
Nothing that is found out about a whole app before its files are written looks at styles,
except the classes: names, contexts and the problems of the checks are those of the app
before (`App.checkProblems_restyle`).
-/

namespace ViewTree

variable (g : List StyleEntry → List StyleEntry)

/-- The head with another style. -/
def Head.restyle (h : Head) : Head := { h with style := g h.style }

mutual

/-- The content with another style on every node. -/
def Content.restyle : Content → Content
  | .text t => .text t
  | .literal v => .literal v
  | .script code => .script code
  | .node head children fallback =>
    .node (head.restyle g) (restyleContents children) (restyleContents fallback)

/-- A list of content with another style on every node. -/
def restyleContents : List Content → List Content
  | [] => []
  | c :: rest => c.restyle :: restyleContents rest

end

/-- The node with another style on itself and on every node below it. -/
def Node.restyle (n : Node) : Node :=
  ⟨n.head.restyle g, restyleContents g n.children, restyleContents g n.fallback⟩

/-- The app with another style on every node. -/
def App.restyle (app : App) : App := { app with components := app.components.map (Node.restyle g) }

/-! ## Trees -/

theorem restyleContents_eq_map (cs : List Content) : restyleContents g cs = cs.map (Content.restyle g) := by
  induction cs with
  | nil => rfl
  | cons c cs ih => rw [restyleContents, ih, List.map_cons]

theorem Node.toContent_restyle (n : Node) : (n.restyle g).toContent = n.toContent.restyle g := by
  unfold Node.toContent
  rw [Content.restyle]
  rfl

mutual

theorem Content.nodes_restyle : ∀ c : Content, (c.restyle g).nodes = c.nodes.map (Node.restyle g)
  | .text _ => by simp [Content.restyle, Content.nodes]
  | .literal _ => by simp [Content.restyle, Content.nodes]
  | .script _ => by simp [Content.restyle, Content.nodes]
  | .node head children fallback => by
    rw [Content.restyle, Content.nodes, Content.nodes, contentNodes_restyle children, contentNodes_restyle fallback,
      List.map_cons, List.map_append]
    rfl

theorem contentNodes_restyle : ∀ cs : List Content,
    contentNodes (restyleContents g cs) = (contentNodes cs).map (Node.restyle g)
  | [] => by simp [restyleContents, contentNodes]
  | c :: cs => by
    rw [restyleContents, contentNodes, contentNodes, Content.nodes_restyle c, contentNodes_restyle cs, List.map_append]

end

theorem Node.nodes_restyle (n : Node) : (n.restyle g).nodes = n.nodes.map (Node.restyle g) := by
  unfold Node.nodes
  rw [Node.toContent_restyle, Content.nodes_restyle]

theorem Node.definitions_restyle (n : Node) : (n.restyle g).definitions = n.definitions.map (Node.restyle g) := by
  unfold Node.definitions
  rw [Node.nodes_restyle, List.filter_map]
  rfl

mutual

theorem Content.restyle_id : ∀ c : Content, c.restyle id = c
  | .text _ => by rw [Content.restyle]
  | .literal _ => by rw [Content.restyle]
  | .script _ => by rw [Content.restyle]
  | .node head children fallback => by
    rw [Content.restyle, restyleContents_id children, restyleContents_id fallback]
    rfl

theorem restyleContents_id : ∀ cs : List Content, restyleContents id cs = cs
  | [] => by rw [restyleContents]
  | c :: cs => by rw [restyleContents, Content.restyle_id c, restyleContents_id cs]

end

theorem Node.restyle_id (n : Node) : n.restyle id = n := by
  unfold Node.restyle
  rw [restyleContents_id, restyleContents_id]
  rfl

theorem App.nodes_restyle (app : App) : (app.restyle g).nodes = app.nodes.map (Node.restyle g) := by
  unfold App.nodes App.restyle
  rw [List.flatMap_map, List.map_flatMap]
  exact congrArg (List.flatMap · app.components) (funext fun c => c.nodes_restyle g)

theorem App.definitions_restyle (app : App) : (app.restyle g).definitions = app.definitions.map (Node.restyle g) := by
  unfold App.definitions App.restyle
  rw [List.flatMap_map, List.map_flatMap]
  exact congrArg (List.flatMap · app.components) (funext fun c => c.definitions_restyle g)

theorem App.rootIndex_restyle (app : App) : (app.restyle g).rootIndex = app.rootIndex := by
  unfold App.rootIndex App.restyle
  simp only [List.findIdx?_map]
  rfl

/-! ## Names -/

namespace Names

theorem explicitNames_restyle (app : App) (naming : Naming) :
    explicitNames (app.restyle g) naming = explicitNames app naming := by
  have howned : ownedDefinitions (app.restyle g) = (ownedDefinitions app).map fun o =>
      ⟨o.owner, o.component.restyle g, o.definition.restyle g⟩ := by
    unfold ownedDefinitions App.restyle
    simp only [List.zipIdx_map, List.flatMap_map, List.map_flatMap, Prod.map_fst, Prod.map_snd, id_eq,
      Node.definitions_restyle, List.map_map]
    rfl
  unfold explicitNames
  rw [howned, List.foldl_map]
  rfl

theorem anonymousNames_restyle (app : App) (table : NameTable) (naming : Naming) :
    anonymousNames (app.restyle g) table naming = anonymousNames app table naming := by
  have hinline : ∀ (state : NameTable × Naming) (c : Node), nameInline state (c.restyle g) = nameInline state c := by
    intro state c
    unfold nameInline
    rw [Node.nodes_restyle, ← List.map_drop, List.filter_map, List.foldl_map]
    rfl
  unfold anonymousNames App.restyle
  rw [List.foldl_map]
  exact congrArg (fun f => app.components.foldl f (table, naming)) (funext₂ hinline)

/-- The names that nodes have when classes are given are those they keep. -/
theorem resolve_named_eq (app : App) :
    (resolve app {}).naming.names =
      if (explicitNames app {}).problems.isEmpty then
        (anonymousNames app (explicitNames app {}).table (explicitNames app {}).naming).2.names
      else (explicitNames app {}).naming.names := by
  unfold resolve
  dsimp only
  split
  · have hgiven := anonymousNames_given (explicitNames_given app) app
    obtain ⟨s, hs, hclasses⟩ := classNames_classed app hgiven.unclassed
    exact (congrArg Naming.names hclasses).trans hs.names
  · rfl

/-- Styles do not decide whether an app can be named, nor the names. -/
theorem resolve_restyle (app : App) :
    (resolve (app.restyle g) {}).outcome = (resolve app {}).outcome ∧
      (resolve (app.restyle g) {}).naming.names = (resolve app {}).naming.names := by
  constructor
  · unfold resolve
    simp only [explicitNames_restyle, anonymousNames_restyle]
    split
    · rfl
    · rfl
  · rw [resolve_named_eq, resolve_named_eq, explicitNames_restyle, anonymousNames_restyle]

end Names

/-! ## Checks -/

theorem App.userImports_restyle {app app' : App} (himports : app'.imports = app.imports) (c : Node) :
    app'.userImports (c.restyle g) = app.userImports c := by
  unfold App.userImports
  rw [himports, Node.nodes_restyle, List.flatMap_map]
  rfl

theorem Naming.functions_restyle {naming naming' : Naming} {c : Node}
    (h : ∀ d ∈ c.definitions, naming'.nameOf (d.head.restyle g) = naming.nameOf d.head) :
    naming'.functions (c.restyle g) = naming.functions c := by
  unfold Naming.functions
  rw [Node.definitions_restyle, List.filterMap_map]
  exact List.filterMap_congr fun d hd => congrArg (Option.map _) (h d hd)

section

variable {naming naming' : Naming} (hnames : naming'.names = naming.names)

include hnames

theorem Naming.nameOf_restyle (h : Head) : naming'.nameOf (h.restyle g) = naming.nameOf h := by
  unfold Naming.nameOf
  rw [hnames]
  rfl

theorem Naming.display_restyle (h : Head) : naming'.display (h.restyle g) = naming.display h := by
  unfold Naming.display
  rw [nameOf_restyle g hnames]
  rfl

theorem Contexts.provide_restyle (state : Binding) (h : Head) (p : Provision) :
    provide naming' state (h.restyle g) p = provide naming state h p := by
  unfold provide repeatedProvider
  rw [Naming.display_restyle g hnames]
  rfl

theorem Contexts.bind_restyle (app : App) (table : NameTable) :
    bind (app.restyle g) naming' table = bind app naming table := by
  have hprovisions : provisions (app.restyle g) = (provisions app).map fun p => (p.1.restyle g, p.2) := by
    unfold provisions
    rw [App.definitions_restyle, List.flatMap_map, List.map_flatMap]
    simp only [List.map_map]
    rfl
  have huses : uses (app.restyle g) = (uses app).map fun u => (u.1.restyle g, u.2) := by
    unfold uses
    rw [App.definitions_restyle, List.flatMap_map, List.map_flatMap]
    simp only [List.map_map]
    rfl
  have hunprovided : ∀ contexts, unprovided naming' (app.restyle g) contexts = unprovided naming app contexts := by
    intro contexts
    unfold unprovided
    rw [huses, List.filter_map, List.map_map]
    refine List.map_congr_left fun u _ => ?_
    simp only [Function.comp_apply, Naming.display_restyle g hnames]
    rfl
  unfold bind
  simp only [hprovisions, List.foldl_map, provide_restyle g hnames, hunprovided]

theorem App.importProblems_restyle (app : App) : (app.restyle g).importProblems naming' = app.importProblems naming := by
  have huser : ∀ c : Node, (app.restyle g).userImports (c.restyle g) = app.userImports c :=
    App.userImports_restyle g rfl
  unfold App.importProblems
  rw [show (app.restyle g).components = app.components.map (Node.restyle g) from rfl, List.foldl_map]
  simp only [Naming.functions_restyle g fun d _ => Naming.nameOf_restyle g hnames d.head, huser]

end

namespace App

theorem bound_restyle (app : App) : (app.restyle g).bound = app.bound := by
  obtain ⟨houtcome, hnames⟩ := Names.resolve_restyle g app
  unfold bound nameTable
  rw [houtcome, Contexts.bind_restyle g hnames]

theorem checkProblems_restyle (app : App) : (app.restyle g).checkProblems = app.checkProblems := by
  obtain ⟨houtcome, hnames⟩ := Names.resolve_restyle g app
  unfold checkProblems
  rw [houtcome, bound_restyle, importProblems_restyle g hnames]

end App

end ViewTree
