import ViewTree.Proofs.Compile.Files
import ViewTree.Proofs.Component.Functions
import ViewTree.Proofs.Load.WellFormed
import ViewTree.Proofs.Markup.Pieces
import ViewTree.Proofs.Names.Apart
import ViewTree.Proofs.Names.Table

/-!
# Every node is rendered in its place

The file of a component has one function for each of its definitions. The component itself
apart, each node is in the region of one definition, and the function of that definition
renders it once, in the order of the document (`compile_renders_regions`). What stands
below a script is the exception: it is in a region like any other node, and a definition
there has its function, but no function renders it.
-/

namespace ViewTree

/-! ## What can be rendered -/

namespace Load

/-- The type of an element is not empty. -/
theorem built_tags : Built fun n => ∀ type, n.head.kind = .element type → type ≠ "" where
  node fields path position n h hp type hkind := by
    obtain ⟨given, kind, fallback, htype, hk, rfl, hnotes⟩ := node_eq_some h
    rw [hnotes] at hp
    simp only [Log.problems_append, List.append_eq_nil_iff] at hp
    have hwell := kindOf_wellFormed (nodeType_not_blank htype) hp.2.1
    rw [hk, show kind = .element type from hkind] at hwell
    rintro rfl
    exact absurd hwell.1 (by decide)
  definition fields path position n h _ type hkind := by
    rw [definition_value, Option.some.injEq] at h
    subst h
    cases hkind

end Load

/-- The tags of an app that passes its checks are not empty, and only choices have a
fallback. -/
theorem App.renderable {document : Json} {app : App} (hload : Load.app document = .ok app)
    (hcheck : app.checkProblems = []) (options : Options) (i : Nat) :
    ∀ n ∈ app.nodes, Markup.Renderable (app.scope options) i n := by
  intro n hn
  refine ⟨fun type hk => ?_, Load.app_forall Load.built_fallback hload n hn⟩
  unfold Markup.tagOf
  split
  · rename_i entry hentry
    obtain ⟨c, d, hstands⟩ := component?_stands hload hcheck hentry
    have hidentifier := isIdentifier_of_nameOf hcheck hstands.identifier
    have hne : entry.identifier ≠ "" := by
      intro hempty
      rw [hempty] at hidentifier
      exact absurd hidentifier (by decide)
    dsimp only
    split
    · exact hne
    · exact hne
  · exact Load.app_forall Load.built_tags hload n hn type hk

/-! ## Functions -/

/-- The function is that of a definition. It has the name that was resolved for the
definition, and what it returns is what is shown of the definition, each node once and in
order; an inner definition is shown by a reference to its function. -/
structure Function.Renders (s : Scope) (index : Nat) (d : Node) (f : Function) : Prop where
  name : s.naming.nameOf d.head = some f.name
  reads : Markup.Reads (Markup.pieces s index d) f.markup.toList
  nodes : (Markup.pieces s index d).filterMap Piece.node = d.shown
  references : ∀ p ∈ Markup.pieces s index d, ∀ n, p.node = some n → n.isDefinition = true →
    p.text = "<" ++ s.functionName n.head ++ " />"

theorem Function.ofDefinition_renders {document : Json} {app : App} (hload : Load.app document = .ok app)
    (hcheck : app.checkProblems = []) (options : Options) (i : Nat) {c d : Node} (hc : c ∈ app.components)
    (hd : d ∈ c.definitions) (isComponent : Bool) :
    (ofDefinition (app.scope options) i d isComponent).value.Renders (app.scope options) i d := by
  have hdefinition := (List.mem_filter.1 hd).2
  have hr : ∀ n ∈ d.nodes, Markup.Renderable (app.scope options) i n := by
    intro n hn
    have hnc := Node.nodes_subset (List.mem_of_mem_filter hd) hn
    exact App.renderable hload hcheck options i n (List.mem_flatMap.2 ⟨c, hc, hnc⟩)
  refine ⟨?_, ?_, Markup.pieces_nodes hdefinition hr, Markup.pieces_references hdefinition hr⟩
  · exact App.definition_name hload hcheck options (List.mem_flatMap.2 ⟨c, hc, hd⟩)
  · exact Markup.pieces_reads (fun n hn => hr n (List.mem_cons_of_mem _ (List.mem_append_left _ hn))) isComponent

theorem ComponentFile.functions_render {document : Json} {app : App} (hload : Load.app document = .ok app)
    (hcheck : app.checkProblems = []) (options : Options) (i : Nat) {c : Node} (hc : c ∈ app.components) :
    List.Forall₂ (Function.Renders (app.scope options) i) c.definitions (functions (app.scope options) i c).value := by
  have hcd := (Load.app_components hload c hc).1
  have hrenders := fun d hd => Function.ofDefinition_renders hload hcheck options i (d := d) hc hd
  rw [functions_value _ _ hcd]
  rw [Node.definitions_cons hcd] at hrenders ⊢
  refine .cons (hrenders c List.mem_cons_self true) ?_
  rw [List.forall₂_map_right_iff, List.forall₂_same]
  exact fun d hd => hrenders d (List.mem_cons_of_mem _ hd) false

/-! ## Names -/

theorem App.component_nodes_nodup {document : Json} {app : App} (hload : Load.app document = .ok app) {c : Node}
    (hc : c ∈ app.components) : c.nodes.Nodup :=
  (List.nodup_flatMap.1 ((Load.app_positions_nodup hload).of_map _)).1 c hc

/-- The functions of a component have different names. -/
theorem ComponentFile.function_names_nodup {document : Json} {app : App} (hload : Load.app document = .ok app)
    (hcheck : app.checkProblems = []) (options : Options) (i : Nat) {c : Node} (hc : c ∈ app.components) :
    ((functions (app.scope options) i c).value.map Function.name).Nodup := by
  have hcd := (Load.app_components hload c hc).1
  have hname := fun d hd => App.definition_name hload hcheck options (d := d) (List.mem_flatMap.2 ⟨c, hc, hd⟩)
  have hnode : ∀ d ∈ c.definitions, d ∈ app.nodes :=
    fun d hd => List.mem_flatMap.2 ⟨c, hc, List.mem_of_mem_filter hd⟩
  rw [functions_names _ _ hcd]
  refine List.Nodup.map_on ?_ ((App.component_nodes_nodup hload hc).sublist List.filter_sublist)
  intro d hd e he heq
  refine App.eq_of_nameOf hload hcheck (hnode d hd) (hnode e he) (hname d hd) ?_
  rw [heq]
  exact hname e he

/-! ## Compiled files -/

/-- The file of every component has one function for each definition of the component, in
order, and their names differ. Every node of the component other than itself is in the
region of exactly one definition, in the order of the document, and the function of that
definition renders what is shown of the region. That is the whole region exactly if its
scripts have no nodes below them; what is missing otherwise is what these scripts hide. -/
theorem compile_renders_regions {document : Json} {options : Options} {output : Output}
    (h : compile document options = .ok output) :
    ∃ app, Load.app document = .ok app ∧ ∀ (i : Nat) (c : Node), app.components[i]? = some c →
      ∃ file block functions, output.files[i]? = some file ∧
        file.contents = ComponentFile.sourceText block functions ∧
        List.Forall₂ (Function.Renders (app.scope options) i) c.definitions functions ∧
        (functions.map Function.name).Nodup ∧ c.nodes.Nodup ∧
        c.nodes.Perm (c :: c.definitions.flatMap Node.region) ∧
        ∀ d ∈ c.definitions, d.region.Sublist c.nodes ∧ d.shown.Sublist d.region ∧
          d.region.Perm (d.shown ++ d.shown.flatMap Node.hidden) ∧
          (d.shown = d.region ↔ ∀ n ∈ d.region, n.head.isScript = true → n.region = []) := by
  obtain ⟨app, files, hload, hcheck, hwritten, rfl⟩ := compile_eq_ok h
  refine ⟨app, hload, fun i c hc => ?_⟩
  obtain ⟨file, ho, hfile⟩ := hwritten.artifact hc (app.scope options).contexts
  obtain ⟨-, block, -, hsource⟩ := ComponentFile.ofComponent_eq_ok ho
  have hmem := List.mem_of_getElem? hc
  have hrender := ComponentFile.functions_render hload hcheck options i hmem
  have hregions := Node.nodes_perm_regions (Load.app_components hload c hmem).1
  refine ⟨_, block, _, hfile, hsource, hrender, ?_, App.component_nodes_nodup hload hmem, hregions, fun d hd => ?_⟩
  · exact ComponentFile.function_names_nodup hload hcheck options i hmem
  · exact ⟨Node.region_sublist (List.mem_of_mem_filter hd), d.shown_sublist, d.region_perm, Node.shown_eq_region_iff⟩

/-- A component with an inner definition in a choice, whose alternative is a loop, and a
script with nothing below it. -/
def nestedRegions : Json :=
  .object [("components", .array
    [.object [("name", .string "App"), ("children", .object
      [("type", .string "main"), ("children", .array
        [.object [("type", .string "If"), ("condition", .string "ready"),
          ("children", .object [("type", .string "Component"), ("name", .string "Row"),
            ("children", .object [("type", .string "p"), ("children", .object [("type", .string "b")])])]),
          ("else", .object [("type", .string "Map"), ("data", .string "rows"),
            ("children", .object [("type", .string "li")])])],
        .object [("type", .string "Script"), ("code", .string "rest()")]])])]])]

theorem compile_renders_regions_nested :
    ∃ output app c functions, compile nestedRegions {} = .ok output ∧ Load.app nestedRegions = .ok app ∧
      app.components[0]? = some c ∧
      List.Forall₂ (Function.Renders (app.scope {}) 0) c.definitions functions ∧
      c.nodes.length = 9 ∧ c.definitions.map (fun d => d.region.length) = [6, 2] ∧
      ∀ d ∈ c.definitions, d.shown = d.region := by
  have hcounts : ((Load.app nestedRegions).toOption.bind fun app => app.components[0]?.map fun c =>
      (c.nodes.length, c.definitions.map fun d => d.region.length,
        c.definitions.all fun d => d.region.all fun n => !n.head.isScript || n.region.isEmpty)) =
      some (9, [6, 2], true) := by decide +kernel
  obtain ⟨output, h⟩ : ∃ output, compile nestedRegions {} = .ok output := exists_ok_of_isOk (by decide +kernel)
  obtain ⟨app, hload, hfiles⟩ := compile_renders_regions h
  rw [hload] at hcounts
  obtain ⟨c, hc, hcounts⟩ := Option.map_eq_some_iff.1 hcounts
  obtain ⟨hnodes, hregions, hscripts⟩ : c.nodes.length = 9 ∧ c.definitions.map (fun d => d.region.length) = [6, 2] ∧
      ∀ d ∈ c.definitions, ∀ n ∈ d.region, n.head.isScript = true → n.region = [] := by
    simpa [imp_iff_not_or] using hcounts
  obtain ⟨file, block, functions, -, -, hrenders, -, -, -, hdefinitions⟩ := hfiles 0 c hc
  refine ⟨output, app, c, functions, h, hload, hc, hrenders, hnodes, hregions, fun d hd => ?_⟩
  exact (hdefinitions d hd).2.2.2.2 (hscripts d hd)

/-- A script with a definition below it. -/
def hiddenRow : Json :=
  .object [("components", .array
    [.object [("name", .string "App"), ("children", .object
      [("type", .string "Script"), ("code", .string "x"),
        ("children", .object [("type", .string "Component"), ("name", .string "Row")])])]])]

/-- The definition has its function, and nothing refers to it. -/
theorem hidden_row_not_rendered :
    ((compile hiddenRow {}).toOption.bind fun output => output.files[0]?.map fun file =>
      (decide ("export function Row(".toList <:+: file.contents.toList),
        decide ("<Row />".toList <:+: file.contents.toList))) = some (true, false) ∧
    ((Load.app hiddenRow).toOption.bind fun app => app.components[0]?.map fun c =>
      c.definitions.map fun d => (d.region.length, d.shown.length)) = some [(2, 1), (0, 0)] := by
  decide +kernel

end ViewTree
