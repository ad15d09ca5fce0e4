import ViewTree.Node.Equality
import ViewTree.Proofs.Compile.Rendering
import ViewTree.Proofs.Names.Starts

/-!
# The tags of components

An inner definition is referred to by its tag where it stands, and so is any definition by an
element whose type is its name in the document. The tag is the name of the function, but in
markup only a tag that starts with no lower-case letter is read as one: any other is an
element of the host. Names keep the letters they start with, so a component is rendered
exactly if the name that the document has for it, or for the component around it, does not
start with a lower-case letter (`compile_component_tags`).
-/

namespace ViewTree

/-- The node refers to a definition: it is the definition, or an element whose type is the
definition's name in the document. -/
def Node.RefersTo (n e : Node) : Prop := n = e ∨ ∃ type, n.head.kind = .element type ∧ e.head.name = some type

/-- The piece is the start of a tag. -/
def Piece.HasTag (p : Piece) (tag : String) : Prop := p.text = "<" ++ tag ∨ ∃ rest, p.text = "<" ++ tag ++ " " ++ rest

/-- Whether a tag is read as an element of the host and not as a function in scope. -/
def isHostTag (tag : String) : Bool := Text.startsLower tag

namespace Markup

theorem hasTag_opening (platform : Platform) (node : Option Node) (tag : String) (props : List PropEntry)
    (styles : List ResolvedStyle) : (opening platform node tag props styles).HasTag tag := by
  unfold opening tagStart Piece.HasTag
  dsimp only
  split
  · exact .inl rfl
  · refine .inr ⟨Text.join " " (attributes platform props styles).value, ?_⟩
    simp only [String.append_assoc]

end Markup

section

variable {document : Json} {app : App} (hload : Load.app document = .ok app) (hcheck : app.checkProblems = [])
  (options : Options)

include hload hcheck

/-- The type of an element that refers to a definition stands for this definition. -/
theorem App.component?_refers {e : Node} (he : e ∈ app.definitions) {type : String} (htype : e.head.name = some type) :
    ∃ entry, (app.scope options).table.component? type = some entry ∧
      (app.scope options).naming.nameOf e.head = some entry.identifier := by
  obtain ⟨⟨table, hnames⟩, -, -⟩ := check_nil hcheck
  obtain ⟨entry, hentry⟩ := (Names.component?_isSome hload hnames type).2 ⟨e, he, htype⟩
  have htells := Names.entry_tells hload hnames he htype hentry
  exact ⟨entry, by rw [App.scope_component? hnames, hentry], htells.identifier⟩

/-- A node that refers to a definition starts with the tag of its function. -/
theorem Markup.start_refers (i : Nat) (inherited : Option ResolvedStyle) {n e : Node} (he : e ∈ app.definitions)
    (h : n.RefersTo e) {id : String} (hid : (app.scope options).naming.nameOf e.head = some id) :
    (start (app.scope options) i inherited n).HasTag id := by
  rcases h with rfl | ⟨type, hkind, htype⟩
  · have hdefinition : n.isDefinition = true := by
      rw [App.definitions_eq] at he
      exact (List.mem_filter.1 he).2
    refine .inr ⟨"/>", ?_⟩
    rw [start_text_of_isDefinition inherited hdefinition, Scope.functionName_eq hid]
    simp only [String.append_assoc]
    rfl
  · obtain ⟨entry, hentry, hname⟩ := App.component?_refers hload hcheck options he htype
    obtain rfl := Option.some.inj (hid.symm.trans hname)
    have htag : (tagOf (app.scope options) i type).value = entry.identifier := by
      unfold tagOf
      rw [hentry]
      dsimp only
      split <;> rfl
    unfold start
    rw [hkind]
    dsimp only
    rw [htag]
    exact hasTag_opening _ _ _ _ _

end

/-- In the file of a component, a tag that refers to a definition names the function of the
definition. It is read as an element of the host exactly if the definition's name in the
document starts with a lower-case letter, or that of the component around it if it has no
name. -/
theorem compile_component_tags {document : Json} {options : Options} {output : Output}
    (h : compile document options = .ok output) :
    ∃ app, Load.app document = .ok app ∧ ∀ (i : Nat) (c : Node), app.components[i]? = some c →
      ∃ file block functions, output.files[i]? = some file ∧
        file.contents = ComponentFile.sourceText block functions ∧
        List.Forall₂ (fun d f => Markup.Reads (Markup.pieces (app.scope options) i d) f.markup.toList) c.definitions
          functions ∧
        ∀ d ∈ c.definitions, ∀ p ∈ Markup.pieces (app.scope options) i d, ∀ n, p.node = some n →
          ∀ a ∈ app.components, ∀ e ∈ a.definitions, n.RefersTo e →
            ∃ name id, e.head.name.or a.head.name = some name ∧
              (app.scope options).naming.nameOf e.head = some id ∧ p.HasTag id ∧
              isHostTag id = Text.startsLower name := by
  obtain ⟨app, files, hload, hcheck, hwritten, rfl⟩ := compile_eq_ok h
  refine ⟨app, hload, fun i c hc => ?_⟩
  obtain ⟨file, ho, hfile⟩ := hwritten.artifact hc (app.scope options).contexts
  obtain ⟨-, block, -, hsource⟩ := ComponentFile.ofComponent_eq_ok ho
  have hmem := List.mem_of_getElem? hc
  have hrender := ComponentFile.functions_render hload hcheck options i hmem
  refine ⟨_, block, _, hfile, hsource, hrender.imp fun _ _ hf => hf.reads, fun d hd => ?_⟩
  have hr : ∀ n ∈ d.nodes, Markup.Renderable (app.scope options) i n := fun n hn =>
    App.renderable hload hcheck options i n
      (List.mem_flatMap.2 ⟨c, hmem, Node.nodes_subset (List.mem_of_mem_filter hd) hn⟩)
  refine Markup.pieces_forall ?_ ?_ ?_ (List.mem_filter.1 hd).2 hr
  -- only the starts of nodes carry a node
  · rintro text n ⟨⟩
  · rintro style n ⟨⟩
  · intro inherited m n hn a ha e he hrefers
    obtain rfl := Option.some.inj ((Markup.start_node inherited m).symm.trans hn)
    obtain ⟨⟨table, hnames⟩, -, -⟩ := App.check_nil hcheck
    obtain ⟨name, id, hname, hid, hlower⟩ := Names.nameOf_startsLower hload hnames ha he
    exact ⟨name, id, hname, hid,
      Markup.start_refers hload hcheck options i inherited (List.mem_flatMap.2 ⟨a, ha, he⟩) hrefers hid, hlower⟩

/-- A component that refers to another one, whose name starts with a lower-case letter. -/
def lowerCard : Json :=
  .object [("components", .array
    [.object [("name", .string "App"), ("children", .object [("type", .string "card")])],
      .object [("name", .string "card")]])]

theorem compile_component_tags_lowerCard :
    ∃ output app c p id, compile lowerCard {} = .ok output ∧ Load.app lowerCard = .ok app ∧
      app.components[0]? = some c ∧ p ∈ Markup.pieces (app.scope {}) 0 c ∧ p.HasTag id ∧ isHostTag id = true := by
  have hpiece : ((Load.app lowerCard).toOption.bind fun app => app.components[0]?.bind fun c =>
      app.components[1]?.bind fun e => (Markup.pieces (app.scope {}) 0 c)[0]?.bind fun p => p.node.map fun n =>
        (n.head.kind.same (.element "card"), e.head.name)) = some (true, some "card") := by decide +kernel
  obtain ⟨output, h⟩ : ∃ output, compile lowerCard {} = .ok output := exists_ok_of_isOk (by decide +kernel)
  obtain ⟨app, hload, hfiles⟩ := compile_component_tags h
  simp only [hload, Except.toOption, Option.bind_some, Option.bind_eq_some_iff, Option.map_eq_some_iff,
    Prod.mk.injEq] at hpiece
  obtain ⟨c, hc, e, he, p, hp, n, hn, hkind, hname⟩ := hpiece
  have hrefers : n.RefersTo e := by
    refine .inr ⟨"card", ?_, hname⟩
    cases helement : n.head.kind with
    | element type =>
      rw [helement] at hkind
      rw [eq_of_beq hkind]
    | _ =>
      rw [helement] at hkind
      cases hkind
  have hdefinition : ∀ a ∈ app.components, a ∈ a.definitions := fun a ha =>
    List.mem_filter.2 ⟨List.mem_cons_self, (Load.app_components hload a ha).1⟩
  obtain ⟨-, -, -, -, -, -, htags⟩ := hfiles 0 c hc
  obtain ⟨name, id, hgiven, -, htag, hhost⟩ := htags c (hdefinition c (List.mem_of_getElem? hc)) p
    (List.mem_of_getElem? hp) n hn e (List.mem_of_getElem? he) e (hdefinition e (List.mem_of_getElem? he)) hrefers
  rw [hname] at hgiven
  obtain rfl := Option.some.inj hgiven
  exact ⟨output, app, c, p, id, h, hload, hc, List.mem_of_getElem? hp, htag, hhost⟩

/-- The component is imported and not rendered. -/
theorem lower_card_not_rendered :
    ((compile lowerCard {}).toOption.bind fun output => output.files[0]?.map (·.contents)) =
      some ("import '../styles/global.css';\nimport '../styles/app.scss';\nimport card from './card';\n\n" ++
        "export default function App() \x7b\n  return <card />;\n\x7d\n") ∧
    isHostTag "card" = true := by
  decide +kernel

end ViewTree
