import ViewTree.Proofs.Restyle.Files

/-!
# Components are written apart from each other

The file of a component is made from what the whole app shares (`Scope.SharesFor`) and
from the component itself. It does not matter what the other components hold: of these only
the names of their files are looked at.
-/

namespace ViewTree

/-- The file of the component at a place, if there is one. -/
def Scope.componentFile? (s : Scope) (index : Nat) : Option (Except (List Problem) ComponentFile) :=
  (s.app.components[index]?).map (ComponentFile.ofComponent s index)

/-- Two scopes share what is settled for the whole app before the component at a place is
written, and they have the same component there, with the same names and classes on its
nodes. Nothing is said about the other components but how they are called. -/
structure Scope.SharesFor (index : Nat) (s s' : Scope) : Prop where
  platform : s'.platform = s.platform
  options : s'.options = s.options
  contexts : s'.contexts = s.contexts
  component? : ∀ type, s'.table.component? type = s.table.component? type
  imports : s'.app.imports = s.app.imports
  styleFormats : s'.app.styleFormats = s.app.styleFormats
  names : ∀ i : Nat, (s'.app.components[i]?).map (fun c => s'.functionName c.head) =
    (s.app.components[i]?).map fun c => s.functionName c.head
  root : index = s'.app.rootIndex ↔ index = s.app.rootIndex
  component : s'.app.components[index]? = s.app.components[index]?
  assigned : ∀ c, s.app.components[index]? = some c → ∀ n ∈ c.nodes,
    s'.naming.nameOf n.head = s.naming.nameOf n.head ∧ s'.naming.classOf n.head = s.naming.classOf n.head

namespace Scope.SharesFor

variable {s s' : Scope} {index : Nat}

theorem fileName (h : Scope.SharesFor index s s') (owner : Nat) : s'.fileName owner = s.fileName owner := by
  have hname := h.names owner
  unfold Scope.fileName
  cases hs' : s'.app.components[owner]? <;> cases hs : s.app.components[owner]? <;> simp_all

theorem alike (h : Scope.SharesFor index s s') : Scope.Alike s s' :=
  ⟨h.platform, h.options, h.contexts, h.component?, h.fileName⟩

/-- Each node of the component has the same name and the same resolved style. -/
theorem shows (h : Scope.SharesFor index s s') {c : Node} (hc : s.app.components[index]? = some c) {n : Node}
    (hn : n ∈ c.nodes) : Scope.Shows id s s' n.head := by
  obtain ⟨hname, hclass⟩ := h.assigned c hc n hn
  refine ⟨hname, ?_⟩
  unfold Style.resolve
  rw [h.platform, h.styleFormats, show s'.naming.classOf (n.head.restyle id) = s.naming.classOf n.head from hclass]
  rfl

end Scope.SharesFor

/-- A component is written in the same way in scopes that share what it can see, whatever
the other components hold. -/
theorem componentFile_isolated {s s' : Scope} {index : Nat} (h : Scope.SharesFor index s s') :
    s'.componentFile? index = s.componentFile? index := by
  unfold Scope.componentFile?
  rw [h.component]
  cases hc : s.app.components[index]? with
  | none => rfl
  | some c =>
    have hfile := ComponentFile.ofComponent_alike h.alike index (fun n hn => h.shows hc hn) h.imports h.root
    rw [Node.restyle_id] at hfile
    rw [Option.map_some, Option.map_some, hfile]

/-- A page that shows a card, with a style of its own for it. -/
def cardPage : Node :=
  ⟨{ kind := .component none, path := "components[0]", position := [0], name := some "Page" },
    [.node { kind := .element "Card", path := "components[0].children[0]", position := [0, 0],
             style := [.text "color: red"] } [] []], []⟩

/-- An app of the page and a card with the given data and content. -/
def cardApp (card : Head) (children : List Content) : App := { components := [cardPage, ⟨card, children, []⟩] }

/-- The card without anything in it. -/
def bareCard : Head := { kind := .component none, path := "components[1]", position := [1], name := some "Card" }

/-- The card with a statement, an import and a style, around an element with a class. -/
def richApp : App :=
  cardApp
    { bareCard with
      expressions := [.state "open" "setOpen" none], imports := [Import.ofDefault "./x" "x"],
      style := [.text "gap: 0"] }
    [.node { kind := .element "p", path := "components[1].children[0]", position := [1, 0],
             style := [.text "margin: 0"] } [] []]

theorem componentFile_isolated_cards :
    Scope.SharesFor 0 ((cardApp bareCard []).scope {}) (richApp.scope {}) ∧
      (richApp.scope {}).componentFile? 0 = ((cardApp bareCard []).scope {}).componentFile? 0 ∧
      (((cardApp bareCard []).scope {}).componentFile? 0).any Except.isOk = true := by
  have htable : (richApp.scope {}).table = ((cardApp bareCard []).scope {}).table := by decide +kernel
  have hshares : Scope.SharesFor 0 ((cardApp bareCard []).scope {}) (richApp.scope {}) := by
    refine ⟨rfl, rfl, by decide +kernel, fun type => by rw [htable], rfl, rfl, ?_, Iff.rfl, rfl, ?_⟩
    · intro i
      match i with
      | 0 => decide +kernel
      | 1 => decide +kernel
      | i + 2 =>
        have hbare : ((cardApp bareCard []).scope {}).app.components[i + 2]? = none := rfl
        have hrich : (richApp.scope {}).app.components[i + 2]? = none := rfl
        rw [hbare, hrich, Option.map_none, Option.map_none]
    · rintro c hc n hn
      obtain rfl : cardPage = c := Option.some.inj hc
      simp only [cardPage, Node.nodes, Node.toContent, Content.nodes, contentNodes, List.append_nil, List.mem_cons,
        List.not_mem_nil, or_false] at hn
      rcases hn with rfl | rfl
      · decide +kernel
      · decide +kernel
  exact ⟨hshares, componentFile_isolated hshares, by decide +kernel⟩

end ViewTree
