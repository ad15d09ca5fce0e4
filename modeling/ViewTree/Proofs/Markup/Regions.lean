import Mathlib.Data.List.Perm.Basic
import ViewTree.Proofs.Component.Functions
import ViewTree.Proofs.Load.Nodes

/-!
# The nodes that belong to a definition

The region of a definition is made of the nodes below it whose nearest definition above it
is: the inner definitions themselves, but nothing below them (`Node.region`). The
component itself apart, every node of a component is in the region of exactly one of its
definitions (`Node.nodes_perm_regions`).

What is shown of a region leaves out what stands below a script (`Node.shown`); what is
left out is the regions of the scripts that are shown (`Node.region_perm`). All of them
keep the order of the document.
-/

namespace ViewTree

/-- Whether the node is a script. -/
def Head.isScript (h : Head) : Bool :=
  match h.kind with
  | .script _ => true
  | _ => false

/-! ## Regions -/

mutual

/-- The nodes of a piece of content, down to the definitions inside it. -/
def Content.region : Content → List Node
  | .node head children fallback =>
    ⟨head, children, fallback⟩ ::
      if head.isDefinition then [] else contentRegion children ++ contentRegion fallback
  | .text _ => []
  | .literal _ => []
  | .script _ => []

@[inherit_doc Content.region]
def contentRegion : List Content → List Node
  | [] => []
  | c :: rest => c.region ++ contentRegion rest

end

mutual

/-- The nodes of a piece of content down to the definitions inside it, without those below
a script. -/
def Content.shown : Content → List Node
  | .node head children fallback =>
    ⟨head, children, fallback⟩ ::
      if head.isDefinition || head.isScript then [] else contentShown children ++ contentShown fallback
  | .text _ => []
  | .literal _ => []
  | .script _ => []

@[inherit_doc Content.shown]
def contentShown : List Content → List Node
  | [] => []
  | c :: rest => c.shown ++ contentShown rest

end

namespace Node

/-- The nodes below a definition that have no other definition between. -/
def region (n : Node) : List Node := contentRegion n.children ++ contentRegion n.fallback

/-- The nodes of a definition's region that are not below a script of the region. -/
def shown (n : Node) : List Node := contentShown n.children ++ contentShown n.fallback

/-- What is not shown because the node is a script. -/
def hidden (n : Node) : List Node := if n.head.isScript then n.region else []

end Node

/-! ## Every node is in one region -/

/-- Two lists that are split alike, part by part. -/
theorem perm_parts {α : Type} {xs ys a b c d : List α} (hx : xs.Perm (a ++ b)) (hy : ys.Perm (c ++ d)) :
    (xs ++ ys).Perm (a ++ c ++ (b ++ d)) := by
  refine (hx.append hy).trans ?_
  simp only [List.append_assoc]
  exact (List.perm_append_comm_assoc b c d).append_left a

mutual

theorem Content.nodes_perm : ∀ c : Content,
    c.nodes.Perm (c.region ++ (c.nodes.filter Node.isDefinition).flatMap Node.region)
  | .text _ => .nil
  | .literal _ => .nil
  | .script _ => .nil
  | .node head children fallback => by
    have hbelow := perm_parts (contentNodes_perm children) (contentNodes_perm fallback)
    rw [← List.flatMap_append, ← List.filter_append] at hbelow
    rw [Content.nodes, Content.region, List.filter_cons, Node.isDefinition]
    -- A definition passes what is below it on to its own region.
    cases hd : head.isDefinition with
    | true => exact hbelow.cons _
    | false => exact hbelow.cons _

theorem contentNodes_perm : ∀ cs : List Content,
    (contentNodes cs).Perm (contentRegion cs ++ ((contentNodes cs).filter Node.isDefinition).flatMap Node.region)
  | [] => .nil
  | c :: cs => by
    have h := perm_parts c.nodes_perm (contentNodes_perm cs)
    rw [← List.flatMap_append, ← List.filter_append] at h
    exact h

end

/-- Every node of a component other than itself is in the region of one of its definitions,
and in no other. -/
theorem Node.nodes_perm_regions {c : Node} (h : c.isDefinition = true) :
    c.nodes.Perm (c :: c.definitions.flatMap Node.region) := by
  have hperm := c.toContent.nodes_perm
  have hregion : c.toContent.region = [c] := by
    unfold isDefinition at h
    rw [toContent, Content.region, if_pos h]
  rw [hregion] at hperm
  exact hperm

/-! ## What is shown -/

mutual

theorem Content.region_perm : ∀ c : Content, c.region.Perm (c.shown ++ c.shown.flatMap Node.hidden)
  | .text _ => .nil
  | .literal _ => .nil
  | .script _ => .nil
  | .node head children fallback => by
    rw [Content.region, Content.shown, List.cons_append, List.flatMap_cons]
    refine .cons _ ?_
    cases hd : head.isDefinition with
    | true =>
      have hs : head.isScript = false := by
        unfold Head.isDefinition at hd
        unfold Head.isScript
        split at hd
        · rename_i hk
          rw [hk]
        · cases hd
      simp [Node.hidden, hs]
    | false =>
      cases hs : head.isScript with
      | true => simp [Node.hidden, hs, Node.region]
      | false =>
        have hbelow := perm_parts (contentRegion_perm children) (contentRegion_perm fallback)
        rw [← List.flatMap_append] at hbelow
        simpa [Node.hidden, hs] using hbelow

theorem contentRegion_perm : ∀ cs : List Content,
    (contentRegion cs).Perm (contentShown cs ++ (contentShown cs).flatMap Node.hidden)
  | [] => .nil
  | c :: cs => by
    have h := perm_parts c.region_perm (contentRegion_perm cs)
    rw [← List.flatMap_append] at h
    exact h

end

/-- What is not shown of a region is the regions of the scripts that are shown. -/
theorem Node.region_perm (n : Node) : n.region.Perm (n.shown ++ n.shown.flatMap hidden) := by
  have h := perm_parts (contentRegion_perm n.children) (contentRegion_perm n.fallback)
  rw [← List.flatMap_append] at h
  exact h

/-! ## The order of the document -/

mutual

theorem Content.shown_sublist : ∀ c : Content, c.shown.Sublist c.region
  | .text _ => .slnil
  | .literal _ => .slnil
  | .script _ => .slnil
  | .node head children fallback => by
    rw [Content.shown, Content.region]
    refine .cons_cons _ ?_
    cases head.isDefinition with
    | true => exact .slnil
    | false =>
      cases head.isScript with
      | true => exact List.nil_sublist _
      | false => exact (contentShown_sublist children).append (contentShown_sublist fallback)

theorem contentShown_sublist : ∀ cs : List Content, (contentShown cs).Sublist (contentRegion cs)
  | [] => .slnil
  | c :: cs => c.shown_sublist.append (contentShown_sublist cs)

end

mutual

theorem Content.region_sublist : ∀ c : Content, c.region.Sublist c.nodes
  | .text _ => .slnil
  | .literal _ => .slnil
  | .script _ => .slnil
  | .node head children fallback => by
    rw [Content.region, Content.nodes]
    refine .cons_cons _ ?_
    cases head.isDefinition with
    | true => exact List.nil_sublist _
    | false => exact (contentRegion_sublist children).append (contentRegion_sublist fallback)

theorem contentRegion_sublist : ∀ cs : List Content, (contentRegion cs).Sublist (contentNodes cs)
  | [] => .slnil
  | c :: cs => c.region_sublist.append (contentRegion_sublist cs)

end

namespace Node

theorem shown_sublist (n : Node) : n.shown.Sublist n.region :=
  (contentShown_sublist n.children).append (contentShown_sublist n.fallback)

/-- A region keeps the order in which its nodes stand in the component. -/
theorem region_sublist {c d : Node} (h : d ∈ c.nodes) : d.region.Sublist c.nodes := by
  have hbelow : d.region.Sublist d.nodes :=
    ((contentRegion_sublist d.children).append (contentRegion_sublist d.fallback)).cons d
  exact hbelow.trans (nodes_sublist h)

/-- A region is shown as a whole exactly if its scripts have no nodes below them. -/
theorem shown_eq_region_iff {n : Node} :
    n.shown = n.region ↔ ∀ m ∈ n.region, m.head.isScript = true → m.region = [] := by
  have hlength := n.region_perm.length_eq
  rw [List.length_append] at hlength
  constructor
  · intro h m hm hs
    have hhidden : n.shown.flatMap hidden = [] := by
      rw [h] at hlength
      exact List.length_eq_zero_iff.1 (by rw [h]; omega)
    have hnone := List.flatMap_eq_nil_iff.1 hhidden m (h ▸ hm)
    rwa [hidden, if_pos hs] at hnone
  · intro h
    have hhidden : n.shown.flatMap hidden = [] := by
      rw [List.flatMap_eq_nil_iff]
      intro m hm
      unfold hidden
      split
      · exact h m (n.shown_sublist.subset hm) (by assumption)
      · rfl
    refine n.shown_sublist.eq_of_length ?_
    rw [hlength, hhidden, List.length_nil, Nat.add_zero]

end Node

end ViewTree
