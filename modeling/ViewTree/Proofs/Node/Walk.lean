import Mathlib.Data.List.Basic
import ViewTree.Node

/-!
# The walk through a tree

`Node.nodes` is a node followed by the walks through the nodes right below it
(`Node.nodes_eq`). So what a node has because the nodes right below it have it, every node
has (`Node.below_induction`), and what passes on from each node to those right below it
passes on to all below it (`Node.nodes_forall`). The walk through an inner node is a part of
the walk through the whole tree (`Node.isInfix_nodes`).
-/

namespace ViewTree

theorem contentNodes_eq_flatMap (cs : List Content) : contentNodes cs = cs.flatMap Content.nodes := by
  induction cs with
  | nil => rfl
  | cons c cs ih => rw [contentNodes, ih, List.flatMap_cons]

theorem Content.node?_eq_some {c : Content} {n : Node} (h : c.node? = some n) : c = n.toContent := by
  cases c with
  | node head children fallback =>
    obtain rfl := Option.some.inj h
    rfl
  | _ => cases h

theorem Content.nodes_of_node?_none {c : Content} (h : c.node? = none) : c.nodes = [] := by
  cases c with
  | node head children fallback => cases h
  | _ => rw [Content.nodes]

/-- Only what is a node has nodes. -/
theorem contentNodes_eq (cs : List Content) : contentNodes cs = (cs.filterMap Content.node?).flatMap Node.nodes := by
  induction cs with
  | nil => rfl
  | cons c cs ih =>
    rw [contentNodes, ih]
    cases hn : c.node? with
    | none => rw [Content.nodes_of_node?_none hn, List.filterMap_cons_none hn, List.nil_append]
    | some n =>
      rw [List.filterMap_cons_some hn, List.flatMap_cons, Content.node?_eq_some hn]
      rfl

namespace Node

theorem nodes_eq (n : Node) : n.nodes = n :: n.childNodes.flatMap nodes := by
  rw [nodes, toContent, Content.nodes, contentNodes_eq, contentNodes_eq, ← List.flatMap_append,
    ← List.filterMap_append]
  rfl

theorem mem_childNodes {n m : Node} : m ∈ n.childNodes ↔ m.toContent ∈ n.children ++ n.fallback := by
  rw [childNodes, List.mem_filterMap]
  constructor
  · rintro ⟨c, hc, hm⟩
    rwa [Content.node?_eq_some hm] at hc
  · exact fun hm => ⟨m.toContent, hm, rfl⟩

theorem mem_nodes {n m : Node} : m ∈ n.nodes ↔ m = n ∨ ∃ c ∈ n.childNodes, m ∈ c.nodes := by
  rw [nodes_eq, List.mem_cons, List.mem_flatMap]

theorem childNodes_subset (n : Node) : n.childNodes ⊆ n.nodes :=
  fun m hm => mem_nodes.2 (.inr ⟨m, hm, mem_nodes.2 (.inl rfl)⟩)

end Node

section
variable {P : Node → Prop}

-- The recursion is that of trees: a node's content is taken apart before its own turn.
mutual

theorem Content.below_induction (step : ∀ n : Node, (∀ m ∈ n.childNodes, P m) → P n) :
    ∀ (c : Content) (n : Node), c.node? = some n → P n
  | .text _ => by simp [Content.node?]
  | .literal _ => by simp [Content.node?]
  | .script _ => by simp [Content.node?]
  | .node head children fallback => by
    intro n hn
    obtain rfl := Option.some.inj hn
    refine step _ fun m hm => ?_
    obtain ⟨c, hc, hcm⟩ := List.mem_filterMap.1 hm
    rcases List.mem_append.1 hc with hc | hc
    · exact contents_below_induction step children c hc m hcm
    · exact contents_below_induction step fallback c hc m hcm

theorem contents_below_induction (step : ∀ n : Node, (∀ m ∈ n.childNodes, P m) → P n) :
    ∀ (cs : List Content), ∀ c ∈ cs, ∀ n : Node, c.node? = some n → P n
  | [] => by simp
  | c :: cs => by
    have hfirst := c.below_induction step
    have hrest := contents_below_induction step cs
    intro d hd
    rcases List.mem_cons.1 hd with rfl | hd
    · exact hfirst
    · exact hrest d hd

end

namespace Node

/-- What a node has because the nodes right below it have it, every node has. -/
theorem below_induction (step : ∀ n : Node, (∀ m ∈ n.childNodes, P m) → P n) (n : Node) : P n :=
  n.toContent.below_induction step n rfl

/-- What passes on from each node to those right below it passes on to all below it. -/
theorem nodes_forall (step : ∀ n, P n → ∀ m ∈ n.childNodes, P m) {n : Node} (h : P n) : ∀ m ∈ n.nodes, P m := by
  induction n using below_induction with
  | step n ih =>
    intro m hm
    rcases mem_nodes.1 hm with rfl | ⟨c, hc, hm⟩
    · exact h
    · exact ih c hc (step n h c hc) m hm

/-- A node of a tree is its root or stands right below a node of it. -/
theorem exists_parent {n m : Node} (h : m ∈ n.nodes) : m = n ∨ ∃ parent ∈ n.nodes, m ∈ parent.childNodes := by
  induction n using below_induction with
  | step n ih =>
    rcases mem_nodes.1 h with rfl | ⟨c, hc, hm⟩
    · exact .inl rfl
    · right
      rcases ih c hc hm with rfl | ⟨parent, hparent, hm⟩
      · exact ⟨n, mem_nodes.2 (.inl rfl), hc⟩
      · exact ⟨parent, mem_nodes.2 (.inr ⟨c, hc, hparent⟩), hm⟩

/-- The nodes below a node of a tree are a part of the tree, in the same order and with
nothing between. -/
theorem isInfix_nodes {n d : Node} (h : d ∈ n.nodes) : d.nodes <:+: n.nodes := by
  induction n using below_induction with
  | step n ih =>
    rcases mem_nodes.1 h with rfl | ⟨c, hc, hd⟩
    · exact List.infix_rfl
    · rw [nodes_eq n]
      exact List.infix_cons ((ih c hc hd).trans (List.infix_flatMap_of_mem hc nodes))

theorem nodes_sublist {n d : Node} (h : d ∈ n.nodes) : d.nodes.Sublist n.nodes := (isInfix_nodes h).sublist

theorem nodes_subset {n d : Node} (h : d ∈ n.nodes) : d.nodes ⊆ n.nodes := (nodes_sublist h).subset

end Node

end

end ViewTree
