import Mathlib.Data.List.Lex
import ViewTree.Proofs.Load.Nodes

/-!
# Where loaded nodes stand

The nodes right below a node come from the items of `children` and of `else`; each stands at
the path and the position of its item, and the items of `else` are numbered on from those of
`children` (`Node.Placed`). That is a fact about each node alone. What it says of two
siblings holds of everything below them, since addresses only go on from there
(`Node.nodes_ordered`). So positions increase in document order, and no two nodes share one.
-/

namespace ViewTree

/-- The positions of nodes. -/
def positions (ns : List Node) : List (List Nat) := ns.map fun n => n.head.position

@[simp]
theorem positions_append (a b : List Node) : positions (a ++ b) = positions a ++ positions b :=
  List.map_append

@[simp]
theorem positions_cons (n : Node) (ns : List Node) : positions (n :: ns) = n.head.position :: positions ns :=
  rfl

/-! ## Trees in order -/

section
variable {α : Type} {address : Node → List α} {Before : List α → List α → Prop}

/-- All that goes on from the first address comes before all that goes on from the second. -/
def Precedes (Before : List α → List α → Prop) (a b : List α) : Prop :=
  ∀ p q, a <+: p → b <+: q → Before p q

/-- The addresses right below a node go on from its own, and each precedes the next ones. -/
structure Node.OrderedBelow (address : Node → List α) (Before : List α → List α → Prop) (n : Node) : Prop where
  below : ∀ m ∈ n.childNodes, ∃ step, step ≠ [] ∧ address m = address n ++ step
  siblings : n.childNodes.Pairwise fun a b => Precedes Before (address a) (address b)

/-- Trees side by side are in order if each is and their roots precede each other. -/
theorem flatMap_nodes_ordered {ns : List Node}
    (hroots : ns.Pairwise fun a b => Precedes Before (address a) (address b))
    (htrees : ∀ n ∈ ns, (n.nodes.map address).Pairwise Before ∧ ∀ p ∈ n.nodes.map address, address n <+: p) :
    ((ns.flatMap Node.nodes).map address).Pairwise Before := by
  rw [List.map_flatMap, List.pairwise_flatMap]
  refine ⟨fun n hn => (htrees n hn).1, hroots.imp_of_mem ?_⟩
  intro a b ha hb hab p hp q hq
  exact hab p q ((htrees a ha).2 p hp) ((htrees b hb).2 q hq)

/-- What holds of siblings holds of the whole tree: the addresses are in order, and all of
them go on from that of the root. -/
theorem Node.nodes_ordered (hbelow : ∀ p step, step ≠ [] → Before p (p ++ step)) {n : Node}
    (h : ∀ m ∈ n.nodes, m.OrderedBelow address Before) :
    (n.nodes.map address).Pairwise Before ∧ ∀ p ∈ n.nodes.map address, address n <+: p := by
  induction n using below_induction with
  | step n ih =>
    obtain ⟨hstep, hsiblings⟩ := h n (mem_nodes.2 (.inl rfl))
    have htrees : ∀ c ∈ n.childNodes, (c.nodes.map address).Pairwise Before ∧ ∀ p ∈ c.nodes.map address, address c <+: p :=
      fun c hc => ih c hc fun m hm => h m (mem_nodes.2 (.inr ⟨c, hc, hm⟩))
    -- an address below starts with that of a child, which is longer than that of the node
    have hlonger : ∀ p ∈ (n.childNodes.flatMap nodes).map address, ∃ step, step ≠ [] ∧ p = address n ++ step := by
      intro p hp
      obtain ⟨m, hm, rfl⟩ := List.mem_map.1 hp
      obtain ⟨c, hc, hm⟩ := List.mem_flatMap.1 hm
      obtain ⟨step, hne, hc'⟩ := hstep c hc
      obtain ⟨more, hmore⟩ := (htrees c hc).2 _ (List.mem_map_of_mem hm)
      exact ⟨step ++ more, by simp [hne], by rw [← hmore, hc', List.append_assoc]⟩
    rw [nodes_eq, List.map_cons]
    refine ⟨List.pairwise_cons.2 ⟨fun p hp => ?_, flatMap_nodes_ordered hsiblings htrees⟩, fun p hp => ?_⟩
    · obtain ⟨step, hne, rfl⟩ := hlonger p hp
      exact hbelow _ step hne
    · rcases List.mem_cons.1 hp with rfl | hp
      · exact List.prefix_refl _
      · obtain ⟨step, -, rfl⟩ := hlonger p hp
        exact List.prefix_append _ _

end

/-! ## Places -/

/-- Where a node stands: its path and its position. -/
def Node.place (n : Node) : String × List Nat := (n.head.path, n.head.position)

/-- The nodes come from items with numbers from `lo` to before `hi`, each at the place that
its number gives. -/
def PlacedBy (place : Nat → String × List Nat) (lo hi : Nat) (ns : List Node) : Prop :=
  ∃ ks : List Nat, ks.Pairwise (· < ·) ∧ (∀ k ∈ ks, lo ≤ k ∧ k < hi) ∧ ns.map Node.place = ks.map place

/-- The place of an item of a field of the node at a path and a position, when the numbers
of the field start at `offset`. -/
def itemPlace (path key : String) (position : List Nat) (offset i : Nat) : String × List Nat :=
  (Load.item (Load.field path key) i, position ++ [offset + i])

/-- The nodes right below a node are those of its children, then those of what it shows
otherwise, and the numbers of the latter go on from those of the former. -/
def Node.Placed (n : Node) : Prop :=
  ∃ children fallback count more, n.childNodes = children ++ fallback ∧
    PlacedBy (itemPlace n.head.path "children" n.head.position 0) 0 count children ∧
    PlacedBy (itemPlace n.head.path "else" n.head.position count) 0 more fallback

theorem placedBy_nil (place : Nat → String × List Nat) (lo hi : Nat) : PlacedBy place lo hi [] :=
  ⟨[], .nil, by simp, rfl⟩

theorem placedBy_append {place : Nat → String × List Nat} {lo mid hi : Nat} {a b : List Node} (hlm : lo ≤ mid)
    (hmh : mid ≤ hi) (ha : PlacedBy place lo mid a) (hb : PlacedBy place mid hi b) :
    PlacedBy place lo hi (a ++ b) := by
  obtain ⟨ks, hks, hk, ha⟩ := ha
  obtain ⟨ls, hls, hl, hb⟩ := hb
  refine ⟨ks ++ ls, List.pairwise_append.2 ⟨hks, hls, ?_⟩, ?_, ?_⟩
  · intro k hk' l hl'
    have := hk k hk'
    have := hl l hl'
    omega
  · intro k hk'
    rcases List.mem_append.1 hk' with h | h
    · have := hk k h
      omega
    · have := hl k h
      omega
  · rw [List.map_append, ha, hb, List.map_append]

theorem placedBy_singleton {place : Nat → String × List Nat} {n : Node} {k : Nat} (h : n.place = place k) :
    PlacedBy place k (k + 1) [n] :=
  ⟨[k], List.pairwise_singleton _ _, by simp, by simp [h]⟩

section
variable {place : Nat → String × List Nat} {lo hi : Nat} {ns : List Node}

theorem PlacedBy.of_mem (h : PlacedBy place lo hi ns) {n : Node} (hn : n ∈ ns) :
    ∃ k, lo ≤ k ∧ k < hi ∧ n.place = place k := by
  obtain ⟨ks, -, hk, hplaces⟩ := h
  obtain ⟨k, hmem, hplace⟩ := List.mem_map.1 (hplaces ▸ List.mem_map_of_mem hn)
  exact ⟨k, (hk k hmem).1, (hk k hmem).2, hplace.symm⟩

/-- What holds of the places of two items, the first before the second, holds of their
nodes. -/
theorem PlacedBy.pairwise (h : PlacedBy place lo hi ns) {R : String × List Nat → String × List Nat → Prop}
    (hR : ∀ k l, k < l → R (place k) (place l)) : ns.Pairwise fun a b => R a.place b.place := by
  obtain ⟨ks, hks, -, hplaces⟩ := h
  rw [← List.pairwise_map, hplaces, List.pairwise_map]
  exact hks.imp fun {k l} hkl => hR k l hkl

end

/-- What holds of the places of children before each other, of children before what is shown
otherwise, and of the latter before each other, holds of all nodes right below. -/
theorem Node.Placed.pairwise {n : Node} (h : n.Placed) {R : String × List Nat → String × List Nat → Prop}
    (hR : ∀ key offset k l, k < l → R (itemPlace n.head.path key n.head.position offset k)
      (itemPlace n.head.path key n.head.position offset l))
    (hElse : ∀ count k l, k < count → R (itemPlace n.head.path "children" n.head.position 0 k)
      (itemPlace n.head.path "else" n.head.position count l)) :
    n.childNodes.Pairwise fun a b => R a.place b.place := by
  obtain ⟨children, fallback, count, more, hnodes, hchildren, hfallback⟩ := h
  rw [hnodes, List.pairwise_append]
  refine ⟨hchildren.pairwise (hR "children" 0), hfallback.pairwise (hR "else" count), fun a ha b hb => ?_⟩
  obtain ⟨k, -, hk, hplace⟩ := hchildren.of_mem ha
  obtain ⟨l, -, -, hplace'⟩ := hfallback.of_mem hb
  rw [hplace, hplace']
  exact hElse count k l hk

/-- A node right below stands at the place of an item. -/
theorem Node.Placed.child {n m : Node} (h : n.Placed) (hm : m ∈ n.childNodes) :
    ∃ key offset i, m.place = itemPlace n.head.path key n.head.position offset i := by
  obtain ⟨children, fallback, count, more, hnodes, hchildren, hfallback⟩ := h
  rw [hnodes] at hm
  rcases List.mem_append.1 hm with hm | hm
  · obtain ⟨i, -, -, hplace⟩ := hchildren.of_mem hm
    exact ⟨"children", 0, i, hplace⟩
  · obtain ⟨i, -, -, hplace⟩ := hfallback.of_mem hm
    exact ⟨"else", count, i, hplace⟩

/-! ## Order of positions -/

/-- Positions that go on from a smaller number are smaller. -/
theorem precedes_of_lt {parent : List Nat} {k l : Nat} (h : k < l) :
    Precedes (· < ·) (parent ++ [k]) (parent ++ [l]) := by
  rintro p q ⟨x, rfl⟩ ⟨y, rfl⟩
  simp only [List.append_assoc, List.singleton_append]
  exact List.append_left_lt (List.cons_lt_cons_iff.2 (.inl h))

theorem lt_append_step (p : List Nat) {step : List Nat} (h : step ≠ []) : p < p ++ step := by
  cases step with
  | nil => exact absurd rfl h
  | cons k step =>
    nth_rewrite 1 [← List.append_nil p]
    exact List.append_left_lt (List.nil_lt_cons _ _)

theorem Node.Placed.positions_ordered {n : Node} (h : n.Placed) :
    n.OrderedBelow (fun n => n.head.position) (· < ·) where
  below m hm := by
    obtain ⟨key, offset, i, hplace⟩ := h.child hm
    exact ⟨[offset + i], List.cons_ne_nil _ _, congrArg Prod.snd hplace⟩
  siblings := by
    refine h.pairwise (R := fun a b => Precedes (· < ·) a.2 b.2) ?_ ?_
    · intro key offset k l hkl
      exact precedes_of_lt (Nat.add_lt_add_left hkl offset)
    · intro count k l hk
      exact precedes_of_lt (by omega)

/-! ## Loading -/

namespace Load

/-- A node is loaded at the place asked for. -/
theorem content_place {v : Json} {path : String} {position : List Nat} {c : Content} {n : Node}
    (hc : (content v path position).value = some c) (hn : c.node? = some n) : n.place = (path, position) := by
  cases v with
  | object fields =>
    simp only [content, Noted.value_bind, Noted.value_pure, Option.map_eq_some_iff] at hc
    obtain ⟨m, hm, rfl⟩ := hc
    obtain rfl := Option.some.inj hn
    obtain ⟨type, kind, fallback, -, -, rfl, -⟩ := node_eq_some hm
    rfl
  | string text =>
    rw [content] at hc
    have := textContent_nodes text path c hc
    cases c with
    | node head children fallback => simp [Content.nodes] at this
    | _ => simp [Content.node?] at hn
  | array items => simp [content, fail] at hc
  | _ =>
    simp only [content, Noted.value_pure, Option.some.injEq] at hc
    simp [← hc, Content.node?] at hn

theorem content_placed {v : Json} {place : Nat → String × List Nat} {path : String} {position : List Nat} {k : Nat}
    (hplace : place k = (path, position)) :
    PlacedBy place k (k + 1) ((content v path position).value.toList.filterMap Content.node?) := by
  cases hc : (content v path position).value with
  | none => exact placedBy_nil _ _ _
  | some c =>
    cases hn : c.node? with
    | none => simpa [hn] using placedBy_nil place k (k + 1)
    | some n => simpa [hn] using placedBy_singleton ((content_place hc hn).trans hplace.symm)

theorem contentItems_placed (items : List Json) (i : Nat) (path : String) (parent : List Nat) (offset : Nat) :
    PlacedBy (fun k => (item path k, parent ++ [offset + k])) i (i + items.length)
      ((contentItems items i path parent offset).value.filterMap Content.node?) := by
  induction items generalizing i with
  | nil => exact placedBy_nil _ _ _
  | cons v more ih =>
    simp only [contentItems, Noted.value_bind, Noted.value_pure, List.filterMap_append, List.length_cons]
    have hm := ih (i + 1)
    rw [show i + 1 + more.length = i + (more.length + 1) by omega] at hm
    exact placedBy_append (by omega) (by omega) (content_placed rfl) hm

/-- The nodes of a field's content stand at the places of its items, of which there are as
many as `childCount` says. -/
theorem contentOf_placed (fields : Keyed Json) (key path : String) (position : List Nat) (offset : Nat) :
    PlacedBy (itemPlace path key position offset) 0 (childCount (fields.lookup key))
      ((contentOf (contentLoaders fields) key path position offset).value.filterMap Content.node?) := by
  unfold contentOf
  rw [lookup_contentLoaders]
  cases fields.lookup key with
  | none => exact placedBy_nil _ _ _
  | some v =>
    have hone : (∀ items, v ≠ .array items) → PlacedBy (itemPlace path key position offset) 0 1
        ((contentLoader v (field path key) position offset).value.filterMap Content.node?) := by
      intro hv
      rw [contentLoader_single hv]
      exact content_placed rfl
    cases v with
    | array items =>
      have hitems := contentItems_placed items 0 (field path key) position offset
      rwa [Nat.zero_add] at hitems
    | null => exact placedBy_nil _ _ _
    | _ => exact hone (by simp)

theorem built_placed : Built Node.Placed where
  node fields path position n h _ := by
    obtain ⟨type, kind, fallback, -, hk, rfl, -⟩ := node_eq_some h
    have hf := kindOf_fallback type fields (contentLoaders fields) path position
    rw [hk] at hf
    have hfallback : PlacedBy (itemPlace path "else" position (childCount (fields.lookup "children"))) 0
        (childCount (fields.lookup "else")) (fallback.filterMap Content.node?) := by
      rcases hf with hf | ⟨-, hf, -⟩
      · rw [show fallback = [] from hf]
        exact placedBy_nil _ _ _
      · rw [show fallback = _ from hf]
        exact contentOf_placed fields "else" path position _
    exact ⟨_, _, _, _, List.filterMap_append, contentOf_placed fields "children" path position 0, hfallback⟩
  definition fields path position n h _ := by
    rw [definition_value, Option.some.injEq] at h
    subst h
    exact ⟨_, _, _, 0, List.filterMap_append, contentOf_placed fields "children" path position 0, placedBy_nil _ _ _⟩

/-- A component stands at the place of its item. -/
theorem componentItems_places (items : List Json) (i : Nat)
    (hp : (componentItems items i).notes.problems = []) :
    (componentItems items i).value.map Node.place = (List.range' i items.length).map fun k => (componentPath k, [k]) := by
  induction items generalizing i with
  | nil => rfl
  | cons v more ih =>
    simp only [componentItems, Noted.notes_bind, Noted.notes_pure, Log.problems_append, Log.problems_empty,
      List.append_nil, List.append_eq_nil_iff] at hp
    obtain ⟨hv, hm⟩ := hp
    have hd : (definition v (componentPath i) [i]).value.toList.map Node.place = [(componentPath i, [i])] := by
      cases v with
      | object fields => rfl
      | _ => simp [definition, fail, problem] at hv
    simp only [componentItems, Noted.value_bind, Noted.value_pure, List.map_append, hd, ih (i + 1) hm,
      List.length_cons, List.range'_succ, List.map_cons, List.singleton_append]

theorem components_placed {document : Json} {app : App} (h : Load.app document = .ok app) :
    ∃ count, PlacedBy (fun k => (componentPath k, [k])) 0 count app.components := by
  obtain ⟨fields, items, -, -, hp, rfl, -, -⟩ := app_eq_ok h
  refine ⟨items.length, List.range' 0 items.length, List.pairwise_lt_range', ?_, componentItems_places items 0 hp⟩
  intro k hk
  have := List.mem_range'_1.1 hk
  omega

theorem components_positions_nodup {document : Json} {app : App} (h : Load.app document = .ok app) :
    (positions app.components).Nodup := by
  obtain ⟨count, hc⟩ := components_placed h
  refine List.pairwise_map.2 (hc.pairwise (R := fun a b => a.2 ≠ b.2) fun k l hkl heq => ?_)
  exact Nat.ne_of_lt hkl (List.cons.inj heq).1

/-! ## Loaded apps -/

/-- Addresses of a kind are in order throughout a loaded app if they are among components and
among the nodes right below a node. -/
theorem app_ordered {α : Type} {address : Node → List α} {Before : List α → List α → Prop} {document : Json} {app : App}
    (h : Load.app document = .ok app) (hbelow : ∀ p step, step ≠ [] → Before p (p ++ step))
    (hcomponents : app.components.Pairwise fun a b => Precedes Before (address a) (address b))
    (hnodes : ∀ n : Node, n.Placed → n.OrderedBelow address Before) : (app.nodes.map address).Pairwise Before := by
  refine flatMap_nodes_ordered hcomponents fun c hc => Node.nodes_ordered hbelow fun n hn => hnodes n ?_
  exact app_forall built_placed h n (List.mem_flatMap.2 ⟨c, hc, hn⟩)

/-- The positions of a loaded app increase in document order. -/
theorem app_positions {document : Json} {app : App} (h : Load.app document = .ok app) :
    (positions app.nodes).Pairwise (· < ·) := by
  obtain ⟨count, hc⟩ := components_placed h
  refine app_ordered h (fun p step => lt_append_step p) ?_ fun n hn => hn.positions_ordered
  refine hc.pairwise (R := fun a b => Precedes (· < ·) a.2 b.2) fun k l hkl => ?_
  show Precedes (· < ·) ([] ++ [k]) ([] ++ [l])
  exact precedes_of_lt hkl

/-- No two nodes of a loaded app share a position. -/
theorem app_positions_nodup {document : Json} {app : App} (h : Load.app document = .ok app) :
    (positions app.nodes).Nodup := by
  refine (app_positions h).imp ?_
  rintro p _ hlt rfl
  exact lt_irrefl p hlt

end Load

end ViewTree
