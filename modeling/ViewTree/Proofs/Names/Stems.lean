import Mathlib.Data.List.Pairwise
import ViewTree.Proofs.Markup.Regions
import ViewTree.Proofs.Names.Table

/-!
# The names that classes start with

The third round is one walk through the nodes of the app in document order
(`Names.classNames_eq`) that remembers the definition it passed last, and the class of a
node without a name of its own starts with the name of that definition. `resolve_stems`
says when this is the definition that the node stands in (`Node.own`): exactly if no inner
definition of it comes before the node.
-/

namespace ViewTree

/-- The definition among the nodes that comes last. -/
def lastDefinition (ns : List Node) : Option Node := (ns.filter Node.isDefinition).getLast?

theorem lastDefinition_append (ns : List Node) (n : Node) :
    lastDefinition (ns ++ [n]) = if n.isDefinition then some n else lastDefinition ns := by
  unfold lastDefinition
  rw [List.filter_append]
  split
  next h =>
    rw [List.filter_cons_of_pos h, List.filter_nil, List.getLast?_append, List.getLast?_singleton, Option.some_or]
  next h => rw [List.filter_cons_of_neg h, List.filter_nil, List.append_nil]

theorem lastDefinition_append_right (ms : List Node) {ns : List Node} {d : Node} (hd : d ∈ ns)
    (hdefinition : d.isDefinition = true) : lastDefinition (ms ++ ns) = lastDefinition ns := by
  have hne : ns.filter Node.isDefinition ≠ [] := List.ne_nil_of_mem (List.mem_filter.2 ⟨hd, hdefinition⟩)
  unfold lastDefinition
  rw [List.filter_append, List.getLast?_append_of_ne_nil _ hne]

/-- After a definition it is that one exactly if there is no other. -/
theorem lastDefinition_cons {d : Node} {ns : List Node} (hdefinition : d.isDefinition = true) (hnew : d ∉ ns) :
    ∃ e, lastDefinition (d :: ns) = some e ∧ (e = d ↔ ∀ m ∈ ns, m.isDefinition = false) := by
  unfold lastDefinition
  rw [List.filter_cons_of_pos hdefinition, List.getLast?_cons]
  refine ⟨_, rfl, ?_⟩
  cases hlast : (ns.filter Node.isDefinition).getLast? with
  | none => simpa [List.filter_eq_nil_iff] using List.getLast?_eq_none_iff.1 hlast
  | some e =>
    obtain ⟨hmem, he⟩ := List.mem_filter.1 (List.mem_of_getLast? hlast)
    refine ⟨fun heq => absurd (heq ▸ hmem) hnew, fun hnone => ?_⟩
    rw [hnone e hmem] at he
    cases he

/-! ## The definition that a node stands in -/

/-- The nodes that stand in a definition: itself, and the nodes of its region that are no
definitions. -/
def Node.own (d : Node) : List Node := d :: d.region.filter fun n => !n.isDefinition

/-- Where a node stands in a definition, and which definition comes last up to it. -/
theorem Node.own_split {d n : Node} (hdefinition : d.isDefinition = true) (hnodup : d.nodes.Nodup) (hn : n ∈ d.own) :
    ∃ before after e, d.nodes = before ++ n :: after ∧ d ∈ before ++ [n] ∧ lastDefinition (before ++ [n]) = some e ∧
      (e = d ↔ ∀ m ∈ before, m.isDefinition = true → m = d) := by
  obtain ⟨below, hbelow⟩ : ∃ below, d.nodes = d :: below := ⟨_, rfl⟩
  rw [hbelow] at hnodup ⊢
  obtain ⟨hnew, hnodup⟩ := List.nodup_cons.1 hnodup
  rcases List.mem_cons.1 hn with rfl | hn
  · exact ⟨[], below, n, rfl, by simp, by simp [lastDefinition, hdefinition], by simp⟩
  · obtain ⟨hregion, hnot⟩ := List.mem_filter.1 hn
    rw [Bool.not_eq_true'] at hnot
    have hmem : n ∈ d :: below := hbelow ▸ (region_sublist (c := d) List.mem_cons_self).subset hregion
    have hne : n ≠ d := fun h => by rw [h, hdefinition] at hnot; cases hnot
    obtain ⟨before, after, rfl⟩ := List.append_of_mem ((List.mem_cons.1 hmem).resolve_left hne)
    have hbefore : d ∉ before := fun h => hnew (List.mem_append_left _ h)
    obtain ⟨e, hlast, he⟩ := lastDefinition_cons hdefinition hbefore
    refine ⟨d :: before, after, e, rfl, by simp, ?_, ?_⟩
    · rw [lastDefinition_append, hnot]
      exact hlast
    · rw [he]
      refine ⟨fun h m hm hm' => ?_, fun h m hm => ?_⟩
      · rcases List.mem_cons.1 hm with rfl | hm
        · rfl
        · rw [h m hm] at hm'
          cases hm'
      · exact Bool.eq_false_iff.2 fun hm' => hbefore (h m (List.mem_cons_of_mem d hm) hm' ▸ hm)

/-- Every node of a component stands in exactly one of its definitions. -/
theorem Node.nodes_perm_own {c : Node} (h : c.isDefinition = true) : c.nodes.Perm (c.definitions.flatMap own) := by
  have hothers : (c.nodes.filter fun n => !n.isDefinition).Perm
      (c.definitions.flatMap fun d => d.region.filter fun n => !n.isDefinition) := by
    have hfiltered := (nodes_perm_regions h).filter fun n => !n.isDefinition
    rwa [List.filter_cons_of_neg (by simp [h]), List.filter_flatMap] at hfiltered
  have hown := List.flatMap_append_perm c.definitions (fun d => [d]) fun d => d.region.filter fun n => !n.isDefinition
  rw [List.flatMap_singleton'] at hown
  exact (List.filter_append_perm isDefinition c.nodes).symm.trans ((hothers.append_left _).trans hown)

/-- Every node of an app stands in exactly one of its definitions. -/
theorem App.exists_own {document : Json} {app : App} (hload : Load.app document = .ok app) {n : Node}
    (hn : n ∈ app.nodes) :
    ∃ d ∈ app.definitions, n ∈ d.own ∧ ∀ d' ∈ app.definitions, n ∈ d'.own → d' = d := by
  have hperm : app.nodes.Perm (app.definitions.flatMap Node.own) := by
    unfold nodes definitions
    rw [List.flatMap_assoc]
    exact List.Perm.flatMap_left _ fun c hc => Node.nodes_perm_own (Load.app_components hload c hc).1
  have hnodup := (hperm.nodup_iff.1 (Load.app_positions_nodup hload).of_map)
  obtain ⟨d, hd, hnd⟩ := List.mem_flatMap.1 (hperm.subset hn)
  refine ⟨d, hd, hnd, fun d' hd' hnd' => ?_⟩
  by_contra hne
  have hsymm : Std.Symm (Function.onFun List.Disjoint Node.own) := ⟨fun _ _ h _ hy hx => h hx hy⟩
  exact (List.nodup_flatMap.1 hnodup).2.forall hd' hd hne hnd' hnd

/-- The walk has passed a definition at every node, since it starts with a component. -/
theorem App.exists_lastDefinition {document : Json} {app : App} (hload : Load.app document = .ok app)
    {before after : List Node} {n : Node} (hsplit : app.nodes = before ++ n :: after) :
    ∃ e, lastDefinition (before ++ [n]) = some e := by
  cases hcomponents : app.components with
  | nil => simp [nodes, hcomponents] at hsplit
  | cons c cs =>
    have hdefinition := (Load.app_components hload c (by rw [hcomponents]; exact List.mem_cons_self)).1
    have hfirst : app.nodes.head? = some c := by
      rw [nodes, hcomponents]
      rfl
    rw [hsplit, List.append_cons, List.head?_append_of_ne_nil _ (by simp)] at hfirst
    have hmem := List.mem_filter.2 ⟨List.mem_of_mem_head? hfirst, hdefinition⟩
    exact Option.isSome_iff_exists.1 (List.getLast?_isSome.2 (List.ne_nil_of_mem hmem))

/-! ## The walk through the nodes -/

namespace Names

/-- At a definition with a name it does not matter which one was passed before. -/
theorem classNode_owner_irrelevant {s : Classing} {c : Node} (hc : c.isDefinition = true)
    (hname : (s.naming.nameOf c.head).isSome = true) (owner : String) : classNode { s with owner } c = classNode s c := by
  obtain ⟨name, hname⟩ := Option.isSome_iff_exists.1 hname
  unfold Node.isDefinition at hc
  unfold classNode
  simp only [hc, if_true, hname, Option.getD_some]

/-- The third round is one walk through all nodes, where the components are named. -/
theorem classNames_eq {app : App} {naming : Naming}
    (h : ∀ c ∈ app.components, c.isDefinition = true ∧ (naming.nameOf c.head).isSome = true) :
    classNames app naming = (app.nodes.foldl classNode { naming }).naming := by
  have main : ∀ (cs : List Node) (s : Classing), s.naming.names = naming.names →
      (∀ c ∈ cs, c.isDefinition = true ∧ (naming.nameOf c.head).isSome = true) →
      cs.foldl classComponent s = (cs.flatMap Node.nodes).foldl classNode s := by
    intro cs
    induction cs with
    | nil => intros; rfl
    | cons c cs ih =>
      intro s hs hcs
      obtain ⟨hc, hname⟩ := hcs c List.mem_cons_self
      have hcomponent : classComponent s c = c.nodes.foldl classNode s := by
        unfold Naming.nameOf at hname
        rw [← hs] at hname
        unfold classComponent
        rw [show c.nodes = c :: c.nodes.drop 1 from rfl, List.foldl_cons, List.foldl_cons,
          classNode_owner_irrelevant hc hname]
      have hnames : (c.nodes.foldl classNode s).naming.names = naming.names :=
        List.foldlRecOn (motive := fun t : Classing => t.naming.names = naming.names) _ _ hs
          fun t ht n _ => (classNode_names t n).trans ht
      rw [List.foldl_cons, List.flatMap_cons, List.foldl_append, hcomponent]
      exact ih _ hnames fun d hd => hcs d (List.mem_cons_of_mem c hd)
  unfold classNames App.nodes
  rw [main _ _ rfl h]

/-- The state of the walk after some nodes: classes only for these, and the name of the
definition among them that comes last. -/
structure Walked (given : Assigned) (done : List Node) (s : Classing) : Prop where
  names : s.naming.names = given
  separator : s.registry.separator = "-"
  classed : ∀ p ∈ s.naming.classes.map Prod.fst, p ∈ positions done
  owner : ∀ e, lastDefinition done = some e → given.lookup e.head.position = some s.owner

/-- The definition that is passed last gives its name, if it has one. -/
theorem classNode_owner (s : Classing) (n : Node) :
    (classNode s n).owner = if n.isDefinition then (s.naming.nameOf n.head).getD s.owner else s.owner := by
  unfold classNode Node.isDefinition
  dsimp only
  split
  · rfl
  · rfl

/-- A node with style that can land in a stylesheet claims a class that starts with its
stem. -/
theorem classNode_claims (s : Classing) {n : Node} (h : n.head.hasStaticStyle = true) :
    (classNode s n).naming = s.naming.giveClass n.head
      (s.registry.pick (classStem n.head (classNode s n).owner ++ "-" ++ pathDigits n.head.path)) := by
  unfold classNode
  dsimp only
  rw [if_pos h]
  rfl

theorem classNode_separator (s : Classing) (n : Node) : (classNode s n).registry.separator = s.registry.separator := by
  obtain ⟨-, hr, -⟩ | ⟨-, base, hr, -⟩ := classNode_cases s n
  · rw [hr]
  · rw [hr]
    rfl

theorem Walked.step {given : Assigned} {done : List Node} {s : Classing} (h : Walked given done s) {n : Node}
    (hname : n.isDefinition = true → (given.lookup n.head.position).isSome = true) :
    Walked given (done ++ [n]) (classNode s n) where
  names := (classNode_names s n).trans h.names
  separator := (classNode_separator s n).trans h.separator
  classed := by
    rw [positions_append]
    obtain ⟨-, -, hm⟩ | ⟨-, base, -, hm⟩ := classNode_cases s n
    · rw [hm]
      exact fun p hp => List.mem_append_left _ (h.classed p hp)
    · rw [hm]
      intro p hp
      rcases Assigned.keys_give p hp with hp | rfl
      · exact List.mem_append_left _ (h.classed p hp)
      · exact List.mem_append_right _ List.mem_cons_self
  owner := by
    intro e he
    rw [lastDefinition_append] at he
    rw [classNode_owner]
    split at he
    next hn =>
      obtain rfl := Option.some.inj he
      obtain ⟨name, hname⟩ := Option.isSome_iff_exists.1 (hname hn)
      rw [if_pos hn, Naming.nameOf, h.names, hname]
      rfl
    next hn =>
      rw [if_neg hn]
      exact h.owner e he

theorem Walked.run {given : Assigned} {ns : List Node} {s : Classing} (h : Walked given [] s)
    (hname : ∀ n ∈ ns, n.isDefinition = true → (given.lookup n.head.position).isSome = true) :
    Walked given ns (ns.foldl classNode s) := by
  refine foldl_keeps h fun done n todo t hsplit ht => ht.step (hname n ?_)
  rw [hsplit]
  exact List.mem_append_right _ List.mem_cons_self

/-- A node that the walk has not come to has no class yet. -/
theorem Walked.unclassed {given : Assigned} {before after : List Node} {n : Node} {s : Classing}
    (h : Walked given before s) (hpositions : (positions (before ++ n :: after)).Nodup) :
    s.naming.classes.lookup n.head.position = none := by
  rw [positions_append, positions_cons, List.nodup_middle, List.nodup_cons, List.mem_append] at hpositions
  exact Assigned.lookup_eq_none fun hp => hpositions.1 (.inl (h.classed _ hp))

/-! ## Classes -/

section

variable {document : Json} {app : App} (hload : Load.app document = .ok app) {table : NameTable}
  (hnames : (resolve app {}).outcome = .ok table)

include hload hnames

theorem isSome_nameOf {d : Node} (hd : d ∈ app.nodes) (hdefinition : d.isDefinition = true) :
    ((resolve app {}).naming.nameOf d.head).isSome = true := by
  refine resolve_named hnames (fun c hc => (Load.app_components hload c hc).2) d ?_
  rw [App.definitions_eq]
  exact List.mem_filter.2 ⟨hd, hdefinition⟩

/-- The classes of an app come from one walk, which starts with all names and no class. -/
theorem resolve_walk :
    ∃ named : Naming, named.names = (resolve app {}).naming.names ∧ named.classes = [] ∧
      (resolve app {}).naming = (app.nodes.foldl classNode { naming := named }).naming := by
  obtain ⟨named, s, -, hgiven, hclassed, hr, hclassNames⟩ := resolve_rounds hnames
  have hsame : named.names = (resolve app {}).naming.names := by rw [hr, hclassed.names]
  refine ⟨named, hsame, hgiven.unclassed, ?_⟩
  rw [hr, ← hclassNames, classNames_eq fun c hc => ?_]
  have hdefinition := (Load.app_components hload c hc).1
  refine ⟨hdefinition, ?_⟩
  rw [Naming.nameOf, hsame]
  exact isSome_nameOf hload hnames (List.mem_flatMap.2 ⟨c, hc, List.mem_cons_self⟩) hdefinition

/-- The class of a node starts with its stem for the name of the definition that the walk
has passed last, and its number is from two on. -/
theorem resolve_classOf {before after : List Node} {n e : Node} (hsplit : app.nodes = before ++ n :: after)
    (hlast : lastDefinition (before ++ [n]) = some e) (hstatic : n.head.hasStaticStyle = true) :
    ∃ owner suffix, (resolve app {}).naming.nameOf e.head = some owner ∧
      (suffix = "" ∨ ∃ k, 2 ≤ k ∧ suffix = "-" ++ Text.decimal k) ∧
      (resolve app {}).naming.classOf n.head =
        some (classStem n.head owner ++ "-" ++ pathDigits n.head.path ++ suffix) := by
  obtain ⟨named, hsame, hunclassed, hwalk⟩ := resolve_walk hload hnames
  have hnamed : ∀ m ∈ before ++ [n], m.isDefinition = true →
      ((resolve app {}).naming.names.lookup m.head.position).isSome = true := by
    intro m hm
    refine isSome_nameOf hload hnames ?_
    rw [hsplit, List.append_cons]
    exact List.mem_append_left _ hm
  have hstart : Walked (resolve app {}).naming.names [] { naming := named } :=
    ⟨hsame, rfl, by simp [hunclassed], by simp [lastDefinition]⟩
  have hbefore : Walked (resolve app {}).naming.names before (before.foldl classNode { naming := named }) :=
    hstart.run fun m hm => hnamed m (List.mem_append_left _ hm)
  generalize ht : before.foldl classNode { naming := named } = t at hbefore
  have hstep := hbefore.step (hnamed n (List.mem_append_right _ List.mem_cons_self))
  -- no other node has its place, so the class is given, and the rest of the walk keeps it
  have hfresh : t.naming.classes.lookup n.head.position = none :=
    hbefore.unclassed (hsplit ▸ Load.app_positions_nodup hload)
  have hkept : (classNode t n).naming.classes <+: (resolve app {}).naming.classes := by
    rw [hwalk, hsplit, List.foldl_append, List.foldl_cons, ht]
    exact foldl_classNode_grows _ after
  obtain ⟨suffix, hpick, hsuffix⟩ :=
    t.registry.pick_suffix (classStem n.head (classNode t n).owner ++ "-" ++ pathDigits n.head.path)
  rw [hbefore.separator] at hsuffix
  refine ⟨(classNode t n).owner, suffix, hstep.owner e hlast, hsuffix, ?_⟩
  rw [classNode_claims t hstatic, hpick] at hkept
  exact hkept.lookup_eq_some (Assigned.lookup_give_of_none hfresh _)

/-- A node with style that can land in a stylesheet stands in one definition `d` of the app.
If it is that definition or has no name of its own, its class is the name of a definition
`e` in kebab case, six digits of the digest of its path, and possibly a number. Here `e` is
the definition that comes last among the nodes of `d` up to this one: it is `d` exactly if
no inner definition of `d` comes before the node. -/
theorem resolve_stems {n : Node} (hn : n ∈ app.nodes) (hstatic : n.head.hasStaticStyle = true)
    (howned : n.isDefinition = true ∨ n.head.name = none) :
    ∃ d ∈ app.definitions, (n ∈ d.own ∧ ∀ d' ∈ app.definitions, n ∈ d'.own → d' = d) ∧
      ∃ before after e owner suffix, d.nodes = before ++ n :: after ∧ lastDefinition (before ++ [n]) = some e ∧
        (e = d ↔ ∀ m ∈ before, m.isDefinition = true → m = d) ∧
        (resolve app {}).naming.nameOf e.head = some owner ∧
        (suffix = "" ∨ ∃ k, 2 ≤ k ∧ suffix = "-" ++ Text.decimal k) ∧
        (resolve app {}).naming.classOf n.head =
          some (Text.toKebab owner ++ "-" ++ pathDigits n.head.path ++ suffix) := by
  obtain ⟨d, hd, hown, hunique⟩ := App.exists_own hload hn
  obtain ⟨c, hc, hdc⟩ := List.mem_flatMap.1 hd
  obtain ⟨hdc, hdefinition⟩ := List.mem_filter.1 hdc
  have hinfix : d.nodes <:+: app.nodes := (Node.isInfix_nodes hdc).trans (List.infix_flatMap_of_mem hc Node.nodes)
  have hnodup : d.nodes.Nodup := hinfix.sublist.nodup (Load.app_positions_nodup hload).of_map
  obtain ⟨before, after, e, hsplit, hmem, hlast, hfirst⟩ := Node.own_split hdefinition hnodup hown
  obtain ⟨front, back, hnodes⟩ := hinfix
  have hwhole : app.nodes = (front ++ before) ++ n :: (after ++ back) := by
    rw [← hnodes, hsplit, List.append_assoc, List.append_assoc, List.append_assoc, List.cons_append]
  have hpassed : lastDefinition (front ++ before ++ [n]) = some e := by
    rw [List.append_assoc, lastDefinition_append_right front hmem hdefinition, hlast]
  obtain ⟨owner, suffix, howner, hsuffix, hclass⟩ := resolve_classOf hload hnames hwhole hpassed hstatic
  have hstem : classStem n.head owner = Text.toKebab owner := by
    unfold Node.isDefinition at howned
    unfold classStem
    split
    next name hname hnot => simp [hname, hnot] at howned
    next => rfl
  rw [hstem] at hclass
  exact ⟨d, hd, ⟨hown, hunique⟩, before, after, e, owner, suffix, hsplit, hlast, hfirst, howner, hsuffix, hclass⟩

end

/-- A paragraph before an inner definition, one inside it and one after it. -/
def threeParagraphs : Json :=
  let paragraph := .object [("type", .string "p"), ("style", .string "color: red")]
  .object [("components", .array
    [.object [("name", .string "App"), ("children", .array
      [paragraph, .object [("type", .string "Component"), ("name", .string "ListRow"), ("children", paragraph)],
        paragraph])]])]

theorem resolve_stems_threeParagraphs :
    ∃ app table n, Load.app threeParagraphs = .ok app ∧ (resolve app {}).outcome = .ok table ∧ n ∈ app.nodes ∧
      n.head.hasStaticStyle = true ∧ n.head.name = none ∧
      ∃ d ∈ app.definitions, n ∈ d.own ∧ ∃ owner suffix,
        (resolve app {}).naming.classOf n.head =
          some (Text.toKebab owner ++ "-" ++ pathDigits n.head.path ++ suffix) := by
  have hgiven : ((Load.app threeParagraphs).toOption.bind fun app => (resolve app {}).outcome.toOption.bind fun _ =>
      app.nodes[3]?.map fun n => (n.head.hasStaticStyle, n.head.name)) = some (true, none) := by
    decide +kernel
  obtain ⟨app, happ, hgiven⟩ := Option.bind_eq_some_iff.1 hgiven
  obtain ⟨table, htable, hgiven⟩ := Option.bind_eq_some_iff.1 hgiven
  obtain ⟨n, hn, hgiven⟩ := Option.map_eq_some_iff.1 hgiven
  obtain ⟨hstatic, hname⟩ := Prod.mk.inj hgiven
  have hload := eq_ok_of_toOption happ
  have hnames := eq_ok_of_toOption htable
  have hmem := List.mem_of_getElem? hn
  obtain ⟨d, hd, ⟨hown, -⟩, -, -, -, owner, suffix, -, -, -, -, -, hclass⟩ :=
    resolve_stems hload hnames hmem hstatic (.inr hname)
  exact ⟨app, table, n, hload, hnames, hmem, hstatic, hname, d, hd, hown, owner, suffix, hclass⟩

/-- The last paragraph stands in `App`, and its class starts with the name of the row. -/
theorem class_after_inner_definition :
    ((Load.app threeParagraphs).toOption.bind fun app => (resolve app {}).outcome.toOption.map fun _ =>
      app.definitions.map fun d => ((resolve app {}).naming.nameOf d.head, d.own.map fun n =>
        (n.head.path, (resolve app {}).naming.classOf n.head))) =
      some [(some "App", [("components[0]", none), ("components[0].children[0]", some "app-dfcbe4"),
          ("components[0].children[2]", some "list-row-9e7dd6")]),
        (some "ListRow", [("components[0].children[1]", none),
          ("components[0].children[1].children[0]", some "list-row-128049")])] := by
  decide +kernel

end Names

end ViewTree
