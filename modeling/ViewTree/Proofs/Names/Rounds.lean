import Mathlib.Data.List.Nodup
import ViewTree.Names.Naming
import ViewTree.Proofs.Names.Registry

/-!
# The rounds of naming

A registry is *sound* when it holds different identifiers; claiming an identifier
keeps it so. The names given to nodes stand in the registry of the table in the order
they were claimed (`Names.Given`), and every step of the first two rounds keeps that.
A node that has a name keeps it, so what a step does for its own node holds at the
end of the round. The classes of the third round come from a registry of their own in
the same way (`Names.Classed`).
-/

namespace ViewTree

/-- What a step does for its own item, and no step undoes, is done for every item. -/
theorem foldl_achieves {σ α : Type} {f : σ → α → σ} {Q : α → σ → Prop} (hstep : ∀ s a, Q a (f s a))
    (hkeep : ∀ s a b, Q a s → Q a (f s b)) (l : List α) (s : σ) : ∀ a ∈ l, Q a (l.foldl f s) := by
  induction l generalizing s with
  | nil => simp
  | cons b l ih =>
    intro a ha
    rcases List.mem_cons.1 ha with rfl | ha
    · exact List.foldlRecOn (motive := Q a) l f (hstep s a) fun t ht b _ => hkeep t a b ht
    · exact ih (f s b) a ha

/-- What each step of a fold adds to what holds of the items before it holds of all items
in the end. -/
theorem foldl_keeps {σ α : Type} {f : σ → α → σ} {P : List α → σ → Prop} {l : List α} {s : σ} (hstart : P [] s)
    (hstep : ∀ done a todo t, l = done ++ a :: todo → P done t → P (done ++ [a]) (f t a)) : P l (l.foldl f s) := by
  have main : ∀ todo done t, l = done ++ todo → P done t → P l (todo.foldl f t) := by
    intro todo
    induction todo with
    | nil =>
      intro done t hl ht
      rwa [hl, List.append_nil]
    | cons a todo ih =>
      intro done t hl ht
      exact ih (done ++ [a]) (f t a) (by rw [hl, List.append_cons]) (hstep done a todo t hl ht)
  exact main l [] s rfl hstart

theorem mem_of_lookup {α β : Type} [BEq α] [LawfulBEq α] {l : List (α × β)} {key : α} {value : β}
    (h : l.lookup key = some value) : (key, value) ∈ l := by
  obtain ⟨l₁, l₂, rfl, -⟩ := List.lookup_eq_some_iff.1 h
  simp

/-! ## Assigned names -/

namespace Assigned

theorem prefix_give (a : Assigned) (position : List Nat) (name : String) : a <+: a.give position name := by
  unfold give
  split
  · exact List.prefix_refl a
  · exact List.prefix_append a _

theorem lookup_give (a : Assigned) (position : List Nat) (name : String) :
    ((a.give position name).lookup position).isSome = true := by
  unfold give
  split
  · assumption
  · simp [List.lookup_append]

theorem lookup_eq_none {a : Assigned} {position : List Nat} (h : position ∉ a.map Prod.fst) :
    a.lookup position = none := by
  refine List.lookup_eq_none_iff.2 fun p hp => ?_
  rw [bne_iff_ne]
  rintro rfl
  exact h (List.mem_map_of_mem hp)

/-- What a node is given it keeps. -/
theorem isSome_of_prefix {a b : Assigned} (h : a <+: b) {position : List Nat}
    (hl : (a.lookup position).isSome = true) : (b.lookup position).isSome = true := by
  obtain ⟨name, hl⟩ := Option.isSome_iff_exists.1 hl
  rw [h.lookup_eq_some hl]
  rfl

theorem values_give {a : Assigned} {taken : List String} (h : (a.map Prod.snd).Sublist taken)
    (position : List Nat) (name : String) :
    ((a.give position name).map Prod.snd).Sublist (taken ++ [name]) := by
  unfold give
  split
  · exact h.trans (List.sublist_append_left _ _)
  · rw [List.map_append]
    exact h.append (List.Sublist.refl _)

/-- The positions that have names: those of before and the one given last. -/
theorem keys_give {a : Assigned} {position : List Nat} {name : String} :
    ∀ p ∈ (a.give position name).map Prod.fst, p ∈ a.map Prod.fst ∨ p = position := by
  intro p hp
  unfold give at hp
  split at hp
  · exact .inl hp
  · rw [List.map_append, List.mem_append] at hp
    exact hp.imp id (by simp)

/-- Where no two positions have the same name, neither have two nodes at different
positions. -/
theorem filterMap_nodup {a : Assigned} (ha : (a.map Prod.snd).Nodup) {ns : List Node}
    (hns : (ns.map fun n => n.head.position).Nodup) :
    (ns.filterMap fun n => a.lookup n.head.position).Nodup := by
  refine List.Pairwise.filterMap _ ?_ (List.pairwise_map.1 hns)
  intro m n hmn name hm name' hn heq
  subst heq
  have hpair := List.inj_on_of_nodup_map ha (mem_of_lookup hm) (mem_of_lookup hn) rfl
  exact hmn (congrArg Prod.fst hpair)

end Assigned

/-! ## Sound registries -/

/-- A registry of different identifiers that numbers without a separator. -/
structure Registry.Sound (r : Registry) : Prop where
  nodup : r.taken.Nodup
  identifiers : ∀ name ∈ r.taken, Text.isIdentifier name = true
  plain : r.separator = ""

theorem Registry.nodup_claim {r : Registry} (h : r.taken.Nodup) (base : String) :
    (r.claim base).2.taken.Nodup :=
  h.append (List.nodup_singleton _) (List.disjoint_singleton.2 (r.pick_not_taken base))

theorem Registry.Sound.claim {r : Registry} (h : r.Sound) {base : String} (hb : Text.isIdentifier base = true) :
    (r.claim base).2.Sound where
  nodup := nodup_claim h.nodup base
  identifiers name hn := by
    rcases List.mem_append.1 hn with hn | hn
    · exact h.identifiers name hn
    · obtain rfl := List.mem_singleton.1 hn
      exact isIdentifier_pick h.plain hb
  plain := h.plain

namespace Names

/-- The names given are among the identifiers taken, in the same order, and no class is
given yet. -/
structure Given (table : NameTable) (naming : Naming) : Prop where
  sound : table.identifiers.Sound
  names : (naming.names.map Prod.snd).Sublist table.identifiers.taken
  unclassed : naming.classes = []

/-- A node gets the name that was claimed for it, or keeps the one it has. -/
theorem Given.claim {table : NameTable} {naming : Naming} (h : Given table naming) {base : String}
    (hb : Text.isIdentifier base = true) (head : Head) :
    Given (table.claim base).2 (naming.giveName head (table.claim base).1) where
  sound := h.sound.claim hb
  names := Assigned.values_give h.names _ _
  unclassed := h.unclassed

theorem Given.isIdentifier {table : NameTable} {naming : Naming} (h : Given table naming) {head : Head}
    {name : String} (hn : naming.nameOf head = some name) : Text.isIdentifier name = true :=
  h.sound.identifiers name (h.names.subset (List.mem_map.2 ⟨_, mem_of_lookup hn, rfl⟩))

/-! ## Explicit names -/

/-- The entry of a definition under its name in the document. -/
def Owned.entry (o : Owned) (identifier : String) : ComponentEntry where
  identifier
  owner := o.owner
  topLevel := o.definition.head.position == o.component.head.position
  path := o.definition.head.path

/-- What a step of the first round does: nothing for a definition without a name, a problem
for a name that is there, and otherwise an entry and an identifier. -/
theorem nameExplicit_cases (s : Explicit) (o : Owned) :
    (o.definition.head.name = none ∧ nameExplicit s o = s) ∨
    (∃ name earlier, o.definition.head.name = some name ∧ s.table.component? name = some earlier ∧
      nameExplicit s o = { s with problems := s.problems ++ [repeatedName o.definition.head name earlier] }) ∨
    ∃ name, o.definition.head.name = some name ∧ s.table.component? name = none ∧
      nameExplicit s o =
        { s with
          table :=
            { components := s.table.components ++ [(name, o.entry (s.table.identifiers.pick (Text.toIdentifier name)))]
              identifiers := (s.table.identifiers.claim (Text.toIdentifier name)).2 }
          naming := s.naming.giveName o.definition.head (s.table.identifiers.pick (Text.toIdentifier name)) } := by
  unfold nameExplicit
  dsimp only
  split
  next hname => exact .inl ⟨hname, rfl⟩
  next name hname =>
    split
    next earlier hl => exact .inr (.inl ⟨name, earlier, hname, hl, rfl⟩)
    next hl => exact .inr (.inr ⟨name, hname, hl, rfl⟩)

theorem nameExplicit_given {s : Explicit} (h : Given s.table s.naming) (o : Owned) :
    Given (nameExplicit s o).table (nameExplicit s o).naming := by
  obtain ⟨-, hstep⟩ | ⟨_, _, -, -, hstep⟩ | ⟨name, -, -, hstep⟩ := nameExplicit_cases s o
  · rwa [hstep]
  · rw [hstep]
    exact h
  · rw [hstep]
    have hg := h.claim (Text.isIdentifier_toIdentifier name) o.definition.head
    exact ⟨hg.sound, hg.names, hg.unclassed⟩

/-- A step adds to the names and to the problems and takes nothing away. -/
theorem nameExplicit_grows (s : Explicit) (o : Owned) :
    s.naming.names <+: (nameExplicit s o).naming.names ∧ s.problems <+: (nameExplicit s o).problems := by
  obtain ⟨-, hstep⟩ | ⟨_, _, -, -, hstep⟩ | ⟨name, -, -, hstep⟩ := nameExplicit_cases s o
  · rw [hstep]
    exact ⟨List.prefix_refl _, List.prefix_refl _⟩
  · rw [hstep]
    exact ⟨List.prefix_refl _, List.prefix_append _ _⟩
  · rw [hstep]
    exact ⟨Assigned.prefix_give _ _ _, List.prefix_refl _⟩

theorem nameExplicit_named (s : Explicit) (o : Owned) (ho : o.definition.head.name.isSome = true)
    (hp : (nameExplicit s o).problems = []) :
    ((nameExplicit s o).naming.nameOf o.definition.head).isSome = true := by
  obtain ⟨hname, -⟩ | ⟨_, _, -, -, hstep⟩ | ⟨name, -, -, hstep⟩ := nameExplicit_cases s o
  · rw [hname] at ho
    cases ho
  · rw [hstep] at hp
    simp at hp
  · rw [hstep]
    exact Assigned.lookup_give _ _ _

theorem exists_owned {app : App} {d : Node} (hd : d ∈ app.definitions) :
    ∃ o ∈ ownedDefinitions app, o.definition = d := by
  obtain ⟨c, hc, hd⟩ := List.mem_flatMap.1 hd
  obtain ⟨i, hi⟩ := List.mem_iff_getElem?.1 hc
  exact ⟨⟨i, c, d⟩, List.mem_flatMap.2 ⟨(c, i), List.mem_zipIdx_iff_getElem?.2 hi, List.mem_map.2 ⟨d, hd, rfl⟩⟩, rfl⟩

theorem explicitNames_given (app : App) :
    Given (explicitNames app {}).table (explicitNames app {}).naming := by
  refine List.foldlRecOn (motive := fun s => Given s.table s.naming) _ nameExplicit ?_ ?_
  · exact ⟨⟨List.nodup_nil, by simp, rfl⟩, List.Sublist.refl _, rfl⟩
  · exact fun s hs d _ => nameExplicit_given hs d

/-- Without a problem, every definition that the document names is named. -/
theorem explicitNames_named {app : App} (hp : (explicitNames app {}).problems = []) :
    ∀ d ∈ app.definitions, d.head.name.isSome = true →
      ((explicitNames app {}).naming.nameOf d.head).isSome = true := by
  intro d hd hn
  obtain ⟨o, ho, rfl⟩ := exists_owned hd
  refine foldl_achieves (Q := fun d (s : Explicit) => d.definition.head.name.isSome = true → s.problems = [] →
    (s.naming.nameOf d.definition.head).isSome = true) nameExplicit_named ?_ _ _ o ho hn hp
  intro s d e hs hd hp
  obtain ⟨hnames, hproblems⟩ := nameExplicit_grows s e
  rw [hp, List.prefix_nil] at hproblems
  exact Assigned.isSome_of_prefix hnames (hs hd hproblems)

/-! ## Definitions without a name -/

theorem nameAnonymous_given {component : Node} {ownerName : String} (ho : Text.isIdentifier ownerName = true)
    {s : NameTable × Naming} (h : Given s.1 s.2) (d : Node) :
    Given (nameAnonymous component ownerName s d).1 (nameAnonymous component ownerName s d).2 := by
  unfold nameAnonymous
  dsimp only
  split
  · exact h
  · refine h.claim (Text.isIdentifier_append (Text.isIdentifier_append ho rfl) ?_) d.head
    refine Text.continues_join rfl _ fun t ht => ?_
    obtain ⟨n, -, rfl⟩ := List.mem_map.1 ht
    exact Text.continues_decimal n

theorem nameAnonymous_grows (component : Node) (ownerName : String) (s : NameTable × Naming) (d : Node) :
    s.2.names <+: (nameAnonymous component ownerName s d).2.names := by
  unfold nameAnonymous
  dsimp only
  split
  · exact List.prefix_refl _
  · exact Assigned.prefix_give _ _ _

theorem nameAnonymous_named (component : Node) (ownerName : String) (s : NameTable × Naming) (d : Node) :
    ((nameAnonymous component ownerName s d).2.nameOf d.head).isSome = true := by
  unfold nameAnonymous
  dsimp only
  split
  · rename_i hn
    rw [hn]
    rfl
  · exact Assigned.lookup_give _ _ _

theorem nameInline_given {s : NameTable × Naming} (h : Given s.1 s.2) (component : Node) :
    Given (nameInline s component).1 (nameInline s component).2 := by
  have ho : Text.isIdentifier ((s.2.nameOf component.head).getD "Component") = true := by
    cases hn : s.2.nameOf component.head with
    | none => decide
    | some name => exact h.isIdentifier hn
  exact List.foldlRecOn (motive := fun s : NameTable × Naming => Given s.1 s.2) _ _ h
    fun t ht d _ => nameAnonymous_given ho ht d

theorem nameInline_grows (s : NameTable × Naming) (component : Node) :
    s.2.names <+: (nameInline s component).2.names :=
  List.foldlRecOn (motive := fun t => s.2.names <+: t.2.names) _ _ (List.prefix_refl _)
    fun t ht d _ => ht.trans (nameAnonymous_grows _ _ t d)

theorem nameInline_named (s : NameTable × Naming) (component : Node) :
    ∀ d ∈ (component.nodes.drop 1).filter Node.isDefinition,
      ((nameInline s component).2.nameOf d.head).isSome = true :=
  foldl_achieves (Q := fun d t => (t.2.nameOf d.head).isSome = true) (nameAnonymous_named _ _)
    (fun t _ e h => Assigned.isSome_of_prefix (nameAnonymous_grows _ _ t e) h) _ s

theorem anonymousNames_given {table : NameTable} {naming : Naming} (h : Given table naming) (app : App) :
    Given (anonymousNames app table naming).1 (anonymousNames app table naming).2 :=
  List.foldlRecOn (motive := fun s => Given s.1 s.2) _ nameInline h fun _ hs c _ => nameInline_given hs c

theorem anonymousNames_grows (app : App) (table : NameTable) (naming : Naming) :
    naming.names <+: (anonymousNames app table naming).2.names :=
  List.foldlRecOn (motive := fun s => naming.names <+: s.2.names) _ nameInline (List.prefix_refl _)
    fun s hs c _ => hs.trans (nameInline_grows s c)

/-- Every definition below a component is named. -/
theorem anonymousNames_named (app : App) (table : NameTable) (naming : Naming) :
    ∀ c ∈ app.components, ∀ d ∈ (c.nodes.drop 1).filter Node.isDefinition,
      ((anonymousNames app table naming).2.nameOf d.head).isSome = true :=
  foldl_achieves (f := nameInline) (Q := fun c s => ∀ d ∈ (c.nodes.drop 1).filter Node.isDefinition,
      (s.2.nameOf d.head).isSome = true) nameInline_named
    (fun s _ e h d hd => Assigned.isSome_of_prefix (nameInline_grows s e) (h d hd)) _ _

/-! ## Classes -/

/-- A node with style that can land in a stylesheet claims a class, and no other does. -/
theorem classNode_cases (s : Classing) (n : Node) :
    (n.head.hasStaticStyle = false ∧ (classNode s n).registry = s.registry ∧
      (classNode s n).naming = s.naming) ∨
    (n.head.hasStaticStyle = true ∧ ∃ base, (classNode s n).registry = (s.registry.claim base).2 ∧
      (classNode s n).naming = s.naming.giveClass n.head (s.registry.claim base).1) := by
  unfold classNode
  dsimp only
  split
  · rename_i hs
    exact .inr ⟨hs, _, rfl, rfl⟩
  · rename_i hs
    exact .inl ⟨Bool.eq_false_iff.2 hs, rfl, rfl⟩

theorem classNode_names (s : Classing) (n : Node) : (classNode s n).naming.names = s.naming.names := by
  obtain ⟨-, -, hm⟩ | ⟨-, base, -, hm⟩ := classNode_cases s n
  · rw [hm]
  · rw [hm]
    rfl

/-- The classes given are among those taken, which differ, and go to nodes of `ns` with
style that can land in a stylesheet; the names are as before. -/
structure Classed (names : Assigned) (ns : List Node) (s : Classing) : Prop where
  names : s.naming.names = names
  nodup : s.registry.taken.Nodup
  classes : (s.naming.classes.map Prod.snd).Sublist s.registry.taken
  styled : ∀ p ∈ s.naming.classes.map Prod.fst,
    ∃ n ∈ ns, n.head.hasStaticStyle = true ∧ n.head.position = p

theorem classNode_classed {names : Assigned} {ns : List Node} {s : Classing} (h : Classed names ns s) {n : Node}
    (hn : n ∈ ns) : Classed names ns (classNode s n) := by
  obtain ⟨-, hr, hm⟩ | ⟨hs, base, hr, hm⟩ := classNode_cases s n
  · exact ⟨hm ▸ h.names, hr ▸ h.nodup, by rw [hm, hr]; exact h.classes, hm ▸ h.styled⟩
  · refine ⟨hm ▸ h.names, hr ▸ Registry.nodup_claim h.nodup base, ?_, ?_⟩
    · rw [hm, hr]
      exact Assigned.values_give h.classes _ _
    · rw [hm]
      intro p hp
      rcases Assigned.keys_give p hp with hp | rfl
      · exact h.styled p hp
      · exact ⟨n, hn, hs, rfl⟩

theorem classNode_grows (s : Classing) (n : Node) :
    s.naming.classes <+: (classNode s n).naming.classes := by
  obtain ⟨-, -, hm⟩ | ⟨-, base, -, hm⟩ := classNode_cases s n
  · exact hm ▸ List.prefix_refl _
  · rw [hm]
    exact Assigned.prefix_give _ _ _

theorem classNode_given (s : Classing) (n : Node) (hs : n.head.hasStaticStyle = true) :
    ((classNode s n).naming.classOf n.head).isSome = true := by
  obtain ⟨hf, -, -⟩ | ⟨-, base, -, hm⟩ := classNode_cases s n
  · rw [hf] at hs
    cases hs
  · rw [hm]
    exact Assigned.lookup_give _ _ _

theorem classComponent_classed {names : Assigned} {ns : List Node} {s : Classing} (h : Classed names ns s)
    {c : Node} (hc : c.nodes ⊆ ns) : Classed names ns (classComponent s c) :=
  List.foldlRecOn (motive := Classed names ns) _ classNode ⟨h.names, h.nodup, h.classes, h.styled⟩
    fun _ ht _ hn => classNode_classed ht (hc hn)

theorem foldl_classNode_grows (s : Classing) (ns : List Node) :
    s.naming.classes <+: (ns.foldl classNode s).naming.classes :=
  List.foldlRecOn (motive := fun t : Classing => s.naming.classes <+: t.naming.classes) ns classNode
    (List.prefix_refl _) fun t ht n _ => ht.trans (classNode_grows t n)

theorem classComponent_grows (s : Classing) (c : Node) :
    s.naming.classes <+: (classComponent s c).naming.classes :=
  foldl_classNode_grows { s with owner := (s.naming.nameOf c.head).getD "component" } c.nodes

theorem classComponent_given (s : Classing) (c : Node) :
    ∀ n ∈ c.nodes, n.head.hasStaticStyle = true →
      ((classComponent s c).naming.classOf n.head).isSome = true :=
  foldl_achieves (f := classNode)
    (Q := fun n t => n.head.hasStaticStyle = true → (t.naming.classOf n.head).isSome = true) classNode_given
    (fun t _ e h hs => Assigned.isSome_of_prefix (classNode_grows t e) (h hs)) _ _

theorem classNames_classed (app : App) {naming : Naming} (h : naming.classes = []) :
    ∃ s, Classed naming.names app.nodes s ∧ classNames app naming = s.naming := by
  refine ⟨_, ?_, rfl⟩
  refine List.foldlRecOn (motive := Classed naming.names app.nodes) _ classComponent ?_ ?_
  · exact ⟨rfl, List.nodup_nil, by simp [h], by simp [h]⟩
  · intro s hs c hc
    exact classComponent_classed hs fun n hn => List.mem_flatMap.2 ⟨c, hc, hn⟩

theorem classNames_given (app : App) (naming : Naming) :
    ∀ n ∈ app.nodes, n.head.hasStaticStyle = true → ((classNames app naming).classOf n.head).isSome = true := by
  intro n hn
  obtain ⟨c, hc, hn⟩ := List.mem_flatMap.1 hn
  refine foldl_achieves (f := classComponent) (Q := fun c s => ∀ n ∈ c.nodes, n.head.hasStaticStyle = true →
    (s.naming.classOf n.head).isSome = true) classComponent_given ?_ _ _ c hc n hn
  exact fun s _ e h m hm hs => Assigned.isSome_of_prefix (classComponent_grows s e) (h m hm hs)

/-! ## All rounds -/

/-- The rounds of a naming that finds no problem, one after the other. -/
theorem resolve_eq_ok {app : App} {table : NameTable} (h : (resolve app {}).outcome = .ok table) :
    (explicitNames app {}).problems = [] ∧
      ∃ named, anonymousNames app (explicitNames app {}).table (explicitNames app {}).naming = (table, named) ∧
        (resolve app {}).naming = classNames app named := by
  unfold resolve at h ⊢
  dsimp only at h ⊢
  split at h
  · rename_i hp
    rw [if_pos hp]
    obtain rfl := Except.ok.inj h
    exact ⟨List.isEmpty_iff.1 hp, _, rfl, rfl⟩
  · cases h

/-- What the rounds keep, for a naming that finds no problem. -/
theorem resolve_rounds {app : App} {table : NameTable} (h : (resolve app {}).outcome = .ok table) :
    ∃ named s, anonymousNames app (explicitNames app {}).table (explicitNames app {}).naming = (table, named) ∧
      Given table named ∧ Classed named.names app.nodes s ∧ (resolve app {}).naming = s.naming ∧
      classNames app named = s.naming := by
  obtain ⟨-, named, hn, hr⟩ := resolve_eq_ok h
  have hg := anonymousNames_given (explicitNames_given app) app
  rw [hn] at hg
  obtain ⟨s, hs, hc⟩ := classNames_classed app hg.unclassed
  exact ⟨named, s, hn, hg, hs, hr.trans hc, hc⟩

/-- The names of an app are among the identifiers of its table. -/
theorem resolve_names {app : App} {table : NameTable} (h : (resolve app {}).outcome = .ok table) :
    table.identifiers.Sound ∧
      ((resolve app {}).naming.names.map Prod.snd).Sublist table.identifiers.taken := by
  obtain ⟨named, s, -, hg, hs, hr, -⟩ := resolve_rounds h
  rw [hr, hs.names]
  exact ⟨hg.sound, hg.names⟩

/-- The classes of an app differ, and the nodes with style that can land in a stylesheet
have them. -/
theorem resolve_classes {app : App} {table : NameTable} (h : (resolve app {}).outcome = .ok table) :
    ((resolve app {}).naming.classes.map Prod.snd).Nodup ∧
      (∀ p ∈ (resolve app {}).naming.classes.map Prod.fst,
        ∃ n ∈ app.nodes, n.head.hasStaticStyle = true ∧ n.head.position = p) ∧
      ∀ n ∈ app.nodes, n.head.hasStaticStyle = true →
        ((resolve app {}).naming.classOf n.head).isSome = true := by
  obtain ⟨named, s, -, -, hs, hr, hc⟩ := resolve_rounds h
  have hgiven := classNames_given app named
  rw [hc] at hgiven
  rw [hr]
  exact ⟨hs.nodup.sublist hs.classes, hs.styled, hgiven⟩

/-- If the document names every component, every definition of the app is named. -/
theorem resolve_named {app : App} {table : NameTable} (h : (resolve app {}).outcome = .ok table)
    (hc : ∀ c ∈ app.components, c.head.name.isSome = true) :
    ∀ d ∈ app.definitions, ((resolve app {}).naming.nameOf d.head).isSome = true := by
  have hexplicit := explicitNames_named (resolve_eq_ok h).1
  obtain ⟨named, s, hn, -, hs, hr, -⟩ := resolve_rounds h
  have hgrows := anonymousNames_grows app (explicitNames app {}).table (explicitNames app {}).naming
  have hinline := anonymousNames_named app (explicitNames app {}).table (explicitNames app {}).naming
  rw [hn] at hgrows hinline
  intro d hd
  unfold Naming.nameOf
  rw [hr, hs.names]
  obtain ⟨c, hcm, hdc⟩ := List.mem_flatMap.1 hd
  obtain ⟨hdn, hdef⟩ := List.mem_filter.1 hdc
  -- a component has its name since the first round, a definition below it since the second
  rcases List.mem_cons.1 hdn with rfl | hdn
  · exact Assigned.isSome_of_prefix hgrows (hexplicit _ hd (hc c hcm))
  · exact hinline c hcm d (List.mem_filter.2 ⟨hdn, hdef⟩)

end Names

end ViewTree
