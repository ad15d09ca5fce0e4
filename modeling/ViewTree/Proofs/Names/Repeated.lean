import ViewTree.Proofs.Names.Table

/-!
# Naming an app again

A node keeps the first name and the first class it is given, so an app whose nodes are
named can be named again: explicit names are claimed as before and given to nodes that have
them, no definition is left for the second round, and every node with style that can land in
a stylesheet has its class. So a naming that is repeated gives what it gave the first time
and changes no node (`resolve_stable`), also where it stops after the first round.
-/

namespace ViewTree

theorem Naming.giveName_of_named {naming : Naming} {head : Head} (h : (naming.nameOf head).isSome = true)
    (name : String) : naming.giveName head name = naming := by
  have hkeep : naming.names.give head.position name = naming.names := if_pos h
  rw [giveName, hkeep]

theorem Naming.giveClass_of_classed {naming : Naming} {head : Head} (h : (naming.classOf head).isSome = true)
    (name : String) : naming.giveClass head name = naming := by
  have hkeep : naming.classes.give head.position name = naming.classes := if_pos h
  rw [giveClass, hkeep]

namespace Names

/-! ## The first round -/

/-- Where a step's node has its name already, the step does to the table and to the problems
what it did before, and leaves the names alone. -/
theorem nameExplicit_again {s : Explicit} {o : Owned} {naming : Naming}
    (h : (nameExplicit s o).naming.names <+: naming.names) :
    nameExplicit { s with naming } o = { nameExplicit s o with naming } := by
  obtain ⟨hname, hstep⟩ | ⟨name, earlier, hname, hfound, hstep⟩ | ⟨name, hname, hnew, hstep⟩ :=
    nameExplicit_cases s o
  · rw [hstep]
    simp only [nameExplicit, hname]
  · rw [hstep]
    simp only [nameExplicit, hname, hfound]
  · rw [hstep] at h ⊢
    have hnamed : (naming.nameOf o.definition.head).isSome = true :=
      Assigned.isSome_of_prefix h (Assigned.lookup_give _ _ _)
    simp only [nameExplicit, hname, hnew, Naming.giveName_of_named hnamed]
    rfl

theorem foldl_nameExplicit_names (s : Explicit) (l : List Owned) :
    s.naming.names <+: (l.foldl nameExplicit s).naming.names :=
  List.foldlRecOn (motive := fun t : Explicit => s.naming.names <+: t.naming.names) l nameExplicit
    (List.prefix_refl _) fun t ht o _ => ht.trans (nameExplicit_grows t o).1

theorem foldl_nameExplicit_again {s : Explicit} {l : List Owned} {naming : Naming}
    (h : (l.foldl nameExplicit s).naming.names <+: naming.names) :
    l.foldl nameExplicit { s with naming } = { l.foldl nameExplicit s with naming } := by
  induction l generalizing s with
  | nil => rfl
  | cons o l ih =>
    have hstep : (nameExplicit s o).naming.names <+: naming.names :=
      (foldl_nameExplicit_names (nameExplicit s o) l).trans h
    rw [List.foldl_cons, nameExplicit_again hstep]
    exact ih h

theorem explicitNames_again {app : App} {before naming : Naming}
    (h : (explicitNames app before).naming.names <+: naming.names) :
    explicitNames app naming = { explicitNames app before with naming } :=
  foldl_nameExplicit_again h

/-! ## The second round -/

/-- Where every definition below a component has a name, none is given. -/
theorem nameInline_named_eq {table : NameTable} {naming : Naming} {component : Node}
    (h : ∀ d ∈ (component.nodes.drop 1).filter Node.isDefinition, (naming.nameOf d.head).isSome = true) :
    nameInline (table, naming) component = (table, naming) := by
  refine List.foldlRecOn (motive := fun s => s = (table, naming)) _ _ rfl ?_
  rintro _ rfl d hd
  obtain ⟨name, hname⟩ := Option.isSome_iff_exists.1 (h d hd)
  simp only [nameAnonymous, hname]

theorem anonymousNames_again {app : App} {naming : Naming}
    (h : ∀ c ∈ app.components, ∀ d ∈ (c.nodes.drop 1).filter Node.isDefinition, (naming.nameOf d.head).isSome = true)
    (table : NameTable) : anonymousNames app table naming = (table, naming) := by
  refine List.foldlRecOn (motive := fun s => s = (table, naming)) _ _ rfl ?_
  rintro _ rfl c hc
  exact nameInline_named_eq (h c hc)

/-! ## The third round -/

/-- A node that has its class keeps it, whatever is claimed. -/
theorem classNode_again {s : Classing} {n : Node}
    (h : n.head.hasStaticStyle = true → (s.naming.classOf n.head).isSome = true) :
    (classNode s n).naming = s.naming := by
  obtain ⟨-, -, hnaming⟩ | ⟨hstatic, base, -, hnaming⟩ := classNode_cases s n
  · exact hnaming
  · rw [hnaming, Naming.giveClass_of_classed (h hstatic)]

theorem classNames_again {app : App} {naming : Naming}
    (h : ∀ n ∈ app.nodes, n.head.hasStaticStyle = true → (naming.classOf n.head).isSome = true) :
    classNames app naming = naming := by
  refine List.foldlRecOn (motive := fun s : Classing => s.naming = naming) _ classComponent rfl ?_
  intro s hs c hc
  refine List.foldlRecOn (motive := fun s : Classing => s.naming = naming) _ classNode hs ?_
  intro t ht n hn
  have hclass := h n (List.mem_flatMap.2 ⟨c, hc, hn⟩)
  rw [← ht] at hclass
  exact (classNode_again hclass).trans ht

theorem classNames_names (app : App) (naming : Naming) : (classNames app naming).names = naming.names := by
  refine List.foldlRecOn (motive := fun s : Classing => s.naming.names = naming.names) _ classComponent rfl ?_
  intro s hs c _
  exact List.foldlRecOn (motive := fun s : Classing => s.naming.names = naming.names) _ classNode hs
    fun t ht n _ => (classNode_names t n).trans ht

/-! ## All rounds -/

/-- The outcomes give the same problems, or find the same component for every type. -/
def SameOutcome : Except (List Problem) NameTable → Except (List Problem) NameTable → Prop
  | .ok a, .ok b => ∀ type, a.component? type = b.component? type
  | .error ps, .error qs => ps = qs
  | _, _ => False

/-- The naming of an app, repeated a number of times on the names that are there by then. -/
def resolveAgain (app : App) (before : Naming) : Nat → Resolution
  | 0 => resolve app before
  | n + 1 => resolve app (resolveAgain app before n).naming

theorem resolve_of_problems (app : App) (before : Naming) (h : (explicitNames app before).problems ≠ []) :
    resolve app before =
      { outcome := .error (explicitNames app before).problems, naming := (explicitNames app before).naming } := by
  unfold resolve
  dsimp only
  rw [if_neg (by simpa using h)]

theorem resolve_of_no_problems (app : App) (before : Naming) (h : (explicitNames app before).problems = []) :
    resolve app before =
      { outcome := .ok (anonymousNames app (explicitNames app before).table (explicitNames app before).naming).1
        naming := classNames app
          (anonymousNames app (explicitNames app before).table (explicitNames app before).naming).2 } := by
  unfold resolve
  dsimp only
  rw [if_pos (by simp [h])]

/-- What the first naming gives is left alone by a second one, which ends alike. -/
theorem resolve_again (app : App) (before : Naming) :
    (resolve app (resolve app before).naming).naming = (resolve app before).naming ∧
      SameOutcome (resolve app before).outcome (resolve app (resolve app before).naming).outcome := by
  by_cases hproblems : (explicitNames app before).problems = []
  · generalize hstart : explicitNames app before = start at hproblems
    have hgrows := anonymousNames_grows app start.table start.naming
    have hnamed := anonymousNames_named app start.table start.naming
    have hcomponents := anonymousNames_components app start.table start.naming
    have hfirst := resolve_of_no_problems app before (hstart ▸ hproblems)
    rw [hstart] at hfirst
    generalize anonymousNames app start.table start.naming = inline at hgrows hnamed hcomponents hfirst
    have hnames := classNames_names app inline.2
    -- the second naming starts with the names and the classes of the first
    have hexplicit : explicitNames app (classNames app inline.2) = { start with naming := classNames app inline.2 } := by
      rw [← hstart] at hgrows ⊢
      exact explicitNames_again (hnames ▸ hgrows)
    have hinline : anonymousNames app start.table (classNames app inline.2) = (start.table, classNames app inline.2) := by
      refine anonymousNames_again (fun c hc d hd => ?_) start.table
      rw [Naming.nameOf, hnames]
      exact hnamed c hc d hd
    have hclasses : classNames app (classNames app inline.2) = classNames app inline.2 :=
      classNames_again (classNames_given app inline.2)
    have hsecond := resolve_of_no_problems app (classNames app inline.2) (by rw [hexplicit]; exact hproblems)
    rw [hexplicit, hinline] at hsecond
    rw [hfirst, hsecond]
    refine ⟨hclasses, fun type => ?_⟩
    rw [NameTable.component?, NameTable.component?, hcomponents]
  · -- only the first round is run, and its names are all there
    have hfirst := resolve_of_problems app before hproblems
    have hexplicit := explicitNames_again (List.prefix_refl (explicitNames app before).naming.names)
    have hsecond := resolve_of_problems app (explicitNames app before).naming
      (by rw [hexplicit]; exact hproblems)
    rw [hexplicit] at hsecond
    rw [hfirst, hsecond]
    exact ⟨rfl, rfl⟩

/-- However often the naming of an app is repeated, it ends as it did the first time, and no
node has another name or another class than after the first time. -/
theorem resolve_stable (app : App) (before : Naming) (n : Nat) :
    (resolveAgain app before n).naming = (resolve app before).naming ∧
      SameOutcome (resolve app before).outcome (resolveAgain app before n).outcome := by
  obtain ⟨hnaming, houtcome⟩ := resolve_again app before
  induction n with
  | zero =>
    refine ⟨rfl, ?_⟩
    show SameOutcome (resolve app before).outcome (resolve app before).outcome
    cases (resolve app before).outcome with
    | ok table => exact fun _ => rfl
    | error problems => rfl
  | succ n ih =>
    rw [resolveAgain, ih.1]
    exact ⟨hnaming, houtcome⟩

end Names

end ViewTree
