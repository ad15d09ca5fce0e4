import ViewTree.Proofs.Compile.Checks
import ViewTree.Proofs.Load.Heads
import ViewTree.Proofs.Load.Positions
import ViewTree.Proofs.Names.Rounds

/-!
# Names of an app are unique

Contexts claim their identifiers from the registry that holds the names of the
definitions, so all of them differ (`app_names_unique`). Since no two nodes of a
loaded app share a position, two nodes never share a name or a class either.
-/

namespace ViewTree

theorem App.definitions_eq (app : App) : app.definitions = app.nodes.filter Node.isDefinition := by
  unfold definitions nodes
  rw [List.filter_flatMap]
  rfl

/-! ## Contexts -/

namespace Contexts

/-- Contexts are bound after the identifiers `taken`: theirs follow in the registry. -/
structure Bound (taken : List String) (s : Binding) : Prop where
  sound : s.table.identifiers.Sound
  identifiers : s.table.identifiers.taken = taken ++ s.contexts.map fun c => c.2.identifier

theorem provide_bound {taken : List String} {s : Binding} (h : Bound taken s) (naming : Naming) (head : Head)
    {p : Provision} (hp : Text.isIdentifier p.name = true) : Bound taken (provide naming s head p) := by
  unfold provide
  split
  · exact ⟨h.sound, h.identifiers⟩
  · refine ⟨h.sound.claim ?_, ?_⟩
    · exact Text.isIdentifier_append (Text.isIdentifier_capitalize hp) rfl
    · simp only [NameTable.claim, Registry.claim_taken, h.identifiers, List.map_append, List.append_assoc,
        List.map_cons, List.map_nil]

theorem provide_grows (naming : Naming) (s : Binding) (head : Head) (p : Provision) :
    s.contexts <+: (provide naming s head p).contexts := by
  unfold provide
  split
  · exact List.prefix_refl _
  · exact List.prefix_append _ _

theorem provide_found (naming : Naming) (s : Binding) (head : Head) (p : Provision) :
    ((provide naming s head p).contexts.lookup p.name).isSome = true := by
  unfold provide
  split
  · rename_i hl
    rw [hl]
    rfl
  · simp [List.lookup_append]

/-- What holds of the table at the start, and every provision keeps, holds in the end. -/
theorem bind_induction {app : App} {naming : Naming} {table : NameTable} {contexts : Contexts}
    (h : (bind app naming table).1 = .ok contexts) {P : Binding → Prop} (hstart : P { table })
    (hstep : ∀ s, P s → ∀ d ∈ app.definitions, ∀ p ∈ d.head.provides, P (provide naming s d.head p)) :
    ∃ s, P s ∧ s.contexts = contexts := by
  unfold bind at h
  dsimp only at h
  split at h
  · refine ⟨_, ?_, Except.ok.inj h⟩
    refine List.foldlRecOn (motive := P) _ _ hstart ?_
    rintro s hs ⟨head, p⟩ hmem
    obtain ⟨d, hd, hpd⟩ := List.mem_flatMap.1 hmem
    obtain ⟨p, hp, hpair⟩ := List.mem_map.1 hpd
    obtain ⟨rfl, rfl⟩ := Prod.mk.inj hpair
    exact hstep s hs d hd p hp
  · cases h

/-- The contexts of an app stand in the registry after the names. -/
theorem bind_bound {app : App} {naming : Naming} {table : NameTable} {contexts : Contexts}
    (h : (bind app naming table).1 = .ok contexts) (ht : table.identifiers.Sound)
    (hp : ∀ n ∈ app.nodes, ∀ p ∈ n.head.provides, Text.isIdentifier p.name = true) :
    ∃ s, Bound table.identifiers.taken s ∧ s.contexts = contexts := by
  refine bind_induction h ⟨ht, by simp⟩ fun s hs d hd p hpd => ?_
  have hdn : d ∈ app.nodes := List.mem_of_mem_filter (app.definitions_eq ▸ hd)
  exact provide_bound hs naming _ (hp d hdn p hpd)

/-- Every context that is provided is bound. -/
theorem bind_found {app : App} {naming : Naming} {table : NameTable} {contexts : Contexts}
    (h : (bind app naming table).1 = .ok contexts) :
    ∀ d ∈ app.definitions, ∀ p ∈ d.head.provides, (contexts.lookup p.name).isSome = true := by
  unfold bind at h
  dsimp only at h
  split at h
  · obtain rfl := Except.ok.inj h
    intro d hd p hp
    have hmem : (d.head, p) ∈ provisions app := List.mem_flatMap.2 ⟨d, hd, List.mem_map.2 ⟨p, hp, rfl⟩⟩
    refine foldl_achieves (f := fun s q => provide naming s q.1 q.2)
      (Q := fun q (s : Binding) => (s.contexts.lookup q.2.name).isSome = true) ?_ ?_ _ _ _ hmem
    · exact fun s q => provide_found naming s q.1 q.2
    · intro s q r hq
      obtain ⟨context, hq⟩ := Option.isSome_iff_exists.1 hq
      rw [(provide_grows naming s r.1 r.2).lookup_eq_some hq]
      rfl
  · cases h

/-- Every context that is used is bound. -/
theorem bind_used {app : App} {naming : Naming} {table : NameTable} {contexts : Contexts}
    (h : (bind app naming table).1 = .ok contexts) :
    ∀ d ∈ app.definitions, ∀ name ∈ d.head.uses, contexts.has name = true := by
  unfold bind at h
  dsimp only at h
  split at h
  · rename_i hnone
    obtain rfl := Except.ok.inj h
    rw [List.isEmpty_iff, List.append_eq_nil_iff] at hnone
    have hbound := List.filter_eq_nil_iff.1 (List.map_eq_nil_iff.1 hnone.2)
    intro d hd name hname
    obtain ⟨i, hi⟩ := List.getElem?_of_mem hname
    have hmem : (d.head, name, i) ∈ uses app :=
      List.mem_flatMap.2 ⟨d, hd, List.mem_map.2 ⟨(name, i), List.mem_zipIdx_iff_getElem?.2 hi, rfl⟩⟩
    simpa using hbound _ hmem
  · cases h

end Contexts

/-- In an app that passes its checks, the contexts that definitions provide are there. -/
theorem App.scope_found {app : App} (h : app.checkProblems = []) (options : Options) :
    ∀ d ∈ app.definitions, ∀ p ∈ d.head.provides,
      ((app.scope options).contexts.lookup p.name).isSome = true := by
  obtain ⟨-, ⟨contexts, hcontexts⟩, -⟩ := check_nil h
  rw [scope_contexts hcontexts]
  exact Contexts.bind_found hcontexts

/-- In an app that passes its checks, the contexts that definitions use are there. -/
theorem App.scope_used {app : App} (h : app.checkProblems = []) (options : Options) :
    ∀ d ∈ app.definitions, ∀ name ∈ d.head.uses, (app.scope options).contexts.has name = true := by
  obtain ⟨-, ⟨contexts, hcontexts⟩, -⟩ := check_nil h
  rw [scope_contexts hcontexts]
  exact Contexts.bind_used hcontexts

/-! ## The names of an app -/

/-- A class belongs to the node itself: no other has its position. -/
theorem classOf_isSome {document : Json} {app : App} {table : NameTable} (hload : Load.app document = .ok app)
    (hnames : (Names.resolve app {}).outcome = .ok table) {n : Node} (hn : n ∈ app.nodes) :
    ((Names.resolve app {}).naming.classOf n.head).isSome = n.head.hasStaticStyle := by
  obtain ⟨-, hstyled, hgiven⟩ := Names.resolve_classes hnames
  rw [Bool.eq_iff_iff]
  constructor
  · intro h
    obtain ⟨name, h⟩ := Option.isSome_iff_exists.1 h
    obtain ⟨m, hm, hs, hp⟩ := hstyled _ (List.mem_map.2 ⟨_, mem_of_lookup h, rfl⟩)
    obtain rfl := List.inj_on_of_nodup_map (Load.app_positions_nodup hload) hm hn hp
    exact hs
  · exact hgiven n hn

/-- Once names and contexts are resolved, every definition of the app has a name; the
names and the identifiers of the contexts are different identifiers; and exactly the
nodes with style that can land in a stylesheet have classes, which differ. -/
theorem app_names_unique {document : Json} {app : App} {table : NameTable} {contexts : Contexts}
    (hload : Load.app document = .ok app) (hnames : (Names.resolve app {}).outcome = .ok table)
    (hcontexts : (Contexts.bind app (Names.resolve app {}).naming table).1 = .ok contexts) :
    let naming := (Names.resolve app {}).naming
    let names := app.nodes.filterMap fun n => naming.nameOf n.head
    let identifiers := contexts.map fun c => c.2.identifier
    (∀ d ∈ app.definitions, (naming.nameOf d.head).isSome = true) ∧
      (names ++ identifiers).Nodup ∧
      (∀ name ∈ names ++ identifiers, Text.isIdentifier name = true) ∧
      (∀ n ∈ app.nodes, (naming.classOf n.head).isSome = n.head.hasStaticStyle) ∧
      (app.nodes.filterMap fun n => naming.classOf n.head).Nodup := by
  intro naming names identifiers
  obtain ⟨hsound, hsub⟩ := Names.resolve_names hnames
  obtain ⟨s, hbound, rfl⟩ := Contexts.bind_bound hcontexts hsound (Load.app_forall Load.built_provides hload)
  have htaken : s.table.identifiers.taken = table.identifiers.taken ++ identifiers := hbound.identifiers
  have hpositions := Load.app_positions_nodup hload
  have hmem : names ⊆ table.identifiers.taken := by
    intro name hname
    obtain ⟨n, -, hn⟩ := List.mem_filterMap.1 hname
    exact hsub.subset (List.mem_map.2 ⟨_, mem_of_lookup hn, rfl⟩)
  refine ⟨Names.resolve_named hnames fun c hc => (Load.app_components hload c hc).2, ?_, ?_,
    fun n hn => classOf_isSome hload hnames hn, ?_⟩
  · -- One registry holds them all, so it is enough that each node takes its own entry.
    have hnodup := hbound.sound.nodup
    rw [htaken, List.nodup_append'] at hnodup
    obtain ⟨-, hidentifiers, hdisjoint⟩ := hnodup
    exact (Assigned.filterMap_nodup (hsound.nodup.sublist hsub) hpositions).append hidentifiers
      (List.disjoint_of_subset_left hmem hdisjoint)
  · intro name hname
    apply hbound.sound.identifiers
    rw [htaken]
    rcases List.mem_append.1 hname with h | h
    · exact List.mem_append_left _ (hmem h)
    · exact List.mem_append_right _ h
  · exact Assigned.filterMap_nodup (Names.resolve_classes hnames).1 hpositions

/-- The definition without a name in `Card` and the context `theme` ask for names that
components have. Only the element at the end has a style. -/
def contestedNames : Json :=
  .object [("components", .array
    [.object [("name", .string "Card"), ("provideContexts", .object [("theme", .string "\x7b\x7bmode\x7d\x7d")]),
      ("children", .array
        [.object [("type", .string "Component")],
          .object [("type", .string "div"), ("style", .string "color: red")]])],
      .object [("name", .string "CardPart0")], .object [("name", .string "ThemeContext")]])]

theorem app_names_unique_contested :
    ∃ app table contexts, Load.app contestedNames = .ok app ∧ (Names.resolve app {}).outcome = .ok table ∧
      (Contexts.bind app (Names.resolve app {}).naming table).1 = .ok contexts ∧
      ((app.nodes.filterMap fun n => (Names.resolve app {}).naming.nameOf n.head) ++
        contexts.map fun c => c.2.identifier).Nodup ∧
      (app.nodes.map fun n => n.head.hasStaticStyle) = [false, false, true, false, false] ∧
      (∀ n ∈ app.nodes, ((Names.resolve app {}).naming.classOf n.head).isSome = n.head.hasStaticStyle) ∧
      (app.nodes.filterMap fun n => (Names.resolve app {}).naming.classOf n.head) = ["card-part02-9592c3"] := by
  have hchecks : ((Load.app contestedNames).toOption.any fun app => app.checkProblems.isEmpty) = true := by
    decide +kernel
  have hstyles : ((Load.app contestedNames).toOption.map fun app => (app.nodes.map fun n => n.head.hasStaticStyle,
      app.nodes.filterMap fun n => (Names.resolve app {}).naming.classOf n.head)) =
        some ([false, false, true, false, false], ["card-part02-9592c3"]) := by
    decide +kernel
  cases hload : Load.app contestedNames with
  | error problems => simp [hload, Except.toOption] at hchecks
  | ok app =>
    simp only [hload, Except.toOption, Option.any_some, List.isEmpty_iff] at hchecks
    simp only [hload, Except.toOption, Option.map_some, Option.some.injEq, Prod.mk.injEq] at hstyles
    obtain ⟨⟨table, hnames⟩, ⟨contexts, hcontexts⟩, -⟩ := App.check_nil hchecks
    simp only [App.bound, App.nameTable, hnames, resultOr] at hcontexts
    obtain ⟨-, hnodup, -, hclasses, -⟩ := app_names_unique hload hnames hcontexts
    exact ⟨app, table, contexts, rfl, hnames, hcontexts, hnodup, hstyles.1, hclasses, hstyles.2⟩

end ViewTree
