import ViewTree.Proofs.Names.Unique

/-!
# The table of components

Every entry of the table comes from a definition that the document names
(`Names.Describes`), and it says which file holds the function of the definition and
under which name. A step of the first round adds at most the entry of its own definition,
and what comes after that round leaves the entries and the names alone.
-/

namespace ViewTree

theorem Assigned.lookup_give_of_none {a : Assigned} {position : List Nat} (h : a.lookup position = none)
    (name : String) : (a.give position name).lookup position = some name := by
  simp [give, h, List.lookup_append]

namespace Names

/-- The entry under a name tells about a definition: its resolved name, the place of the
component it belongs to, and whether it is that component itself. -/
structure Describes (naming : Naming) (o : Owned) (name : String) (entry : ComponentEntry) : Prop where
  explicit : o.definition.head.name = some name
  identifier : naming.nameOf o.definition.head = some entry.identifier
  owner : entry.owner = o.owner
  topLevel : entry.topLevel = (o.definition.head.position == o.component.head.position)
  path : entry.path = o.definition.head.path

/-- The positions of owned definitions. -/
def ownedPositions (os : List Owned) : List (List Nat) := os.map fun o => o.definition.head.position

/-- Every entry tells about one of the definitions, and only they have names. -/
structure Listed (os : List Owned) (s : Explicit) : Prop where
  entries : ∀ name entry, (name, entry) ∈ s.table.components → ∃ o ∈ os, Describes s.naming o name entry
  named : ∀ p ∈ s.naming.names.map Prod.fst, p ∈ ownedPositions os

theorem Describes.of_prefix {naming naming' : Naming} {o : Owned} {name : String} {entry : ComponentEntry}
    (h : Describes naming o name entry) (hnames : naming.names <+: naming'.names) : Describes naming' o name entry :=
  ⟨h.explicit, hnames.lookup_eq_some h.identifier, h.owner, h.topLevel, h.path⟩

/-- A step adds at most the entry of its own definition, which has had no name before. -/
theorem nameExplicit_listed {os : List Owned} {s : Explicit} (h : Listed os s) {o : Owned}
    (hnew : o.definition.head.position ∉ ownedPositions os) : Listed (os ++ [o]) (nameExplicit s o) := by
  have hnone : s.naming.names.lookup o.definition.head.position = none :=
    Assigned.lookup_eq_none fun hp => hnew (h.named _ hp)
  have hold : ∀ name entry, (name, entry) ∈ s.table.components →
      ∃ o' ∈ os ++ [o], Describes (nameExplicit s o).naming o' name entry := by
    intro name entry hentry
    obtain ⟨o', ho', hd⟩ := h.entries name entry hentry
    exact ⟨o', List.mem_append_left _ ho', hd.of_prefix (nameExplicit_grows s o).1⟩
  have hkept : ∀ p ∈ s.naming.names.map Prod.fst, p ∈ ownedPositions (os ++ [o]) := by
    intro p hp
    rw [ownedPositions, List.map_append]
    exact List.mem_append_left _ (h.named p hp)
  obtain ⟨-, hstep⟩ | ⟨_, _, -, -, hstep⟩ | ⟨name, hname, -, hstep⟩ := nameExplicit_cases s o
  · rw [hstep] at hold ⊢
    exact ⟨hold, hkept⟩
  · rw [hstep] at hold ⊢
    exact ⟨hold, hkept⟩
  · rw [hstep] at hold ⊢
    refine ⟨fun name' entry hentry => ?_, fun p hp => ?_⟩
    · rcases List.mem_append.1 hentry with hentry | hentry
      · exact hold name' entry hentry
      · obtain ⟨rfl, rfl⟩ := Prod.mk.inj (List.mem_singleton.1 hentry)
        exact ⟨o, by simp, hname, Assigned.lookup_give_of_none hnone _, rfl, rfl, rfl⟩
    · rcases Assigned.keys_give p hp with hp | rfl
      · exact hkept p hp
      · simp [ownedPositions]

/-- No definition has the position of one before it. -/
theorem not_mem_ownedPositions {os done todo : List Owned} {o : Owned} (hpositions : (ownedPositions os).Nodup)
    (hsplit : os = done ++ o :: todo) : o.definition.head.position ∉ ownedPositions done := by
  rw [hsplit, ownedPositions, List.map_append, List.map_cons, List.nodup_append'] at hpositions
  exact fun h => hpositions.2.2 h List.mem_cons_self

theorem ownedPositions_eq (app : App) : ownedPositions (ownedDefinitions app) = positions app.definitions := by
  have hcomponents : app.components = app.components.zipIdx.map Prod.fst := List.zipIdx_map_fst 0 app.components |>.symm
  unfold ownedPositions ownedDefinitions positions App.definitions
  rw [List.map_flatMap]
  conv_rhs => rw [hcomponents, List.flatMap_map, List.map_flatMap]
  simp only [List.map_map]
  rfl

theorem ownedPositions_nodup {app : App} (h : (positions app.nodes).Nodup) :
    (ownedPositions (ownedDefinitions app)).Nodup := by
  rw [ownedPositions_eq, App.definitions_eq]
  exact h.sublist (List.filter_sublist.map _)

/-- The first round lists the definitions that the document names. -/
theorem explicitNames_listed {app : App} (h : (positions app.nodes).Nodup) :
    Listed (ownedDefinitions app) (explicitNames app {}) :=
  foldl_keeps (P := Listed) ⟨by simp, by simp⟩ fun _ _ _ _ hsplit ht =>
    nameExplicit_listed ht (not_mem_ownedPositions (ownedPositions_nodup h) hsplit)

/-! ## Later rounds -/

theorem nameAnonymous_components (component : Node) (ownerName : String) (s : NameTable × Naming) (d : Node) :
    (nameAnonymous component ownerName s d).1.components = s.1.components := by
  unfold nameAnonymous
  dsimp only
  split
  · rfl
  · rfl

theorem anonymousNames_components (app : App) (table : NameTable) (naming : Naming) :
    (anonymousNames app table naming).1.components = table.components := by
  refine List.foldlRecOn (motive := fun s : NameTable × Naming => s.1.components = table.components) _ nameInline rfl ?_
  intro s hs c _
  exact List.foldlRecOn (motive := fun s : NameTable × Naming => s.1.components = table.components) _ _ hs
    fun t ht d _ => (nameAnonymous_components c _ t d).trans ht

/-- The later rounds add names, and they leave the entries alone. -/
theorem resolve_grows {app : App} {table : NameTable} (h : (resolve app {}).outcome = .ok table) :
    (explicitNames app {}).naming.names <+: (resolve app {}).naming.names ∧
      table.components = (explicitNames app {}).table.components := by
  obtain ⟨named, s, hanonymous, -, hs, hr, -⟩ := resolve_rounds h
  have hgrows := anonymousNames_grows app (explicitNames app {}).table (explicitNames app {}).naming
  have hcomponents := anonymousNames_components app (explicitNames app {}).table (explicitNames app {}).naming
  rw [hanonymous] at hgrows hcomponents
  rw [hr, hs.names]
  exact ⟨hgrows, hcomponents⟩

/-- The entries of the table of a whole naming tell about definitions that the document
names. -/
theorem resolve_listed {app : App} {table : NameTable} (hpositions : (positions app.nodes).Nodup)
    (h : (resolve app {}).outcome = .ok table) {name : String} {entry : ComponentEntry}
    (hentry : table.component? name = some entry) :
    ∃ o ∈ ownedDefinitions app, Describes (resolve app {}).naming o name entry := by
  obtain ⟨hgrows, hcomponents⟩ := resolve_grows h
  rw [NameTable.component?, hcomponents] at hentry
  obtain ⟨o, ho, hd⟩ := (explicitNames_listed hpositions).entries name entry (mem_of_lookup hentry)
  exact ⟨o, ho, hd.of_prefix hgrows⟩

/-- What it means to be owned: the owner is the place of the component. -/
theorem mem_ownedDefinitions {app : App} {o : Owned} :
    o ∈ ownedDefinitions app ↔
      app.components[o.owner]? = some o.component ∧ o.definition ∈ o.component.definitions := by
  unfold ownedDefinitions
  rw [List.mem_flatMap]
  constructor
  · rintro ⟨⟨c, i⟩, hci, ho⟩
    obtain ⟨d, hd, rfl⟩ := List.mem_map.1 ho
    exact ⟨List.mem_zipIdx_iff_getElem?.1 hci, hd⟩
  · rintro ⟨hc, hd⟩
    exact ⟨(o.component, o.owner), List.mem_zipIdx_iff_getElem?.2 hc, List.mem_map.2 ⟨o.definition, hd, rfl⟩⟩

end Names

theorem Contexts.bind_components (app : App) (naming : Naming) (table : NameTable) :
    (bind app naming table).2.components = table.components := by
  refine List.foldlRecOn (motive := fun s : Binding => s.table.components = table.components) _ _ rfl ?_
  rintro s hs ⟨head, p⟩ -
  dsimp only
  unfold provide
  split
  · exact hs
  · exact hs

/-! ## The definition of a type -/

/-- The type `name` stands for the definition `d` of the component `c`. -/
structure ComponentEntry.Stands (entry : ComponentEntry) (app : App) (naming : Naming) (name : String) (c d : Node) :
    Prop where
  component : app.components[entry.owner]? = some c
  definition : d ∈ c.definitions
  explicit : d.head.name = some name
  identifier : naming.nameOf d.head = some entry.identifier
  own : entry.topLevel = true → d = c
  inner : entry.topLevel = false → d ∈ c.nodes.drop 1

theorem ComponentEntry.Stands.mem_nodes {entry : ComponentEntry} {app : App} {naming : Naming} {name : String}
    {c d : Node} (h : entry.Stands app naming name c d) : d ∈ app.nodes :=
  List.mem_flatMap.2 ⟨c, List.mem_of_getElem? h.component, List.mem_of_mem_filter h.definition⟩

/-- The types that stand for definitions are those that were found in naming. -/
theorem App.scope_component? {app : App} {table : NameTable} (hnames : (Names.resolve app {}).outcome = .ok table)
    (options : Options) (name : String) :
    (app.scope options).table.component? name = table.component? name := by
  have hcomponents : (app.scope options).table.components = table.components := by
    unfold scope bound nameTable
    rw [hnames, Contexts.bind_components]
    rfl
  rw [NameTable.component?, hcomponents, NameTable.component?]

/-- In an app that passes its checks, a type of the table stands for a definition. -/
theorem App.component?_stands {document : Json} {app : App} (hload : Load.app document = .ok app)
    (hcheck : app.checkProblems = []) {options : Options} {name : String} {entry : ComponentEntry}
    (h : (app.scope options).table.component? name = some entry) :
    ∃ c d, entry.Stands app (app.scope options).naming name c d := by
  obtain ⟨⟨table, hnames⟩, -, -⟩ := check_nil hcheck
  have hpositions := Load.app_positions_nodup hload
  have htable : table.component? name = some entry := by rwa [scope_component? hnames] at h
  obtain ⟨⟨i, c, d⟩, ho, hd⟩ := Names.resolve_listed hpositions hnames htable
  obtain ⟨hc, hdc⟩ := Names.mem_ownedDefinitions.1 ho
  have hdn : d ∈ c.nodes := List.mem_of_mem_filter hdc
  have hmem : ∀ n ∈ c.nodes, n ∈ app.nodes := fun n hn => List.mem_flatMap.2 ⟨c, List.mem_of_getElem? hc, hn⟩
  refine ⟨c, d, by rw [hd.owner]; exact hc, hdc, hd.explicit, hd.identifier, fun htop => ?_, fun htop => ?_⟩
  · rw [hd.topLevel, beq_iff_eq] at htop
    exact List.inj_on_of_nodup_map hpositions (hmem d hdn) (hmem c List.mem_cons_self) htop
  · rw [hd.topLevel, beq_eq_false_iff_ne] at htop
    rcases List.mem_cons.1 hdn with rfl | hdn
    · exact absurd rfl htop
    · exact hdn

end ViewTree
