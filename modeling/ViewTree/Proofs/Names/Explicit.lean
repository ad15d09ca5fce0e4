import Mathlib.Data.List.Pairwise
import ViewTree.Proofs.Compile.Files
import ViewTree.Proofs.Component.Functions
import ViewTree.Proofs.Names.Apart
import ViewTree.Proofs.Names.Contexts

/-!
# Names that the document gives

The first round goes through the definitions of the app in document order. What it has
found after some of them is told by these definitions alone (`Names.Recorded`): a problem
for each name that an earlier definition has, an entry for every name, and the identifiers
taken, which are the ones given.

`resolve_records` is the result for a whole app: naming fails exactly if two definitions
have one name in the document, and otherwise the table has one entry for each name, which
tells about the definition of that name. `resolve_picked` says which identifier a
definition gets.
-/

namespace ViewTree

theorem Assigned.lookup_give_of_ne {a : Assigned} {p position : List Nat} (h : p ≠ position) (name : String) :
    (a.give position name).lookup p = a.lookup p := by
  unfold give
  split
  · rfl
  · rw [List.lookup_append, List.lookup_cons, beq_false_of_ne h, List.lookup_nil, Option.or_none]

namespace Names

/-! ## Definitions and those before them -/

/-- The first definition that has a name in the document. -/
def firstNamed (ds : List Node) (name : String) : Option Node := ds.find? fun d => d.head.name == some name

/-- The problem of a definition whose name one of those before it has. -/
def repetition (before : List Node) (d : Node) : Option Problem :=
  d.head.name.bind fun name => (firstNamed before name).map fun first =>
    { rule := .distinctComponents
      cause := .repeatedComponent name
      path := d.head.path
      related := [first.head.path] }

/-- The problems of all definitions, in order. -/
def repetitions (ds : List Node) : List Problem := withBefore repetition ds

theorem firstNamed_append (ds : List Node) (d : Node) (name : String) :
    firstNamed (ds ++ [d]) name = (firstNamed ds name).or (if d.head.name = some name then some d else none) := by
  unfold firstNamed
  rw [List.find?_append]
  congr 1
  by_cases h : d.head.name = some name
  · simp [h]
  · simp [h]

theorem firstNamed_eq_none {ds : List Node} {name : String} :
    firstNamed ds name = none ↔ ∀ d ∈ ds, d.head.name ≠ some name := by
  simp [firstNamed, List.find?_eq_none]

theorem repetitions_append (ds : List Node) (d : Node) :
    repetitions (ds ++ [d]) = repetitions ds ++ (repetition ds d).toList :=
  withBefore_append _ ds d

theorem repetition_eq_none {ds : List Node} {d : Node} :
    repetition ds d = none ↔ ∀ e ∈ ds, ∀ name, e.head.name = some name → d.head.name ≠ some name := by
  unfold repetition
  rw [Option.bind_eq_none_iff]
  constructor
  · intro h e he name hname hd
    have hnone := Option.map_eq_none_iff.1 (h name hd)
    exact firstNamed_eq_none.1 hnone e he hname
  · intro h name hd
    rw [Option.map_eq_none_iff, firstNamed_eq_none]
    exact fun e he hname => h e he name hname hd

/-- The definitions do not have one name in the document. -/
def NamedApart (d e : Node) : Prop := ∀ name, d.head.name = some name → e.head.name ≠ some name

instance : Std.Symm NamedApart := ⟨fun _ _ h name hname hother => h name hother hname⟩

theorem kind_of_mem_repetitions {ds : List Node} {p : Problem} (h : p ∈ repetitions ds) : p.kind = .conflict := by
  obtain ⟨before, d, hd⟩ := exists_of_mem_withBefore h
  obtain ⟨name, -, hname⟩ := Option.bind_eq_some_iff.1 hd
  obtain ⟨first, -, rfl⟩ := Option.map_eq_some_iff.1 hname
  rfl

/-- There is no problem exactly if no two definitions have one name. -/
theorem repetitions_eq_nil {ds : List Node} : repetitions ds = [] ↔ ds.Pairwise NamedApart := by
  induction ds using List.reverseRecOn with
  | nil => exact iff_of_true rfl .nil
  | append_singleton ds d ih =>
    rw [repetitions_append, List.append_eq_nil_iff, ih, Option.toList_eq_nil_iff, repetition_eq_none,
      List.pairwise_append]
    simp [NamedApart]

theorem eq_of_apart {ds : List Node} (h : ds.Pairwise NamedApart) {d e : Node} (hd : d ∈ ds) (he : e ∈ ds)
    {name : String} (hname : d.head.name = some name) (hname' : e.head.name = some name) : d = e := by
  by_contra hne
  exact h.forall hd he hne name hname hname'

theorem repetitions_ne_nil {ds : List Node} (h : ds.Nodup) :
    repetitions ds ≠ [] ↔
      ∃ d ∈ ds, ∃ e ∈ ds, d ≠ e ∧ ∃ name, d.head.name = some name ∧ e.head.name = some name := by
  rw [Ne, repetitions_eq_nil, not_iff_comm]
  constructor
  · intro hnone
    refine h.pairwise_of_forall_ne fun d hd e he hne name hname hname' => ?_
    exact hnone ⟨d, hd, e, he, hne, name, hname, hname'⟩
  · rintro hapart ⟨d, hd, e, he, hne, name, hname, hname'⟩
    exact hne (eq_of_apart hapart hd he hname hname')

/-! ## One definition after the other -/

/-- The names given to the definitions that have one in the document. -/
def namesGiven (naming : Naming) (ds : List Node) : List String :=
  ds.filterMap fun d => if d.head.name.isSome then naming.nameOf d.head else none

theorem namesGiven_append (naming : Naming) (ds : List Node) (d : Node) :
    namesGiven naming (ds ++ [d]) =
      namesGiven naming ds ++ (if d.head.name.isSome then naming.nameOf d.head else none).toList := by
  unfold namesGiven
  rw [List.filterMap_append, List.filterMap_eq_flatMap_toList _ [d], List.flatMap_singleton]

theorem mem_namesGiven {naming : Naming} {ds : List Node} {name : String} :
    name ∈ namesGiven naming ds ↔ ∃ d ∈ ds, d.head.name ≠ none ∧ naming.nameOf d.head = some name := by
  simp [namesGiven, List.mem_filterMap, Option.isSome_iff_ne_none]

/-- The state of the first round after some of the definitions. -/
structure Recorded (done : List Owned) (s : Explicit) : Prop where
  listed : Listed done s
  /-- Every name has an entry, that of the first definition of the name. -/
  found : ∀ name, (s.table.component? name).map ComponentEntry.path =
    (firstNamed (done.map Owned.definition) name).map fun d => d.head.path
  problems : s.problems = repetitions (done.map Owned.definition)
  /-- The identifiers taken are the ones given. -/
  taken : s.table.identifiers = { taken := namesGiven s.naming (done.map Owned.definition) }

theorem Recorded.start : Recorded [] {} where
  listed := ⟨by simp, by simp⟩
  found _ := rfl
  problems := rfl
  taken := rfl

section

variable {done : List Owned} {s : Explicit} {o : Owned}

/-- Without a problem, every definition that the document names is named. -/
theorem Recorded.named (h : Recorded done s) (hproblems : s.problems = []) {d : Node}
    (hd : d ∈ done.map Owned.definition) {name : String} (hname : d.head.name = some name) :
    (s.naming.nameOf d.head).isSome = true := by
  rw [h.problems, repetitions_eq_nil] at hproblems
  have hfound := congrArg Option.isSome (h.found name)
  rw [Option.isSome_map, Option.isSome_map, firstNamed, List.find?_isSome.2 ⟨d, hd, by simp [hname]⟩] at hfound
  obtain ⟨entry, hentry⟩ := Option.isSome_iff_exists.1 hfound
  obtain ⟨o, ho, hdescribes⟩ := h.listed.entries name entry (mem_of_lookup hentry)
  obtain rfl := eq_of_apart hproblems hd (List.mem_map_of_mem ho) hname hdescribes.explicit
  rw [hdescribes.identifier]
  rfl

/-- A definition that has not come yet has no name. -/
theorem Recorded.unnamed (h : Recorded done s) (hnew : o.definition.head.position ∉ ownedPositions done) :
    s.naming.nameOf o.definition.head = none :=
  Assigned.lookup_eq_none fun hp => hnew (h.listed.named _ hp)

/-- The identifiers taken after a definition that is not named. -/
theorem Recorded.taken_of_unnamed (h : Recorded done s)
    (hnew : o.definition.head.position ∉ ownedPositions done) :
    s.table.identifiers = { taken := namesGiven s.naming (done.map Owned.definition ++ [o.definition]) } := by
  rw [namesGiven_append, h.unnamed hnew, ite_self, Option.toList_none, List.append_nil]
  exact h.taken

/-- Naming a definition that has not come yet leaves the names of the others alone. -/
theorem namesGiven_giveName (hnew : o.definition.head.position ∉ ownedPositions done) (name : String) :
    namesGiven (s.naming.giveName o.definition.head name) (done.map Owned.definition) =
      namesGiven s.naming (done.map Owned.definition) := by
  refine List.filterMap_congr fun d hd => congrArg (ite _ · none) (Assigned.lookup_give_of_ne ?_ _)
  obtain ⟨o', ho', rfl⟩ := List.mem_map.1 hd
  rintro heq
  exact hnew (heq ▸ List.mem_map_of_mem ho')

theorem map_definition_append (done : List Owned) (o : Owned) :
    (done ++ [o]).map Owned.definition = done.map Owned.definition ++ [o.definition] := List.map_append

/-- A definition without a name. -/
theorem Recorded.anonymous (h : Recorded done s) (hnew : o.definition.head.position ∉ ownedPositions done)
    (hname : o.definition.head.name = none) (hstep : nameExplicit s o = s) :
    Recorded (done ++ [o]) (nameExplicit s o) := by
  have hlisted := nameExplicit_listed h.listed hnew
  rw [hstep] at hlisted ⊢
  refine ⟨hlisted, fun name => ?_, ?_, map_definition_append done o ▸ h.taken_of_unnamed hnew⟩
  · rw [h.found name, map_definition_append, firstNamed_append, hname, if_neg (by simp), Option.or_none]
  · rw [h.problems, map_definition_append, repetitions_append]
    simp [repetition, hname]

/-- A definition with the name of an earlier one. -/
theorem Recorded.repeated (h : Recorded done s) (hnew : o.definition.head.position ∉ ownedPositions done)
    {name : String} {earlier : ComponentEntry} (hname : o.definition.head.name = some name)
    (hl : s.table.component? name = some earlier)
    (hstep : nameExplicit s o =
      { s with problems := s.problems ++ [repeatedName o.definition.head name earlier] }) :
    Recorded (done ++ [o]) (nameExplicit s o) := by
  have hlisted := nameExplicit_listed h.listed hnew
  have hfound := h.found name
  rw [hl, Option.map_some] at hfound
  obtain ⟨first, hfirst, hpath⟩ := Option.map_eq_some_iff.1 hfound.symm
  rw [hstep] at hlisted ⊢
  refine ⟨hlisted, fun other => ?_, ?_, map_definition_append done o ▸ h.taken_of_unnamed hnew⟩
  · rw [map_definition_append, firstNamed_append, hname]
    by_cases heq : name = other
    · subst heq
      rw [hfirst, Option.some_or, ← hfirst]
      exact h.found name
    · rw [if_neg (by simpa using heq), Option.or_none]
      exact h.found other
  · rw [map_definition_append, repetitions_append, h.problems]
    simp [repetition, hname, hfirst, hpath, repeatedName]

/-- A definition with a new name: the names given before stay, and its own is the last. -/
theorem Recorded.fresh (h : Recorded done s) (hnew : o.definition.head.position ∉ ownedPositions done)
    {name identifier : String} (hname : o.definition.head.name = some name)
    (hl : s.table.component? name = none)
    (hpick : s.table.identifiers.pick (Text.toIdentifier name) = identifier)
    (hstep : nameExplicit s o =
      { s with
        table :=
          { components := s.table.components ++ [(name, o.entry identifier)]
            identifiers := (s.table.identifiers.claim (Text.toIdentifier name)).2 }
        naming := s.naming.giveName o.definition.head identifier }) :
    Recorded (done ++ [o]) (nameExplicit s o) := by
  have hlisted := nameExplicit_listed h.listed hnew
  have hfirst : firstNamed (done.map Owned.definition) name = none := by
    have hfound := h.found name
    rw [hl, Option.map_none] at hfound
    exact Option.map_eq_none_iff.1 hfound.symm
  have hgiven : (s.naming.giveName o.definition.head identifier).nameOf o.definition.head = some identifier :=
    Assigned.lookup_give_of_none (h.unnamed hnew) _
  rw [hstep] at hlisted ⊢
  refine ⟨hlisted, fun other => ?_, ?_, ?_⟩
  · rw [map_definition_append, firstNamed_append, hname, NameTable.component?, List.lookup_append, Option.map_or,
      Option.map_or]
    congr 1
    · exact h.found other
    · by_cases heq : name = other
      · simp [heq, Owned.entry]
      · simp [heq, List.lookup_cons, beq_false_of_ne (Ne.symm heq)]
  · rw [map_definition_append, repetitions_append, h.problems]
    simp [repetition, hname, hfirst]
  · have htaken := congrArg Registry.taken h.taken
    have hplain := congrArg Registry.separator h.taken
    rw [map_definition_append, namesGiven_append, namesGiven_giveName hnew, hgiven, hname, Registry.claim_taken, htaken,
      hplain, ← hpick]
    rfl

/-- One definition. -/
theorem Recorded.step (h : Recorded done s) (hnew : o.definition.head.position ∉ ownedPositions done) :
    Recorded (done ++ [o]) (nameExplicit s o) := by
  obtain ⟨hname, hstep⟩ | ⟨name, earlier, hname, hl, hstep⟩ | ⟨name, hname, hl, hstep⟩ := nameExplicit_cases s o
  · exact h.anonymous hnew hname hstep
  · exact h.repeated hnew hname hl hstep
  · exact h.fresh hnew hname hl rfl hstep

end

theorem foldl_nameExplicit_recorded {os : List Owned} (hpositions : (ownedPositions os).Nodup) :
    Recorded os (os.foldl nameExplicit {}) :=
  foldl_keeps Recorded.start fun _ _ _ _ hsplit ht => ht.step (not_mem_ownedPositions hpositions hsplit)

/-! ## The whole app -/

theorem ownedDefinitions_definition (app : App) : (ownedDefinitions app).map Owned.definition = app.definitions := by
  unfold ownedDefinitions App.definitions
  rw [List.map_flatMap]
  conv_rhs => rw [← List.zipIdx_map_fst 0 app.components, List.flatMap_map]
  simp [Function.comp_def]

theorem explicitNames_recorded {app : App} (h : (positions app.nodes).Nodup) :
    Recorded (ownedDefinitions app) (explicitNames app {}) :=
  foldl_nameExplicit_recorded (ownedPositions_nodup h)

theorem foldl_nameExplicit_grows (s : Explicit) (todo : List Owned) :
    s.naming.names <+: (todo.foldl nameExplicit s).naming.names ∧ s.problems <+: (todo.foldl nameExplicit s).problems :=
  List.foldlRecOn (motive := fun t : Explicit => s.naming.names <+: t.naming.names ∧ s.problems <+: t.problems) todo
    nameExplicit ⟨List.prefix_refl _, List.prefix_refl _⟩
    fun t ht o _ => ⟨ht.1.trans (nameExplicit_grows t o).1, ht.2.trans (nameExplicit_grows t o).2⟩

/-- The state in which a definition comes. -/
theorem explicitNames_at {app : App} (h : (positions app.nodes).Nodup) {before after : List Node} {d : Node}
    (hsplit : app.definitions = before ++ d :: after) :
    ∃ done o s, done.map Owned.definition = before ∧ o.definition = d ∧ Recorded done s ∧
      o.definition.head.position ∉ ownedPositions done ∧
      (nameExplicit s o).naming.names <+: (explicitNames app {}).naming.names ∧
      (nameExplicit s o).problems <+: (explicitNames app {}).problems := by
  obtain ⟨done, rest, howned, hbefore, hrest⟩ :=
    List.map_eq_append_iff.1 ((ownedDefinitions_definition app).trans hsplit)
  obtain ⟨o, todo, rfl, ho, -⟩ := List.map_eq_cons_iff.1 hrest
  have hpositions := ownedPositions_nodup h
  rw [howned, ownedPositions, List.map_append, List.nodup_append'] at hpositions
  obtain ⟨hdone, -, hdisjoint⟩ := hpositions
  refine ⟨done, o, done.foldl nameExplicit {}, hbefore, ho, foldl_nameExplicit_recorded hdone,
    fun hold => hdisjoint hold List.mem_cons_self, ?_⟩
  unfold explicitNames
  rw [howned, List.foldl_append, List.foldl_cons]
  exact foldl_nameExplicit_grows _ todo

section

variable {document : Json} {app : App} (hload : Load.app document = .ok app)

include hload

theorem explicitNames_problems : (explicitNames app {}).problems = repetitions app.definitions := by
  rw [(explicitNames_recorded (Load.app_positions_nodup hload)).problems, ownedDefinitions_definition]

/-- Naming fails with the problems of the names that come again, if there are any. -/
theorem resolve_error_iff {problems : List Problem} :
    (resolve app {}).outcome = .error problems ↔ repetitions app.definitions = problems ∧ problems ≠ [] := by
  rw [← explicitNames_problems hload]
  unfold resolve
  dsimp only
  split
  next hempty =>
    rw [List.isEmpty_iff] at hempty
    simp [hempty]
  next hempty =>
    rw [List.isEmpty_iff] at hempty
    simp only [Except.error.injEq]
    exact ⟨fun h => ⟨h, h ▸ hempty⟩, And.left⟩

theorem definitions_nodup : app.definitions.Nodup := by
  rw [App.definitions_eq]
  exact (Load.app_positions_nodup hload).of_map.sublist List.filter_sublist

variable {table : NameTable} (hnames : (resolve app {}).outcome = .ok table)

include hnames

/-- In an app that is named, no two definitions have one name in the document. -/
theorem definitions_apart : app.definitions.Pairwise NamedApart := by
  rw [← repetitions_eq_nil, ← explicitNames_problems hload]
  exact (resolve_eq_ok hnames).1

/-- A definition that the document names picks its identifier when those before it have
theirs. -/
theorem resolve_picked {before after : List Node} {d : Node} (hsplit : app.definitions = before ++ d :: after)
    {name : String} (hname : d.head.name = some name) :
    ∃ r : Registry, r.separator = "" ∧ r.taken = namesGiven (resolve app {}).naming before ∧
      (resolve app {}).naming.nameOf d.head = some (r.pick (Text.toIdentifier name)) := by
  obtain ⟨done, o, s, rfl, rfl, hs, hnew, hnames', hproblems⟩ :=
    explicitNames_at (Load.app_positions_nodup hload) hsplit
  rw [(resolve_eq_ok hnames).1, List.prefix_nil] at hproblems
  replace hnames' := hnames'.trans (resolve_grows hnames).1
  obtain ⟨hgrows, hnone⟩ := nameExplicit_grows s o
  rw [hproblems, List.prefix_nil] at hnone
  -- the names given so far are the final ones
  have hgiven : namesGiven s.naming (done.map Owned.definition) =
      namesGiven (resolve app {}).naming (done.map Owned.definition) := by
    refine List.filterMap_congr fun d hd => ?_
    split
    next hexplicit =>
      obtain ⟨other, hother⟩ := Option.isSome_iff_exists.1 hexplicit
      obtain ⟨given, hd⟩ := Option.isSome_iff_exists.1 (hs.named hnone hd hother)
      exact hd.trans ((hgrows.trans hnames').lookup_eq_some hd).symm
    next => rfl
  obtain ⟨hnot, -⟩ | ⟨_, _, -, -, hstep⟩ | ⟨other, hother, -, hstep⟩ := nameExplicit_cases s o
  · rw [hname] at hnot
    cases hnot
  · rw [hstep] at hproblems
    simp at hproblems
  · obtain rfl := Option.some.inj (hname.symm.trans hother)
    rw [hstep] at hnames'
    refine ⟨s.table.identifiers, congrArg Registry.separator hs.taken, ?_, ?_⟩
    · rw [← hgiven]
      exact congrArg Registry.taken hs.taken
    · exact hnames'.lookup_eq_some (Assigned.lookup_give_of_none (hs.unnamed hnew) _)

/-- The table has an entry for a name exactly if a definition has the name. -/
theorem component?_isSome (name : String) :
    (∃ entry, table.component? name = some entry) ↔ ∃ d ∈ app.definitions, d.head.name = some name := by
  have hfound := (explicitNames_recorded (Load.app_positions_nodup hload)).found name
  rw [NameTable.component?, ← (resolve_grows hnames).2, ownedDefinitions_definition] at hfound
  have hsome := congrArg Option.isSome hfound
  rw [Option.isSome_map, Option.isSome_map] at hsome
  rw [NameTable.component?, ← Option.isSome_iff_exists, hsome, firstNamed, List.find?_isSome]
  simp

end

end Names

/-- What an entry tells about a definition of an app. -/
structure ComponentEntry.Tells (entry : ComponentEntry) (app : App) (d : Node) : Prop where
  identifier : (Names.resolve app {}).naming.nameOf d.head = some entry.identifier
  path : entry.path = d.head.path
  topLevel : entry.topLevel = true ↔ d ∈ app.components
  owner : ∃ c, app.components[entry.owner]? = some c ∧ d ∈ c.definitions
  /-- The owner's file is the one with a function of this name. -/
  function : ∀ (options : Options) (i : Nat) (c : Node), app.components[i]? = some c →
    (entry.identifier ∈ (ComponentFile.functions (app.scope options) i c).value.map Function.name ↔ i = entry.owner)

namespace Names

section

variable {document : Json} {app : App} (hload : Load.app document = .ok app) {table : NameTable}
  (hnames : (resolve app {}).outcome = .ok table)

include hload hnames

/-- Functions are called by the names that were resolved for their definitions. -/
theorem mem_function_names {options : Options} {i : Nat} {c : Node} (hc : c ∈ app.components) {name : String} :
    name ∈ (ComponentFile.functions (app.scope options) i c).value.map Function.name ↔
      ∃ d ∈ c.definitions, (resolve app {}).naming.nameOf d.head = some name := by
  have hnamed := resolve_named hnames fun c hc => (Load.app_components hload c hc).2
  rw [ComponentFile.functions_names _ _ (Load.app_components hload c hc).1, List.mem_map]
  refine exists_congr fun d => and_congr_right fun hd => ?_
  obtain ⟨given, hgiven⟩ := Option.isSome_iff_exists.1 (hnamed d (List.mem_flatMap.2 ⟨c, hc, hd⟩))
  rw [Scope.functionName_eq (s := app.scope options) hgiven, hgiven, Option.some.injEq]

theorem entry_tells {d : Node} (hd : d ∈ app.definitions) {name : String} (hname : d.head.name = some name)
    {entry : ComponentEntry} (hentry : table.component? name = some entry) : entry.Tells app d := by
  have hpositions := Load.app_positions_nodup hload
  obtain ⟨⟨i, c, e⟩, ho, he⟩ := resolve_listed hpositions hnames hentry
  obtain ⟨hc, hec⟩ := mem_ownedDefinitions.1 ho
  dsimp only at hc hec
  have hmem := List.mem_of_getElem? hc
  obtain rfl := eq_of_apart (definitions_apart hload hnames) hd (List.mem_flatMap.2 ⟨c, hmem, hec⟩) hname
    he.explicit
  obtain rfl : entry.owner = i := he.owner
  have hec' := List.mem_of_mem_filter hec
  have hnode : d ∈ app.nodes := List.mem_flatMap.2 ⟨c, hmem, hec'⟩
  refine ⟨he.identifier, he.path, ?_, ⟨c, hc, hec⟩, fun options j b hb => ?_⟩
  · rw [he.topLevel, beq_iff_eq]
    constructor
    · intro hposition
      rwa [List.inj_on_of_nodup_map hpositions hnode (List.mem_flatMap.2 ⟨c, hmem, List.mem_cons_self⟩) hposition]
    · intro htop
      obtain ⟨j, hj⟩ := List.getElem?_of_mem htop
      obtain rfl := App.component_unique hload hc hj hec' List.mem_cons_self
      rw [hc] at hj
      obtain rfl := Option.some.inj hj
      rfl
  · rw [mem_function_names hload hnames (List.mem_of_getElem? hb)]
    constructor
    · rintro ⟨f, hf, hfname⟩
      have hfn := List.mem_of_mem_filter hf
      obtain rfl := eq_of_resolved hload hnames hnode (List.mem_flatMap.2 ⟨b, List.mem_of_getElem? hb, hfn⟩)
        he.identifier hfname
      exact App.component_unique hload hb hc hfn hec'
    · rintro rfl
      rw [hc] at hb
      obtain rfl := Option.some.inj hb
      exact ⟨d, hec, he.identifier⟩

end

/-- Naming an app fails exactly if two of its definitions have one name in the document,
and the problems are then those of all definitions whose name an earlier one has: each is
a conflict with the first definition of the name. Otherwise the table has entries for the
names in the document and for no others, and each entry tells about the definition of its
name. -/
theorem resolve_records {document : Json} {app : App} (hload : Load.app document = .ok app) :
    ((∃ problems, (resolve app {}).outcome = .error problems) ↔
      ∃ d ∈ app.definitions, ∃ e ∈ app.definitions, d ≠ e ∧
        ∃ name, d.head.name = some name ∧ e.head.name = some name) ∧
    (∀ problems, (resolve app {}).outcome = .error problems →
      problems = repetitions app.definitions ∧ ∀ p ∈ problems, p.kind = .conflict) ∧
    ∀ table, (resolve app {}).outcome = .ok table →
      (∀ name, (∃ entry, table.component? name = some entry) ↔ ∃ d ∈ app.definitions, d.head.name = some name) ∧
      ∀ d ∈ app.definitions, ∀ name, d.head.name = some name →
        ∃ entry, table.component? name = some entry ∧ entry.Tells app d := by
  refine ⟨?_, ?_, ?_⟩
  · rw [← repetitions_ne_nil (definitions_nodup hload)]
    simp [resolve_error_iff hload]
  · intro problems h
    obtain ⟨rfl, -⟩ := (resolve_error_iff hload).1 h
    exact ⟨rfl, fun p hp => kind_of_mem_repetitions hp⟩
  · intro table hnames
    refine ⟨component?_isSome hload hnames, fun d hd name hname => ?_⟩
    obtain ⟨entry, hentry⟩ := (component?_isSome hload hnames name).2 ⟨d, hd, hname⟩
    exact ⟨entry, hentry, entry_tells hload hnames hd hname hentry⟩

/-- A definition in the alternative of a choice whose identifier a component asks for. -/
def alternativeRow : Json :=
  .object [("components", .array
    [.object [("name", .string "App"), ("children", .object
      [("type", .string "If"), ("condition", .string "ready"), ("children", .object [("type", .string "Component")]),
        ("else", .object [("type", .string "Component"), ("name", .string "my row")])])],
      .object [("name", .string "my_row")]])]

theorem resolve_records_alternativeRow :
    ∃ app table d, Load.app alternativeRow = .ok app ∧ (resolve app {}).outcome = .ok table ∧
      d ∈ app.definitions ∧ d.head.name = some "my row" ∧
      table.component? "my row" = some ⟨"my_row", 0, false, "components[0].children[0].else[0]"⟩ ∧
      (ComponentEntry.mk "my_row" 0 false "components[0].children[0].else[0]").Tells app d := by
  have hlookup : ((Load.app alternativeRow).toOption.bind fun app => (resolve app {}).outcome.toOption.bind fun table =>
      table.component? "my row") = some ⟨"my_row", 0, false, "components[0].children[0].else[0]"⟩ := by decide +kernel
  obtain ⟨app, happ, hlookup⟩ := Option.bind_eq_some_iff.1 hlookup
  obtain ⟨table, htable, hlookup⟩ := Option.bind_eq_some_iff.1 hlookup
  have hload := eq_ok_of_toOption happ
  have hnames := eq_ok_of_toOption htable
  obtain ⟨hsome, htells⟩ := (resolve_records hload).2.2 table hnames
  obtain ⟨d, hd, hname⟩ := (hsome "my row").1 ⟨_, hlookup⟩
  obtain ⟨entry, hentry, hentryTells⟩ := htells d hd "my row" hname
  rw [hlookup] at hentry
  obtain rfl := Option.some.inj hentry
  exact ⟨app, table, d, hload, hnames, hd, hname, hlookup, hentryTells⟩

end Names

end ViewTree
