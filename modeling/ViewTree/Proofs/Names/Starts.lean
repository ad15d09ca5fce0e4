import ViewTree.Proofs.Names.Kept

/-!
# What names start with

A definition that the document names gets this name cleaned, and one that it does not name
gets the name of its component before the word `Part`; either may be numbered. So a resolved
name starts with a cleaned one of the document (`Names.nameOf_starts`), and it starts with a
lower-case letter exactly if the document's does: cleaning puts an underscore in front of a
digit and in place of what no identifier can start with, and leaves letters alone.
-/

namespace ViewTree

namespace Text

/-! ## Cleaned names -/

theorem isDigit_of_starts {c : Char} (h : startsIdentifier c = true) : isDigit c = false := by
  simp only [startsIdentifier, isUpper, isLower, Bool.or_eq_true, Bool.and_eq_true, decide_eq_true_eq,
    beq_iff_eq, Char.le_def, UInt32.le_iff_toNat_le] at h
  have hletter : 65 ≤ c.val.toNat → isDigit c = false := by
    intro hc
    simp only [isDigit, Bool.and_eq_false_iff, decide_eq_false_iff_not, Char.le_def, UInt32.le_iff_toNat_le]
    exact .inr fun hdigit => absurd (show c.val.toNat ≤ 57 from hdigit) (by omega)
  rcases h with ((⟨hupper, -⟩ | ⟨hlower, -⟩) | rfl) | rfl
  · exact hletter hupper
  · exact hletter (Nat.le_trans (by decide) hlower)
  · rfl
  · rfl

/-- A cleaned name starts like the name, or with an underscore if no identifier starts so. -/
theorem head?_toIdentifier {name : String} (htrim : trim name = name) {c : Char} {cs : List Char}
    (hname : name.toList = c :: cs) :
    (toIdentifier name).toList.head? = some (if startsIdentifier c then c else '_') := by
  unfold toIdentifier
  split
  · rename_i hidentifier
    rw [isIdentifier, hname, isIdentifierChars, Bool.and_eq_true] at hidentifier
    rw [hname, hidentifier.1]
    rfl
  · have hkept : dropAroundWhile isSpace name.toList = c :: cs := by
      rw [← hname, ← String.toList_ofList (l := dropAroundWhile isSpace name.toList)]
      exact congrArg String.toList htrim
    rw [hkept, collapse]
    by_cases hstarts : startsIdentifier c = true
    · have hcontinues : continuesIdentifier c = true := by rw [continuesIdentifier, hstarts, Bool.true_or]
      rw [if_pos hcontinues, if_pos hstarts]
      dsimp only
      rw [isDigit_of_starts hstarts, if_neg Bool.false_ne_true, String.toList_ofList]
      rfl
    · rw [if_neg hstarts]
      by_cases hcontinues : continuesIdentifier c = true
      · -- a digit, which gets an underscore in front
        have hdigit : isDigit c = true := by simpa [continuesIdentifier, hstarts] using hcontinues
        rw [if_pos hcontinues]
        dsimp only
        rw [hdigit, if_pos rfl, String.toList_ofList]
        rfl
      · rw [if_neg hcontinues, if_neg Bool.false_ne_true]
        dsimp only
        rw [show isDigit '_' = false from rfl, if_neg Bool.false_ne_true, String.toList_ofList]
        rfl

/-- Whether a text starts with a lower-case letter. -/
def startsLower (s : String) : Bool := s.toList.head?.any isLower

theorem startsLower_toIdentifier {name : String} (htrim : trim name = name) :
    startsLower (toIdentifier name) = startsLower name := by
  unfold startsLower
  cases hname : name.toList with
  | nil =>
    obtain rfl : name = "" := by simpa using hname
    rfl
  | cons c cs =>
    rw [head?_toIdentifier htrim hname, List.head?_cons, Option.any_some, Option.any_some]
    split
    · rfl
    · rename_i hstarts
      simp only [startsIdentifier, Bool.or_eq_true, not_or, Bool.not_eq_true] at hstarts
      rw [hstarts.1.1.2]
      rfl

theorem startsLower_of_prefix {s t : String} (hs : isIdentifier s = true) (h : s.toList <+: t.toList) :
    startsLower t = startsLower s := by
  obtain ⟨rest, hrest⟩ := h
  unfold isIdentifier at hs
  unfold startsLower
  cases hlist : s.toList with
  | nil =>
    rw [hlist] at hs
    cases hs
  | cons c cs => rw [← hrest, hlist, List.cons_append, List.head?_cons, List.head?_cons]

end Text

namespace Load

theorem body_name (fields : Keyed Json) (loaders : ContentLoaders) (kind : NodeKind) (fallback : List Content)
    (path : String) (position : List Nat) (name : String)
    (h : (body fields loaders kind fallback path position).value.head.name = some name) : Text.trim name = name := by
  obtain ⟨raw, -, rfl⟩ := Option.map_eq_some_iff.1 h
  exact Text.trim_trim raw

/-- The name of a node is trimmed. -/
theorem built_names : Built fun n => ∀ name, n.head.name = some name → Text.trim name = name where
  node fields path position n h _ := by
    obtain ⟨type, kind, fallback, -, -, rfl, -⟩ := node_eq_some h
    exact body_name fields (contentLoaders fields) kind fallback path position
  definition fields path position n h _ := by
    rw [definition_value, Option.some.injEq] at h
    subst h
    exact body_name fields (contentLoaders fields) _ [] path position

end Load

namespace Names

/-! ## Definitions without a name -/

/-- Names given to definitions that the document does not name start like their components'. -/
def Traced (app : App) (names : Assigned) : Prop :=
  ∀ p ∈ names, ∀ c ∈ app.components, ∀ d ∈ c.definitions, d.head.position = p.1 → d.head.name = none →
    ∃ name, c.head.name = some name ∧ (Text.toIdentifier name).toList <+: p.2.toList

theorem Traced.give {app : App} {names : Assigned} (h : Traced app names) {position : List Nat} {given : String}
    (hgiven : ∀ c ∈ app.components, ∀ d ∈ c.definitions, d.head.position = position → d.head.name = none →
      ∃ name, c.head.name = some name ∧ (Text.toIdentifier name).toList <+: given.toList) :
    Traced app (names.give position given) := by
  unfold Assigned.give
  split
  · exact h
  · intro p hp
    rcases List.mem_append.1 hp with hp | hp
    · exact h p hp
    · obtain rfl := List.mem_singleton.1 hp
      exact hgiven

section

variable {document : Json} {app : App} (hload : Load.app document = .ok app)

include hload

theorem eq_of_position {c d e : Node} (hc : c ∈ app.components) (hd : d ∈ c.definitions) (he : e ∈ app.nodes)
    (h : d.head.position = e.head.position) : d = e :=
  List.inj_on_of_nodup_map (Load.app_positions_nodup hload)
    (List.mem_flatMap.2 ⟨c, hc, List.mem_of_mem_filter hd⟩) he h

/-- The first round names only definitions that the document names. -/
theorem explicitNames_traced : Traced app (explicitNames app {}).naming.names := by
  refine List.foldlRecOn (motive := fun s : Explicit => Traced app s.naming.names) _ nameExplicit (by simp [Traced]) ?_
  intro s hs o ho
  obtain ⟨-, hstep⟩ | ⟨_, _, -, -, hstep⟩ | ⟨name, hname, -, hstep⟩ := nameExplicit_cases s o
  · rwa [hstep]
  · rw [hstep]
    exact hs
  · rw [hstep]
    refine hs.give fun c hc d hd hposition hnone => ?_
    obtain ⟨hcomponent, hdefinition⟩ := mem_ownedDefinitions.1 ho
    have hnode : o.definition ∈ app.nodes :=
      List.mem_flatMap.2 ⟨o.component, List.mem_of_getElem? hcomponent, List.mem_of_mem_filter hdefinition⟩
    -- a definition at this position is the one just named
    rw [eq_of_position hload hc hd hnode hposition, hname] at hnone
    cases hnone

theorem nameAnonymous_traced {c d : Node} (hc : c ∈ app.components) (hd : d ∈ c.nodes) {name ownerName : String}
    (hname : c.head.name = some name) (howner : (Text.toIdentifier name).toList <+: ownerName.toList)
    {s : NameTable × Naming} (h : Traced app s.2.names) : Traced app (nameAnonymous c ownerName s d).2.names := by
  unfold nameAnonymous
  dsimp only
  split
  · exact h
  · -- the position is that of `d` alone, so a definition that stands there belongs to `c`
    refine h.give fun c' hc' d' hd' hposition _ => ?_
    obtain rfl := eq_of_position hload hc' hd' (List.mem_flatMap.2 ⟨c, hc, hd⟩) hposition
    obtain rfl : c' = c := by
      obtain ⟨i, hi⟩ := List.getElem?_of_mem hc'
      obtain ⟨j, hj⟩ := List.getElem?_of_mem hc
      obtain rfl := App.component_unique hload hi hj (List.mem_of_mem_filter hd') hd
      exact Option.some.inj (hi.symm.trans hj)
    obtain ⟨suffix, hpick, -⟩ :=
      s.1.identifiers.pick_suffix (ownerName ++ "Part" ++ relativePosition c'.head d'.head)
    refine ⟨name, hname, howner.trans ?_⟩
    rw [NameTable.claim, Registry.claim, hpick]
    simp only [String.toList_append, List.append_assoc]
    exact List.prefix_append _ _

variable {table : NameTable} (hnames : (resolve app {}).outcome = .ok table)

include hnames

theorem nameOf_named {d : Node} (hd : d ∈ app.definitions) {name : String} (hname : d.head.name = some name) :
    ∃ id, (resolve app {}).naming.nameOf d.head = some id ∧ (Text.toIdentifier name).toList <+: id.toList := by
  rcases nameOf_explicit hload hnames hd hname with h | ⟨n, -, h⟩
  · exact ⟨_, h, List.prefix_refl _⟩
  · refine ⟨_, h, ?_⟩
    rw [String.toList_append]
    exact List.prefix_append _ _

/-- The second round names definitions after their components, which have their names since
the first. -/
theorem anonymousNames_traced :
    Traced app (anonymousNames app (explicitNames app {}).table (explicitNames app {}).naming).2.names := by
  have hexplicit := explicitNames_named (resolve_eq_ok hnames).1
  refine (List.foldlRecOn (motive := fun s : NameTable × Naming =>
    (explicitNames app {}).naming.names <+: s.2.names ∧ Traced app s.2.names) _ nameInline
    ⟨List.prefix_refl _, explicitNames_traced hload⟩ ?_).2
  rintro s ⟨hgrows, hs⟩ c hc
  refine ⟨hgrows.trans (nameInline_grows s c), ?_⟩
  have hdefinition : c ∈ app.definitions :=
    List.mem_flatMap.2 ⟨c, hc, List.mem_filter.2 ⟨List.mem_cons_self, (Load.app_components hload c hc).1⟩⟩
  obtain ⟨name, hname⟩ := Option.isSome_iff_exists.1 (Load.app_components hload c hc).2
  obtain ⟨id, hid, hprefix⟩ := nameOf_named hload hnames hdefinition hname
  obtain ⟨given, hgiven⟩ := Option.isSome_iff_exists.1 (hexplicit c hdefinition (by rw [hname]; rfl))
  have hfinal : (resolve app {}).naming.nameOf c.head = some given := (resolve_grows hnames).1.lookup_eq_some hgiven
  obtain rfl := Option.some.inj (hid.symm.trans hfinal)
  have hnow : s.2.nameOf c.head = some id := hgrows.lookup_eq_some hgiven
  unfold nameInline
  rw [hnow]
  refine List.foldlRecOn (motive := fun t : NameTable × Naming => Traced app t.2.names) _ _ hs fun t ht d hd => ?_
  have hdc : d ∈ c.nodes := List.mem_of_mem_drop (List.mem_of_mem_filter hd)
  exact nameAnonymous_traced hload hc hdc hname hprefix ht

/-- The resolved name of a definition starts with the cleaned name of the document: its own,
or that of its component if it has none. -/
theorem nameOf_starts {c d : Node} (hc : c ∈ app.components) (hd : d ∈ c.definitions) :
    ∃ name id, d.head.name.or c.head.name = some name ∧ (resolve app {}).naming.nameOf d.head = some id ∧
      (Text.toIdentifier name).toList <+: id.toList := by
  have hdefinition : d ∈ app.definitions := List.mem_flatMap.2 ⟨c, hc, hd⟩
  cases hname : d.head.name with
  | some name =>
    obtain ⟨id, hid, hprefix⟩ := nameOf_named hload hnames hdefinition hname
    exact ⟨name, id, rfl, hid, hprefix⟩
  | none =>
    have hnamed := resolve_named hnames fun c hc => (Load.app_components hload c hc).2
    obtain ⟨id, hid⟩ := Option.isSome_iff_exists.1 (hnamed d hdefinition)
    obtain ⟨named, s, hanonymous, -, hs, hr, -⟩ := resolve_rounds hnames
    have htraced := anonymousNames_traced hload hnames
    rw [hanonymous] at htraced
    have hmem := mem_of_lookup (show (resolve app {}).naming.names.lookup d.head.position = some id from hid)
    rw [hr, hs.names] at hmem
    obtain ⟨name, hcomponent, hprefix⟩ := htraced _ hmem c hc d hd rfl hname
    exact ⟨name, id, by rw [hcomponent]; rfl, hid, hprefix⟩

/-- The resolved name of a definition starts with a lower-case letter exactly if the name of
the document does that it is made from. -/
theorem nameOf_startsLower {c d : Node} (hc : c ∈ app.components) (hd : d ∈ c.definitions) :
    ∃ name id, d.head.name.or c.head.name = some name ∧ (resolve app {}).naming.nameOf d.head = some id ∧
      Text.startsLower id = Text.startsLower name := by
  obtain ⟨name, id, hname, hid, hprefix⟩ := nameOf_starts hload hnames hc hd
  have htrimmed : Text.trim name = name := by
    have hall := Load.app_forall Load.built_names hload
    rcases Option.or_eq_some_iff.1 hname with hown | ⟨-, hcomponent⟩
    · exact hall d (List.mem_flatMap.2 ⟨c, hc, List.mem_of_mem_filter hd⟩) name hown
    · exact hall c (List.mem_flatMap.2 ⟨c, hc, List.mem_cons_self⟩) name hcomponent
  refine ⟨name, id, hname, hid, ?_⟩
  rw [Text.startsLower_of_prefix (Text.isIdentifier_toIdentifier name) hprefix, Text.startsLower_toIdentifier htrimmed]

end

end Names

end ViewTree
