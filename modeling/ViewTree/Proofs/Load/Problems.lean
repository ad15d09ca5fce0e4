import ViewTree.Proofs.Load.Addresses
import ViewTree.Proofs.Load.Formats

/-!
# The problems of a document

A document with an array of components has the problems of its own fields, then those of
each component in turn, then those found once all is read: style entries under formats
that are not declared, and a root component that is not. The block of a component is what
loading it alone notes, and stands at places in that component. So no component changes
what is said of another (`load_problems`).
-/

namespace ViewTree.Load

/-! ## Described without the run -/

/-- The problems of a document; none if it loads. -/
def problemsOf (document : Json) : List Problem :=
  match app document with
  | .ok _ => []
  | .error problems => problems

/-- The problems that loading a component alone notes. -/
def componentProblems (v : Json) (i : Nat) : List Problem :=
  (definition v (componentPath i) [i]).notes.problems

/-- Whether a document declares a style format, and nothing is wrong with the declaration. -/
def declares (fields : Keyed Json) (format : String) : Bool :=
  match fields.lookup "styleFormats" with
  | some (.object entries) =>
    entries.any fun (name, v) =>
      name == format && (formatPredicate v (field "styleFormats" name)).notes.problems.isEmpty
  | _ => false

/-- One problem for each reference to a format that is not declared. -/
def undeclaredFormats (fields : Keyed Json) (uses : List FormatUse) : List Problem :=
  (uses.filter fun u => !declares fields u.format).map fun u =>
    { rule := .knownFormat, cause := .unknownFormat u.format, path := u.path }

/-- The name of a component, if it has one. -/
def definedName (v : Json) : Option String :=
  match v with
  | .object fields => (nonBlank? (fields.lookup "name")).map Text.trim
  | _ => none

/-- The problem of a root component that no component is named as. -/
def undeclaredRoot (fields : Keyed Json) (items : List Json) : List Problem :=
  match fields.lookup "rootComponent" with
  | some (.string name) =>
    if items.any fun v => definedName v == some name then []
    else [{ rule := .knownRoot, cause := .unknownRoot name, path := "rootComponent" }]
  | _ => []

/-- The problems found once all components are read. -/
def finalProblems (fields : Keyed Json) (items : List Json) : List Problem :=
  undeclaredFormats fields (items.zipIdx.flatMap fun (v, i) => definitionFormats v (componentPath i)) ++
    undeclaredRoot fields items

/-- Whether a place is in another one. -/
def isUnder (path place : String) : Bool := path.toList.isPrefixOf place.toList

/-! ## Places -/

theorem region_everywhere : Region fun _ => True := ⟨fun _ _ => trivial, fun _ _ => trivial⟩

theorem isUnder_iff {path place : String} : isUnder path place = true ↔ path.toList <+: place.toList :=
  List.isPrefixOf_iff_prefix

theorem isUnder_self (path : String) : isUnder path path = true := isUnder_iff.2 (List.prefix_refl _)

theorem region_under (path : String) : Region fun place => isUnder path place = true where
  field key h := by
    rw [isUnder_iff] at h ⊢
    rw [toList_field]
    exact h.trans (List.prefix_append _ _)
  item i h := by
    rw [isUnder_iff] at h ⊢
    rw [toList_item]
    exact h.trans (List.prefix_append _ _)

/-- No place is in two components. -/
theorem component_eq_of_isUnder {i j : Nat} {place : String} (hi : isUnder (componentPath i) place = true)
    (hj : isUnder (componentPath j) place = true) : i = j := by
  by_contra hne
  exact precedes_item "components" hne _ _ (isUnder_iff.1 hi) (isUnder_iff.1 hj) rfl

/-- The places of the fields of a document other than its components. -/
def Elsewhere (place : String) : Prop := place.toList.head? ≠ some 'c'

instance (place : String) : Decidable (Elsewhere place) := inferInstanceAs (Decidable (_ ≠ _))

theorem region_elsewhere : Region Elsewhere where
  field {path} key h := by
    unfold Elsewhere at h ⊢
    rw [toList_field]
    cases hp : path.toList with
    | nil => simp
    | cons c cs => simpa [hp] using h
  item {path} i h := by
    unfold Elsewhere at h ⊢
    rw [toList_item]
    cases hp : path.toList with
    | nil => simp
    | cons c cs => simpa [hp] using h

theorem isUnder_of_elsewhere {i : Nat} {place : String} (h : Elsewhere place) :
    isUnder (componentPath i) place = false := by
  rw [Bool.eq_false_iff]
  intro hunder
  obtain ⟨rest, hrest⟩ := isUnder_iff.1 hunder
  rw [componentPath, toList_item] at hrest
  refine h ?_
  rw [← hrest]
  simp

/-! ## The other fields -/

theorem quiet_objectField {α : Type} {load : Json → String → Load (Option α)} {key : String} (h : Elsewhere key)
    (hload : ∀ v path, Elsewhere path → Quiet Elsewhere (load v path)) (fields : Keyed Json) :
    Quiet Elsewhere (objectField fields key load) := by
  unfold objectField
  split
  · exact quiet_pure _
  · exact quiet_pure _
  · refine quiet_eachSome fun (name, v) _ => ?_
    exact Quiet.bind (hload v _ (region_elsewhere.field name h)) fun _ => quiet_pure _
  · exact Quiet.bind (quiet_problem h _ _) fun _ => quiet_pure _

theorem quiet_documentType (fields : Keyed Json) : Quiet Elsewhere (documentType fields) := by
  unfold documentType
  split
  · exact quiet_pure _
  · exact quiet_pure _
  · exact quiet_pure _
  · exact quiet_problem (by decide) _ _

theorem quiet_platform (fields : Keyed Json) : Quiet Elsewhere (platform fields) := by
  refine Quiet.bind (quiet_optionalString region_elsewhere (by decide) fields "platform") fun name => ?_
  split
  · exact quiet_pure _
  · split
    · exact quiet_pure _
    · exact quiet_fail (by decide) _ _

theorem quiet_version (v : Json) (path : String) (h : Elsewhere path) : Quiet Elsewhere (version v path) := by
  unfold version
  split
  · exact quiet_pure _
  · exact quiet_fail h _ _

theorem quiet_appImports (fields : Keyed Json) : Quiet Elsewhere (appImports fields) := by
  unfold appImports
  split
  · exact quiet_imports region_elsewhere (by decide) _
  · exact quiet_pure _

/-- The other fields refer to no format, and their problems are in no component. -/
theorem quiet_appFields (fields : Keyed Json) : Quiet Elsewhere (appFields fields) := by
  have hstring : ∀ key, Quiet Elsewhere (optionalString fields key "$") :=
    quiet_optionalString region_elsewhere (by decide) fields
  have hpredicate : ∀ v path, Elsewhere path → Quiet Elsewhere (formatPredicate v path) :=
    fun v path h => quiet_formatPredicate region_elsewhere h v
  refine Quiet.bind (quiet_documentType fields) fun _ => ?_
  refine Quiet.bind (hstring "name") fun name => ?_
  refine Quiet.bind (quiet_platform fields) fun platform => ?_
  refine Quiet.bind (quiet_objectField (by decide) quiet_version fields) fun dependencies => ?_
  refine Quiet.bind (quiet_appImports fields) fun imports => ?_
  refine Quiet.bind (hstring "styleSheet") fun styleSheet => ?_
  refine Quiet.bind (hstring "styleModule") fun styleModule => ?_
  refine Quiet.bind (quiet_objectField (by decide) hpredicate fields) fun styleFormats => ?_
  exact Quiet.bind (hstring "rootComponent") fun rootComponent => quiet_pure _

/-- The components have no part in how the other fields are loaded. -/
theorem appFields_congr {fields changed : Keyed Json}
    (h : ∀ key, key ≠ "components" → changed.lookup key = fields.lookup key) :
    appFields changed = appFields fields := by
  simp only [appFields, documentType, platform, objectField, appImports, optionalString, h "type" (by decide),
    h "name" (by decide), h "platform" (by decide), h "dependencies" (by decide), h "imports" (by decide),
    h "styleSheet" (by decide), h "styleModule" (by decide), h "styleFormats" (by decide),
    h "rootComponent" (by decide)]

/-! ## The components -/

theorem componentItems_problems (items : List Json) (i : Nat) :
    (componentItems items i).notes.problems = (items.zipIdx i).flatMap fun (v, i) => componentProblems v i := by
  induction items generalizing i with
  | nil => rfl
  | cons v more ih =>
    rw [componentItems, List.zipIdx_cons, List.flatMap_cons, ← ih (i + 1)]
    simp only [Noted.notes_bind, Noted.notes_pure, Log.problems_append, Log.problems_empty, List.append_nil,
      componentProblems]

theorem componentItems_formats (items : List Json) (i : Nat) :
    (componentItems items i).notes.formats =
      (items.zipIdx i).flatMap fun (v, i) => definitionFormats v (componentPath i) := by
  induction items generalizing i with
  | nil => rfl
  | cons v more ih =>
    have hv : Notes (fun _ => True) (definitionFormats v (componentPath i)) (definition v (componentPath i) [i]) :=
      notes_definition region_everywhere v trivial [i]
    rw [componentItems, List.zipIdx_cons, List.flatMap_cons, ← ih (i + 1)]
    simp only [Noted.notes_bind, Noted.notes_pure, Log.formats_append, Log.formats_empty, List.append_nil, hv.formats]

theorem componentItems_names (items : List Json) (i : Nat) (name : String) :
    ((componentItems items i).value.any fun c => c.head.name == some name) =
      items.any fun v => definedName v == some name := by
  induction items generalizing i with
  | nil => rfl
  | cons v more ih =>
    rw [componentItems, List.any_cons, ← ih (i + 1)]
    simp only [Noted.value_bind, Noted.value_pure, List.any_append]
    congr 1
    cases v with
    | object fields =>
      rw [definition_value, Option.toList_some, List.any_cons, List.any_nil, Bool.or_false]
      rfl
    | _ => rfl

theorem components_eq {fields : Keyed Json} {items : List Json}
    (h : fields.lookup "components" = some (.array items)) : components fields = componentItems items 0 := by
  unfold components
  rw [h]

/-! ## The final checks -/

theorem conditions_isSome (path : String) (entries : Keyed Json) (p : Predicate) :
    (conditions path entries p).value.isSome = (conditions path entries p).notes.problems.isEmpty := by
  induction entries generalizing p with
  | nil => rfl
  | cons e entries ih =>
    obtain ⟨key, value⟩ := e
    rw [conditions]
    split
    · exact ih _
    · rfl

/-- A format that is declared without a problem has a predicate, and no other has. -/
theorem formatPredicate_isSome (v : Json) (path : String) :
    (formatPredicate v path).value.isSome = (formatPredicate v path).notes.problems.isEmpty := by
  unfold formatPredicate
  split
  · rename_i fields
    have hconditions := conditions_isSome path fields {}
    simp only [Noted.value_bind, Noted.notes_bind, Log.problems_append]
    cases hp : (conditions path fields {}).value with
    | none =>
      rw [hp, Option.isSome_none] at hconditions
      simp [← hconditions]
    | some p =>
      rw [hp, Option.isSome_some] at hconditions
      rw [List.isEmpty_iff.1 hconditions.symm, List.nil_append]
      dsimp only
      split
      · rfl
      · rfl
  · rfl

theorem declared_has (entries : Keyed Json) (format : String) :
    Keyed.has (Noted.eachSome (fun (name, v) => do
      let loaded ← formatPredicate v (field "styleFormats" name)
      pure (loaded.map fun a => (name, a))) entries : Load (Keyed Predicate)).value format =
      entries.any fun (name, v) =>
        name == format && (formatPredicate v (field "styleFormats" name)).notes.problems.isEmpty := by
  simp only [Noted.eachSome, Noted.value_bind, Noted.value_pure, Noted.value_each, ← formatPredicate_isSome]
  induction entries with
  | nil => rfl
  | cons e entries ih =>
    obtain ⟨name, v⟩ := e
    rw [List.any_cons, ← ih, List.map_cons]
    dsimp only
    cases (formatPredicate v (field "styleFormats" name)).value with
    | none => simp
    | some p =>
      rw [Option.map_some]
      show Option.isSome (List.lookup format ((name, p) :: List.filterMap id _)) = _
      rw [List.lookup_cons]
      by_cases hname : format = name
      · simp [hname]
      · rw [beq_eq_false_iff_ne.2 hname, beq_eq_false_iff_ne.2 (Ne.symm hname)]
        simp [Keyed.has]

theorem appFields_declares (fields : Keyed Json) (format : String) :
    (appFields fields).value.styleFormats.has format = declares fields format := by
  show (objectField fields "styleFormats" formatPredicate).value.has format = declares fields format
  unfold objectField declares
  cases fields.lookup "styleFormats" with
  | none => rfl
  | some v =>
    cases v with
    | object entries => exact declared_has entries format
    | _ => rfl

theorem unknownFormats_eq (fields : Keyed Json) (uses : List FormatUse) :
    unknownFormats (appFields fields).value.styleFormats uses = undeclaredFormats fields uses := by
  simp only [unknownFormats, undeclaredFormats, appFields_declares]

theorem unknownRoot_eq (fields : Keyed Json) (items : List Json) :
    unknownRoot (appFields fields).value.rootComponent (componentItems items 0).value = undeclaredRoot fields items := by
  have hroot : (appFields fields).value.rootComponent = (optionalString fields "rootComponent" "$").value := rfl
  rw [hroot]
  unfold optionalString undeclaredRoot
  cases fields.lookup "rootComponent" with
  | none => rfl
  | some v =>
    cases v with
    | string name => simp only [unknownRoot, Noted.value_pure, componentItems_names]
    | _ => rfl

theorem problemsOf_object (fields : Keyed Json) : problemsOf (.object fields) = (appOfFields fields).2 := by
  unfold problemsOf app
  dsimp only
  cases appOfFields fields with
  | mk found problems =>
    cases problems with
    | nil => rfl
    | cons p ps => rfl

/-! ## Blocks -/

/-- The block of one item stands between those of the items before and after it. -/
theorem flatMap_zipIdx_split {α β : Type} (block : α → Nat → List β) {l : List α} {i : Nat} (h : i < l.length) :
    (l.zipIdx.flatMap fun (a, j) => block a j) =
      ((l.take i).zipIdx.flatMap fun (a, j) => block a j) ++ block l[i] i ++
        (((l.drop (i + 1)).zipIdx (i + 1)).flatMap fun (a, j) => block a j) := by
  have hlength : (l.take i).length = i := List.length_take_of_le h.le
  conv_lhs => rw [← List.take_append_drop i l, List.drop_eq_getElem_cons h]
  rw [List.zipIdx_append, hlength, List.zipIdx_cons, List.flatMap_append, List.flatMap_cons, Nat.zero_add,
    List.append_assoc]

/-- Of blocks in the components, those at places in one component are its own. -/
theorem filter_blocks (block : Json → Nat → List Problem) {items : List Json} {i : Nat} (h : i < items.length)
    (hblock : ∀ v j, ∀ p ∈ block v j, isUnder (componentPath j) p.path = true) :
    (items.zipIdx.flatMap fun (v, j) => block v j).filter (fun p => isUnder (componentPath i) p.path) =
      block items[i] i := by
  -- the blocks before and after are at places in other components
  have hother : ∀ v j, j ≠ i → (block v j).filter (fun p => isUnder (componentPath i) p.path) = [] := by
    intro v j hj
    rw [List.filter_eq_nil_iff]
    intro p hp hi
    exact hj (component_eq_of_isUnder (hblock v j p hp) hi)
  rw [flatMap_zipIdx_split block h, List.filter_append, List.filter_append, List.filter_flatMap, List.filter_flatMap,
    List.filter_eq_self.2 (hblock items[i] i), List.flatMap_eq_nil_iff.2, List.flatMap_eq_nil_iff.2,
    List.nil_append, List.append_nil]
  · rintro ⟨v, j⟩ hv
    have := (List.mem_zipIdx hv).1
    exact hother v j (by omega)
  · rintro ⟨v, j⟩ hv
    have := (List.mem_zipIdx hv).2.1
    rw [List.length_take_of_le h.le] at this
    exact hother v j (by omega)

theorem componentProblems_under (v : Json) (i : Nat) :
    ∀ p ∈ componentProblems v i, isUnder (componentPath i) p.path = true :=
  (notes_definition (region_under (componentPath i)) v (isUnder_self _) [i]).problems

theorem undeclaredFormats_under (fields : Keyed Json) (v : Json) (i : Nat) :
    ∀ p ∈ undeclaredFormats fields (definitionFormats v (componentPath i)), isUnder (componentPath i) p.path = true := by
  intro p hp
  obtain ⟨u, hu, rfl⟩ := List.mem_map.1 hp
  exact (notes_definition (region_under (componentPath i)) v (isUnder_self _) [i]).places u (List.mem_of_mem_filter hu)

theorem undeclaredFormats_flatMap {α : Type} (fields : Keyed Json) (uses : α → List FormatUse) (l : List α) :
    undeclaredFormats fields (l.flatMap uses) = l.flatMap fun a => undeclaredFormats fields (uses a) := by
  simp only [undeclaredFormats, List.filter_flatMap, List.map_flatMap]

theorem undeclaredRoot_elsewhere (fields : Keyed Json) (items : List Json) :
    ∀ p ∈ undeclaredRoot fields items, Elsewhere p.path := by
  intro p hp
  unfold undeclaredRoot at hp
  split at hp
  · split at hp
    · exact absurd hp List.not_mem_nil
    · rw [List.mem_singleton.1 hp]
      exact (by decide : Elsewhere "rootComponent")
  · exact absurd hp List.not_mem_nil

theorem filter_elsewhere {ps : List Problem} (h : ∀ p ∈ ps, Elsewhere p.path) (i : Nat) :
    ps.filter (fun p => isUnder (componentPath i) p.path) = [] := by
  rw [List.filter_eq_nil_iff]
  intro p hp
  rw [isUnder_of_elsewhere (h p hp)]
  decide

/-! ## The whole document -/

section
variable {fields : Keyed Json} {items : List Json} (h : fields.lookup "components" = some (.array items))
include h

theorem problemsOf_eq :
    problemsOf (.object fields) =
      (appFields fields).notes.problems ++ (items.zipIdx.flatMap fun (v, i) => componentProblems v i) ++
        finalProblems fields items := by
  rw [problemsOf_object]
  simp only [appOfFields, components_eq h, Log.problems_append, Log.formats_append, (quiet_appFields fields).formats,
    List.nil_append, componentItems_problems, componentItems_formats, unknownFormats_eq, unknownRoot_eq, finalProblems,
    List.append_assoc]

theorem filter_problemsOf {i : Nat} (hi : i < items.length) :
    (problemsOf (.object fields)).filter (fun p => isUnder (componentPath i) p.path) =
      componentProblems items[i] i ++ undeclaredFormats fields (definitionFormats items[i] (componentPath i)) := by
  have hown := filter_elsewhere (quiet_appFields fields).problems i
  have hblocks := filter_blocks componentProblems hi componentProblems_under
  have hformats := filter_blocks (fun v j => undeclaredFormats fields (definitionFormats v (componentPath j))) hi
    (undeclaredFormats_under fields)
  have hroot := filter_elsewhere (undeclaredRoot_elsewhere fields items) i
  rw [problemsOf_eq h, finalProblems, undeclaredFormats_flatMap]
  simp only [List.filter_append, hown, hroot, List.nil_append, List.append_nil]
  rw [hblocks, hformats]

section
variable {changed : Keyed Json} {i : Nat} {w : Json}
  (hchanged : changed.lookup "components" = some (.array (items.set i w)))
  (hsame : ∀ key, key ≠ "components" → changed.lookup key = fields.lookup key)
include hchanged hsame

theorem problemsOf_replaced (hi : i < items.length) :
    ∃ before after,
      problemsOf (.object fields) = before ++ componentProblems items[i] i ++ after ++ finalProblems fields items ∧
        problemsOf (.object changed) =
          before ++ componentProblems w i ++ after ++ finalProblems changed (items.set i w) := by
  have hi' : i < (items.set i w).length := by rwa [List.length_set]
  refine ⟨(appFields fields).notes.problems ++ (items.take i).zipIdx.flatMap fun (v, i) => componentProblems v i,
    ((items.drop (i + 1)).zipIdx (i + 1)).flatMap fun (v, i) => componentProblems v i, ?_, ?_⟩
  · rw [problemsOf_eq h, flatMap_zipIdx_split componentProblems hi]
    simp only [List.append_assoc]
  · rw [problemsOf_eq hchanged, appFields_congr hsame, flatMap_zipIdx_split componentProblems hi',
      List.getElem_set_self, List.take_set_of_le (Nat.le_refl i), List.drop_set_of_lt (Nat.lt_succ_self i)]
    simp only [List.append_assoc]

theorem filter_replaced {j : Nat} (hj : j < items.length) (hne : j ≠ i) :
    (problemsOf (.object changed)).filter (fun p => isUnder (componentPath j) p.path) =
      (problemsOf (.object fields)).filter fun p => isUnder (componentPath j) p.path := by
  have hj' : j < (items.set i w).length := by rwa [List.length_set]
  have hdeclares : ∀ format, declares changed format = declares fields format := by
    intro format
    rw [declares, hsame "styleFormats" (by decide), declares]
  rw [filter_problemsOf hchanged hj', filter_problemsOf h hj, List.getElem_set_ne hne.symm]
  simp only [undeclaredFormats, hdeclares]

end

end

/-- A document has the problems of its other fields, those of each component, one for each
reference to a format that is not declared, and that of its root component, in this order.
Those at places in a component are its own and those of its references. If a component is
replaced, all stays but its own block and what is found at the end, and nothing is said
otherwise of another component. -/
theorem load_problems {fields : Keyed Json} {items : List Json}
    (h : fields.lookup "components" = some (.array items)) :
    problemsOf (.object fields) =
        (appFields fields).notes.problems ++ (items.zipIdx.flatMap fun (v, i) => componentProblems v i) ++
          finalProblems fields items ∧
      (∀ i (hi : i < items.length),
        (problemsOf (.object fields)).filter (fun p => isUnder (componentPath i) p.path) =
          componentProblems items[i] i ++ undeclaredFormats fields (definitionFormats items[i] (componentPath i))) ∧
      ∀ i (hi : i < items.length) (w : Json) (changed : Keyed Json),
        changed.lookup "components" = some (.array (items.set i w)) →
        (∀ key, key ≠ "components" → changed.lookup key = fields.lookup key) →
        (∃ before after,
          problemsOf (.object fields) = before ++ componentProblems items[i] i ++ after ++ finalProblems fields items ∧
            problemsOf (.object changed) =
              before ++ componentProblems w i ++ after ++ finalProblems changed (items.set i w)) ∧
          ∀ j < items.length, j ≠ i →
            (problemsOf (.object changed)).filter (fun p => isUnder (componentPath j) p.path) =
              (problemsOf (.object fields)).filter fun p => isUnder (componentPath j) p.path := by
  refine ⟨problemsOf_eq h, fun i hi => filter_problemsOf h hi, fun i hi w changed hchanged hsame => ?_⟩
  exact ⟨problemsOf_replaced h hchanged hsame hi, fun j hj hne => filter_replaced h hchanged hsame hj hne⟩

/-- A format without conditions, a root component that is missing, and the components. -/
def faultyFields (items : List Json) : Keyed Json :=
  [("styleFormats", .object [("wide", .object [])]), ("rootComponent", .string "Main"), ("components", .array items)]

/-- A child without a type in a component without a name, a style under the format, and what
is no component. -/
def faultyItems : List Json :=
  [.object [("children", .object [])],
    .object [("name", .string "App"), ("style", .object [("format", .string "wide"), ("style", .object [])])],
    .null]

theorem load_problems_faulty :
    (problemsOf (.object (faultyFields faultyItems))).map (fun p => p.path) =
        ["styleFormats.wide", "components[0]", "components[0].children[0]", "components[2]", "components[1].style",
          "rootComponent"] ∧
      (problemsOf (.object (faultyFields faultyItems))).filter (fun p => isUnder (componentPath 1) p.path) =
        [{ rule := .knownFormat, cause := .unknownFormat "wide", path := "components[1].style" }] ∧
      ∃ before after,
        problemsOf (.object (faultyFields faultyItems)) =
            before ++ componentProblems (.object [("children", .object [])]) 0 ++ after ++
              finalProblems (faultyFields faultyItems) faultyItems ∧
          problemsOf (.object (faultyFields (faultyItems.set 0 .null))) =
            before ++ componentProblems .null 0 ++ after ++
              finalProblems (faultyFields (faultyItems.set 0 .null)) (faultyItems.set 0 .null) := by
  have hcomponents : (faultyFields faultyItems).lookup "components" = some (.array faultyItems) := rfl
  have hchanged : (faultyFields (faultyItems.set 0 .null)).lookup "components" = some (.array (faultyItems.set 0 .null)) :=
    rfl
  have hsame : ∀ key, key ≠ "components" →
      (faultyFields (faultyItems.set 0 .null)).lookup key = (faultyFields faultyItems).lookup key := by
    intro key hkey
    simp [faultyFields, List.lookup_cons, beq_eq_false_iff_ne.2 hkey]
  obtain ⟨-, hplaces, hreplaced⟩ := load_problems hcomponents
  refine ⟨by decide +kernel, ?_, (hreplaced 0 (by decide) .null _ hchanged hsame).1⟩
  rw [hplaces 1 (by decide)]
  rfl

end ViewTree.Load
