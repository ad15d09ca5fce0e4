import ViewTree.Proofs.Load.Nodes

/-!
# The objects that nodes are loaded from

An object of a document stands for a node if it is one of the components, or among the
children of an object that does, or among what an object of type `If` shows otherwise. A
document that loads gives a node for each of them and no others, with the props and the
style of the object and below it the nodes of the objects below. So what can be said of a
node as well as of its object holds of all nodes exactly if it holds of all objects
(`app_nodes_iff_objects`).
-/

namespace ViewTree

/-- The values of a field that may be one value or an array of them. -/
def fieldItems : Option Json → List Json
  | none => []
  | some (.array items) => items
  | some v => [v]

/-- The entries of a field that may be missing. -/
def fieldEntries : Option Json → List Json
  | some .null => []
  | v => fieldItems v

/-- Whether an object names a type. -/
def hasType (o : Keyed Json) (type : String) : Bool :=
  match o.lookup "type" with
  | some (.string t) => t == type
  | _ => false

/-- The values below an object that stands for a node: its children, and what it shows
otherwise if it has a condition. -/
def valuesBelow (isDefinition : Bool) (o : Keyed Json) : List Json :=
  fieldItems (o.lookup "children") ++ if !isDefinition && hasType o "If" then fieldItems (o.lookup "else") else []

/-- An object of a document that stands for a node, and whether that is a definition. -/
inductive NodeObject (document : Json) : (isDefinition : Bool) → Keyed Json → Prop
  | component {fields : Keyed Json} {items : List Json} {o : Keyed Json} :
    document = .object fields → fields.lookup "components" = some (.array items) → .object o ∈ items →
      NodeObject document true o
  | inner {isDefinition : Bool} {above o : Keyed Json} :
    NodeObject document isDefinition above → .object o ∈ valuesBelow isDefinition above →
      NodeObject document (hasType o "Component") o

namespace Load

/-- A step and what follows it find no problem exactly if neither does. -/
theorem problems_bind {α β : Type} {x : Load α} {f : α → Load β} :
    (x >>= f).notes.problems = [] ↔ x.notes.problems = [] ∧ (f x.value).notes.problems = [] := by
  rw [Noted.notes_bind, Log.problems_append, List.append_eq_nil_iff]

/-! ## Values loaded one by one -/

section
variable {ρ β : Type} {load : Json → ρ → Load (Option β)}

/-- What a list of values is loaded as, each at a place of its own and without a problem. -/
def LoadedAs (load : Json → ρ → Load (Option β)) (values : List Json) (results : List β) : Prop :=
  ∃ placed : List (Json × ρ), placed.map Prod.fst = values ∧
    results = placed.filterMap (fun p => (load p.1 p.2).value) ∧ ∀ p ∈ placed, (load p.1 p.2).notes.problems = []

theorem loadedAs_nil : LoadedAs load [] [] := ⟨[], rfl, rfl, by simp⟩

theorem loadedAs_single (load : Json → ρ → Load (Option β)) (v : Json) (place : ρ)
    (h : (load v place).notes.problems = []) :
    LoadedAs load [v] (load v place).value.toList := by
  refine ⟨[(v, place)], rfl, ?_, by simpa using h⟩
  rw [List.filterMap_cons, List.filterMap_nil]
  cases (load v place).value <;> rfl

theorem LoadedAs.append {us vs : List Json} {as bs : List β} (ha : LoadedAs load us as) (hb : LoadedAs load vs bs) :
    LoadedAs load (us ++ vs) (as ++ bs) := by
  obtain ⟨places, rfl, rfl, hfine⟩ := ha
  obtain ⟨more, rfl, rfl, hmore⟩ := hb
  refine ⟨places ++ more, List.map_append, List.filterMap_append.symm, fun p hp => ?_⟩
  rcases List.mem_append.1 hp with hp | hp
  · exact hfine p hp
  · exact hmore p hp

/-- Every result comes from one of the values. -/
theorem LoadedAs.of_result {values : List Json} {results : List β} (h : LoadedAs load values results) {b : β}
    (hb : b ∈ results) : ∃ v ∈ values, ∃ place, (load v place).value = some b ∧ (load v place).notes.problems = [] := by
  obtain ⟨placed, rfl, rfl, hfine⟩ := h
  obtain ⟨⟨v, place⟩, hp, hvalue⟩ := List.mem_filterMap.1 hb
  exact ⟨v, List.mem_map_of_mem hp, place, hvalue, hfine _ hp⟩

/-- Every value gives its result, if it has one. -/
theorem LoadedAs.of_value {values : List Json} {results : List β} (h : LoadedAs load values results) {v : Json}
    (hv : v ∈ values) :
    ∃ place, (load v place).notes.problems = [] ∧ ∀ b, (load v place).value = some b → b ∈ results := by
  obtain ⟨placed, rfl, rfl, hfine⟩ := h
  obtain ⟨⟨v, place⟩, hp, rfl⟩ := List.mem_map.1 hv
  exact ⟨place, hfine _ hp, fun b hb => List.mem_filterMap.2 ⟨_, hp, hb⟩⟩

/-- What can be said of a result as well as of its value. -/
theorem LoadedAs.forall_iff {values : List Json} {results : List β} (h : LoadedAs load values results) {P : β → Prop}
    {Q : Json → Prop}
    (hload : ∀ v place, (load v place).notes.problems = [] → ((∀ b, (load v place).value = some b → P b) ↔ Q v)) :
    (∀ b ∈ results, P b) ↔ ∀ v ∈ values, Q v := by
  constructor
  · intro hall v hv
    obtain ⟨place, hproblems, hresult⟩ := h.of_value hv
    exact (hload v place hproblems).1 fun b hb => hall b (hresult b hb)
  · intro hall b hb
    obtain ⟨v, hv, place, hvalue, hproblems⟩ := h.of_result hb
    exact (hload v place hproblems).2 (hall v hv) b hvalue

theorem problems_each {α γ : Type} {f : α → Load γ} {as : List α} (h : (Noted.each f as).notes.problems = []) :
    ∀ a ∈ as, (f a).notes.problems = [] := by
  induction as with
  | nil => simp
  | cons a as ih =>
    simp only [Noted.each, problems_bind] at h
    exact List.forall_mem_cons.2 ⟨h.1, ih h.2.1⟩

theorem loadedAs_eachIndexed (load : Json → String → Load (Option β)) {items : List Json} {path : String}
    (h : (Noted.eachIndexed (fun i v => load v (item path i)) items).notes.problems = []) :
    LoadedAs load items ((Noted.eachIndexed (fun i v => load v (item path i)) items).value.filterMap id) := by
  refine ⟨items.zipIdx.map fun p => (p.1, item path p.2), ?_, ?_, ?_⟩
  · rw [List.map_map]
    exact List.zipIdx_map_fst 0 items
  · rw [Noted.eachIndexed, Noted.value_each, List.filterMap_map, List.filterMap_map]
    rfl
  · intro p hp
    obtain ⟨q, hq, rfl⟩ := List.mem_map.1 hp
    exact problems_each h q hq

end

/-- One entry of the props of an element. -/
def propEntry (v : Json) (path : String) : Load (Option PropEntry) :=
  match v with
  | .object fields => pure (some (attributes fields))
  | .string s => spread s path
  | _ => fail .child path .propEntry

theorem loadedAs_props {o : Keyed Json} {path : String}
    (h : (ifPresent o "props" path props).notes.problems = []) :
    LoadedAs propEntry (fieldEntries (o.lookup "props")) (ifPresent o "props" path props).value := by
  revert h
  unfold ifPresent
  cases o.lookup "props" with
  | none => exact fun _ => loadedAs_nil
  | some v =>
    intro h
    cases v with
    | null => exact loadedAs_nil
    | object fields => exact loadedAs_single propEntry _ (field path "props") rfl
    | string text =>
      simp only [props, problems_bind] at h
      exact loadedAs_single propEntry (.string text) (field path "props") h.1
    | array items =>
      simp only [props, problems_bind] at h
      exact loadedAs_eachIndexed propEntry h.1
    | _ => cases h

theorem loadedAs_styles {o : Keyed Json} {path : String}
    (h : (ifPresent o "style" path styles).notes.problems = []) :
    LoadedAs styleEntry (fieldEntries (o.lookup "style")) (ifPresent o "style" path styles).value := by
  revert h
  unfold ifPresent
  cases o.lookup "style" with
  | none => exact fun _ => loadedAs_nil
  | some v =>
    intro h
    cases v with
    | null => exact loadedAs_nil
    | array items =>
      simp only [styles, problems_bind] at h
      exact loadedAs_eachIndexed styleEntry h.1
    | _ =>
      simp only [styles, problems_bind] at h
      exact loadedAs_single styleEntry _ _ h.1

/-- Content at its place in the document and its position in the tree. -/
def contentAt (v : Json) (place : String × List Nat) : Load (Option Content) := content v place.1 place.2

theorem loadedAs_contentItems {items : List Json} {i : Nat} {path : String} {parent : List Nat} {offset : Nat}
    (h : (contentItems items i path parent offset).notes.problems = []) :
    LoadedAs contentAt items (contentItems items i path parent offset).value := by
  induction items generalizing i with
  | nil => exact loadedAs_nil
  | cons v items ih =>
    rw [contentItems] at h ⊢
    simp only [problems_bind] at h
    exact (loadedAs_single contentAt v (item path i, parent ++ [offset + i]) h.1).append (ih h.2.1)

theorem loadedAs_contentOf {fields : Keyed Json} {key path : String} {position : List Nat} {offset : Nat}
    (h : (contentOf (contentLoaders fields) key path position offset).notes.problems = []) :
    LoadedAs contentAt (fieldItems (fields.lookup key))
      (contentOf (contentLoaders fields) key path position offset).value := by
  revert h
  unfold contentOf
  rw [lookup_contentLoaders]
  cases fields.lookup key with
  | none => exact fun _ => loadedAs_nil
  | some v =>
    intro h
    cases v with
    | array items => exact loadedAs_contentItems h
    | _ =>
      simp only [Option.map_some, contentLoader, problems_bind] at h
      exact loadedAs_single contentAt _ (item (field path key) 0, position ++ [offset]) h.1

/-! ## One object -/

/-- A node that is loaded from the fields of an object without a problem. -/
structure LoadedFrom (isDefinition : Bool) (o : Keyed Json) (n : Node) : Prop where
  props : LoadedAs propEntry (if isDefinition then [] else fieldEntries (o.lookup "props")) n.head.props
  style : LoadedAs styleEntry (fieldEntries (o.lookup "style")) n.head.style
  below : LoadedAs contentAt (valuesBelow isDefinition o) (n.children ++ n.fallback)

theorem loadedFrom_body {isDefinition : Bool} {o : Keyed Json} {kind : NodeKind} {fallback : List Content}
    {path : String} {position : List Nat} (hkind : { kind, path, position : Head }.isDefinition = isDefinition)
    (h : (body o (contentLoaders o) kind fallback path position).notes.problems = [])
    (hfallback : LoadedAs contentAt
      (if !isDefinition && hasType o "If" then fieldItems (o.lookup "else") else []) fallback) :
    LoadedFrom isDefinition o (body o (contentLoaders o) kind fallback path position).value := by
  subst hkind
  simp only [body, problems_bind] at h
  obtain ⟨hprops, hchildren, -, -, hstyle, -⟩ := h
  refine ⟨?_, loadedAs_styles hstyle, (loadedAs_contentOf hchildren).append hfallback⟩
  show LoadedAs propEntry _ (ownProps _ o path).value
  unfold ownProps at hprops ⊢
  split
  · exact loadedAs_nil
  · rename_i hinner
    rw [if_neg hinner] at hprops
    exact loadedAs_props hprops

theorem loadedFrom_definition {o : Keyed Json} {path : String} {position : List Nat} {n : Node}
    (h : (definition (.object o) path position).value = some n)
    (hp : (definition (.object o) path position).notes.problems = []) : LoadedFrom true o n := by
  rw [definition_value, Option.some.injEq] at h
  subst h
  rw [definition_notes] at hp
  simp only [Log.problems_append, List.append_eq_nil_iff] at hp
  exact loadedFrom_body rfl hp.2.2.2.1 loadedAs_nil

theorem nodeType_field {o : Keyed Json} {path type : String} (h : (nodeType o path).value = some type) :
    o.lookup "type" = some (.string type) := by
  unfold nodeType at h
  split at h
  · cases h
  · rename_i v hv
    split at h
    · rename_i found hfound
      obtain rfl := Option.some.inj h
      unfold nonBlank? at hfound
      split at hfound
      · rename_i s hs
        split at hfound
        · cases hfound
        · rw [hv, hs, Option.some.inj hfound]
      · cases hfound
    · cases h

/-- The type of an object decides the kind of the node, and whether it has a fallback. -/
theorem kindOf_object {o : Keyed Json} {type path : String} {position : List Nat}
    (htype : o.lookup "type" = some (.string type))
    (h : (kindOf type o (contentLoaders o) path position).notes.problems = []) :
    { kind := (kindOf type o (contentLoaders o) path position).value.1, path, position : Head }.isDefinition =
        hasType o "Component" ∧
      LoadedAs contentAt (if !hasType o "Component" && hasType o "If" then fieldItems (o.lookup "else") else [])
        (kindOf type o (contentLoaders o) path position).value.2 := by
  have hhas : ∀ t, hasType o t = (type == t) := fun t => by rw [hasType, htype]
  rw [hhas, hhas]
  unfold kindOf at h ⊢
  split at h
  · exact ⟨rfl, loadedAs_nil⟩
  · exact ⟨rfl, loadedAs_nil⟩
  · simp only [problems_bind] at h
    exact ⟨rfl, loadedAs_contentOf h.2.1⟩
  · exact ⟨rfl, loadedAs_nil⟩
  · rename_i hcomponent _ hif _
    have hcomponent' : (type == "Component") = false := beq_false_of_ne hcomponent
    have hif' : (type == "If") = false := beq_false_of_ne hif
    rw [hcomponent', hif']
    exact ⟨rfl, loadedAs_nil⟩

theorem nodeType_isSome {o : Keyed Json} {path : String} (h : (nodeType o path).notes.problems = []) :
    ∃ type, (nodeType o path).value = some type := by
  unfold nodeType at h ⊢
  split at h
  · cases h
  · split at h
    · exact ⟨_, rfl⟩
    · cases h

/-- A node is missing only after a problem. -/
theorem node_isSome {o : Keyed Json} {loaders : ContentLoaders} {path : String} {position : List Nat}
    (h : (node o loaders path position).notes.problems = []) : ∃ n, (node o loaders path position).value = some n := by
  unfold node at h ⊢
  rw [problems_bind] at h
  obtain ⟨type, htype⟩ := nodeType_isSome h.1
  rw [Noted.value_bind, htype]
  exact ⟨_, rfl⟩

theorem loadedFrom_node {o : Keyed Json} {path : String} {position : List Nat} {n : Node}
    (h : (node o (contentLoaders o) path position).value = some n)
    (hp : (node o (contentLoaders o) path position).notes.problems = []) : LoadedFrom (hasType o "Component") o n := by
  obtain ⟨type, kind, fallback, htype, hkind, rfl, hnotes⟩ := node_eq_some h
  rw [hnotes] at hp
  simp only [Log.problems_append, List.append_eq_nil_iff] at hp
  obtain ⟨hdefinition, hfallback⟩ := kindOf_object (nodeType_field htype) hp.2.1
  rw [hkind] at hdefinition hfallback
  exact loadedFrom_body hdefinition hp.2.2.1 hfallback

/-! ## What stands below an object -/

/-- A node right below comes from an object right below. -/
theorem LoadedAs.object {values : List Json} {contents : List Content} (h : LoadedAs contentAt values contents)
    {m : Node} (hm : m.toContent ∈ contents) :
    ∃ o, .object o ∈ values ∧ LoadedFrom (hasType o "Component") o m := by
  obtain ⟨v, hv, place, hcontent, hproblems⟩ := h.of_result hm
  rw [contentAt] at hcontent hproblems
  cases v with
  | object o =>
    rw [content] at hcontent hproblems
    obtain ⟨n, hn, hmn⟩ := Option.map_eq_some_iff.1 hcontent
    obtain rfl : n = m := by
      cases n
      cases m
      cases hmn
      rfl
    exact ⟨o, hv, loadedFrom_node hn (problems_bind.1 hproblems).1⟩
  | string text =>
    rw [content] at hcontent
    have hnone := textContent_nodes text _ _ hcontent
    rw [Node.toContent, Content.nodes] at hnone
    cases hnone
  | _ =>
    rw [content] at hcontent
    cases hcontent

/-- An object right below gives a node right below. -/
theorem LoadedAs.node {values : List Json} {contents : List Content} (h : LoadedAs contentAt values contents)
    {o : Keyed Json} (ho : .object o ∈ values) :
    ∃ m : Node, m.toContent ∈ contents ∧ LoadedFrom (hasType o "Component") o m := by
  obtain ⟨place, hproblems, hresult⟩ := h.of_value ho
  simp only [contentAt, content, problems_bind] at hproblems
  obtain ⟨m, hm⟩ := node_isSome hproblems.1
  refine ⟨m, hresult _ ?_, loadedFrom_node hm hproblems.1⟩
  simp only [contentAt, content, Noted.value_bind, Noted.value_pure, hm, Option.map_some]

/-! ## Components -/

/-- The components of an array come from its objects, and every object of it gives one. -/
theorem componentItems_objects {items : List Json} {i : Nat} (h : (componentItems items i).notes.problems = []) :
    (∀ n ∈ (componentItems items i).value, ∃ o, .object o ∈ items ∧ LoadedFrom true o n) ∧
      ∀ o, .object o ∈ items → ∃ n ∈ (componentItems items i).value, LoadedFrom true o n := by
  induction items generalizing i with
  | nil => simp [componentItems]
  | cons v items ih =>
    rw [componentItems] at h ⊢
    simp only [problems_bind] at h
    obtain ⟨hfrom, hgive⟩ := ih h.2.1
    simp only [Noted.value_bind, Noted.value_pure, List.mem_append, Option.mem_toList]
    constructor
    · rintro n (hn | hn)
      · cases v with
        | object o => exact ⟨o, List.mem_cons_self, loadedFrom_definition hn h.1⟩
        | _ => cases hn
      · obtain ⟨o, ho, hloaded⟩ := hfrom n hn
        exact ⟨o, List.mem_cons_of_mem v ho, hloaded⟩
    · intro o ho
      rcases List.mem_cons.1 ho with rfl | ho
      · exact ⟨_, .inl rfl, loadedFrom_definition rfl h.1⟩
      · obtain ⟨n, hn, hloaded⟩ := hgive o ho
        exact ⟨n, .inr hn, hloaded⟩

theorem app_components_value {document : Json} {app : App} (h : Load.app document = .ok app) :
    ∃ fields, document = .object fields ∧ app.components = (components fields).value ∧
      (components fields).notes.problems = [] := by
  unfold Load.app at h
  split at h
  · rename_i fields
    cases hf : appOfFields fields with
    | mk found problems =>
      rw [hf] at h
      cases problems with
      | cons p ps => cases h
      | nil =>
        obtain rfl := Except.ok.inj h
        simp only [appOfFields, Prod.mk.injEq, List.append_eq_nil_iff, Log.problems_append] at hf
        obtain ⟨rfl, ⟨⟨-, hparts⟩, -⟩, -⟩ := hf
        exact ⟨fields, rfl, rfl, hparts⟩
  · cases h

/-- The components of a loaded app come from the objects that are listed as components. -/
theorem app_components_objects {document : Json} {app : App} (h : Load.app document = .ok app) :
    (∀ c ∈ app.components, ∃ o, NodeObject document true o ∧ LoadedFrom true o c) ∧
      ∀ fields items o, document = .object fields → fields.lookup "components" = some (.array items) →
        .object o ∈ items → ∃ c ∈ app.components, LoadedFrom true o c := by
  obtain ⟨fields, rfl, hcomponents, hproblems⟩ := app_components_value h
  rw [hcomponents]
  unfold components at hproblems ⊢
  split at hproblems
  · rename_i hnone
    exact ⟨by simp, fun _ items o heq hitems => by cases heq; rw [hnone] at hitems; cases hitems⟩
  · rename_i hnull
    exact ⟨by simp, fun _ items o heq hitems => by cases heq; rw [hnull] at hitems; cases hitems⟩
  · rename_i items hitems
    obtain ⟨hfrom, hgive⟩ := componentItems_objects hproblems
    constructor
    · intro c hc
      obtain ⟨o, ho, hloaded⟩ := hfrom c hc
      exact ⟨o, .component rfl hitems ho, hloaded⟩
    · intro _ _ o heq hitems' ho
      cases heq
      cases hitems.symm.trans hitems'
      exact hgive o ho
  · cases hproblems

/-! ## Whole apps -/

/-- Every node of a loaded app is loaded from an object that stands for one. -/
theorem app_nodes_objects {document : Json} {app : App} (h : Load.app document = .ok app) :
    ∀ n ∈ app.nodes, ∃ d o, NodeObject document d o ∧ LoadedFrom d o n := by
  intro n hn
  obtain ⟨c, hc, hn⟩ := List.mem_flatMap.1 hn
  -- a node that is loaded from an object passes this on to the nodes right below it
  refine Node.nodes_forall (P := fun n => ∃ d o, NodeObject document d o ∧ LoadedFrom d o n) ?_ ?_ n hn
  · rintro n ⟨d, above, habove, hloaded⟩ m hm
    obtain ⟨o, ho, hbelow⟩ := hloaded.below.object (Node.mem_childNodes.1 hm)
    exact ⟨_, o, habove.inner ho, hbelow⟩
  · obtain ⟨o, ho, hloaded⟩ := (app_components_objects h).1 c hc
    exact ⟨true, o, ho, hloaded⟩

/-- Every object that stands for a node gives one. -/
theorem app_objects_nodes {document : Json} {app : App} (h : Load.app document = .ok app) {isDefinition : Bool}
    {o : Keyed Json} (ho : NodeObject document isDefinition o) : ∃ n ∈ app.nodes, LoadedFrom isDefinition o n := by
  induction ho with
  | component hdocument hitems ho =>
    obtain ⟨c, hc, hloaded⟩ := (app_components_objects h).2 _ _ _ hdocument hitems ho
    exact ⟨c, List.mem_flatMap.2 ⟨c, hc, List.mem_cons_self⟩, hloaded⟩
  | inner _ ho ih =>
    obtain ⟨n, hn, hloaded⟩ := ih
    obtain ⟨m, hm, hbelow⟩ := hloaded.below.node ho
    obtain ⟨c, hc, hn⟩ := List.mem_flatMap.1 hn
    refine ⟨m, List.mem_flatMap.2 ⟨c, hc, ?_⟩, hbelow⟩
    exact Node.nodes_subset hn (n.childNodes_subset (Node.mem_childNodes.2 hm))

/-- What can be said of a node as well as of the object it is loaded from holds of all nodes
exactly if it holds of all objects. -/
theorem app_nodes_iff_objects {document : Json} {app : App} (h : Load.app document = .ok app) {P : Node → Prop}
    {Q : Bool → Keyed Json → Prop} (hPQ : ∀ {d o n}, LoadedFrom d o n → (P n ↔ Q d o)) :
    (∀ n ∈ app.nodes, P n) ↔ ∀ d o, NodeObject document d o → Q d o := by
  constructor
  · intro hall d o ho
    obtain ⟨n, hn, hloaded⟩ := app_objects_nodes h ho
    exact (hPQ hloaded).1 (hall n hn)
  · intro hall n hn
    obtain ⟨d, o, ho, hloaded⟩ := app_nodes_objects h n hn
    exact (hPQ hloaded).2 (hall d o ho)

end Load

end ViewTree
