import ViewTree.Load.App
import ViewTree.Proofs.Node.Walk

/-!
# What holds of every loaded node

Loading builds each node from the fields of one object (`node`, `definition`), and
what stands below it from the fields `children` and `else`. So what holds of the
nodes those two build holds of every node of a loaded app, at any depth
(`app_forall`). Every fact about loaded trees comes from there. What is asked of the
log of one object may be any condition that passes to the parts of a log
(`BuiltWhile`), such as that it notes no problem.
-/

namespace ViewTree

namespace Load

/-! ## The parts of a node -/

/-- Loads the content of one value. -/
def contentLoader : Json → ContentLoader
  | .array items => fun path parent offset => contentItems items 0 path parent offset
  | v => fun path parent offset => do
    let only ← content v (item path 0) (parent ++ [offset])
    pure only.toList

theorem contentLoader_single {v : Json} (hv : ∀ items, v ≠ .array items) (path : String) (parent : List Nat)
    (offset : Nat) :
    contentLoader v path parent offset =
      (content v (item path 0) (parent ++ [offset]) >>= fun only => pure only.toList) := by
  cases v with
  | array items => exact absurd rfl (hv items)
  | _ => rfl

theorem lookup_contentLoaders (fields : List (String × Json)) (key : String) :
    (contentLoaders fields).lookup key = (fields.lookup key).map contentLoader := by
  induction fields with
  | nil => rfl
  | cons f fields ih =>
    obtain ⟨k, v⟩ := f
    have hc : contentLoaders ((k, v) :: fields) = (k, contentLoader v) :: contentLoaders fields := by
      cases v <;> simp only [contentLoaders, contentLoader]
    rw [hc, List.lookup_cons, List.lookup_cons, ih]
    split <;> rfl

/-- A node below a definition is the body of its object, with the kind and the
fallback that its type asks for. -/
theorem node_eq_some {fields : Keyed Json} {loaders : ContentLoaders} {path : String} {position : List Nat}
    {n : Node} (h : (node fields loaders path position).value = some n) :
    ∃ type kind fallback, (nodeType fields path).value = some type ∧
      (kindOf type fields loaders path position).value = (kind, fallback) ∧
      (body fields loaders kind fallback path position).value = n ∧
      (node fields loaders path position).notes =
        (nodeType fields path).notes ++ ((kindOf type fields loaders path position).notes ++
          ((body fields loaders kind fallback path position).notes ++ ∅)) := by
  unfold node at h ⊢
  cases ht : (nodeType fields path).value with
  | none => simp [ht] at h
  | some type =>
    simp only [Noted.value_bind, ht, Noted.value_pure, Option.some.injEq] at h
    refine ⟨type, _, _, rfl, rfl, h, ?_⟩
    rw [Noted.notes_bind, ht]
    rfl

/-- A definition at the top is the body of its object. -/
theorem definition_value (fields : Keyed Json) (path : String) (position : List Nat) :
    (definition (.object fields) path position).value =
      some (body fields (contentLoaders fields) (.component (params fields path).value) [] path position).value :=
  rfl

theorem definition_notes (fields : Keyed Json) (path : String) (position : List Nat) :
    (definition (.object fields) path position).notes =
      (definitionType fields path).notes ++ ((definitionName fields path).notes ++ ((params fields path).notes ++
        ((body fields (contentLoaders fields) (.component (params fields path).value) [] path
          position).notes ++ ∅))) :=
  rfl

theorem body_children (fields : Keyed Json) (loaders : ContentLoaders) (kind : NodeKind)
    (fallback : List Content) (path : String) (position : List Nat) :
    (body fields loaders kind fallback path position).value.children =
      (contentOf loaders "children" path position 0).value := rfl

theorem body_fallback (fields : Keyed Json) (loaders : ContentLoaders) (kind : NodeKind)
    (fallback : List Content) (path : String) (position : List Nat) :
    (body fields loaders kind fallback path position).value.fallback = fallback := rfl

theorem body_notes (fields : Keyed Json) (loaders : ContentLoaders) (kind : NodeKind)
    (fallback : List Content) (path : String) (position : List Nat) :
    ∃ own rest, (body fields loaders kind fallback path position).notes =
      own ++ ((contentOf loaders "children" path position 0).notes ++ rest) :=
  ⟨_, _, rfl⟩

/-- Only a node with a condition has a fallback, which is the content of `else`. -/
theorem kindOf_fallback (type : String) (fields : Keyed Json) (loaders : ContentLoaders) (path : String)
    (position : List Nat) :
    (kindOf type fields loaders path position).value.2 = [] ∨
      (∃ condition, (kindOf type fields loaders path position).value.1 = .branch condition) ∧
        (kindOf type fields loaders path position).value.2 =
          (contentOf loaders "else" path position (childCount (fields.lookup "children"))).value ∧
        ∃ own, (kindOf type fields loaders path position).notes =
          own ++ ((contentOf loaders "else" path position (childCount (fields.lookup "children"))).notes ++ ∅) := by
  unfold kindOf
  split
  · exact .inl rfl
  · exact .inl rfl
  · exact .inr ⟨⟨_, rfl⟩, rfl, _, rfl⟩
  · exact .inl rfl
  · exact .inl rfl

/-! ## Every node -/

/-- `P` holds of every node that loading builds from an object, as long as the log of
that object is fine; and a log is fine only if its parts are. -/
structure BuiltWhile (Fine : Log → Prop) (P : Node → Prop) : Prop where
  left : ∀ {a b : Log}, Fine (a ++ b) → Fine a
  right : ∀ {a b : Log}, Fine (a ++ b) → Fine b
  node : ∀ fields path position n, (node fields (contentLoaders fields) path position).value = some n →
    Fine (node fields (contentLoaders fields) path position).notes → P n
  definition : ∀ fields path position n, (definition (.object fields) path position).value = some n →
    Fine (definition (.object fields) path position).notes → P n

/-- `P` holds of every node that loading builds from an object without a problem. -/
structure Built (P : Node → Prop) : Prop where
  node : ∀ fields path position n, (node fields (contentLoaders fields) path position).value = some n →
    (node fields (contentLoaders fields) path position).notes.problems = [] → P n
  definition : ∀ fields path position n, (definition (.object fields) path position).value = some n →
    (definition (.object fields) path position).notes.problems = [] → P n

theorem Built.while {P : Node → Prop} (h : Built P) : BuiltWhile (fun log => log.problems = []) P where
  left h := (List.append_eq_nil_iff.1 h).1
  right h := (List.append_eq_nil_iff.1 h).2
  node := h.node
  definition := h.definition

section
variable {Fine : Log → Prop} {P : Node → Prop}

theorem contentOf_forall {fields : List (String × Json)} {path : String} {position : List Nat} {offset : Nat}
    (key : String)
    (ih : ∀ load, (contentLoaders fields).lookup key = some load → ∀ path parent offset,
      Fine (load path parent offset).notes → ∀ n ∈ contentNodes (load path parent offset).value, P n)
    (h : Fine (contentOf (contentLoaders fields) key path position offset).notes) :
    ∀ n ∈ contentNodes (contentOf (contentLoaders fields) key path position offset).value, P n := by
  unfold contentOf at h ⊢
  cases hl : (contentLoaders fields).lookup key with
  | none => simp [contentNodes]
  | some load =>
    simp only [hl] at h ⊢
    exact ih load hl _ _ _ h

theorem body_children_fine (hP : BuiltWhile Fine P) {fields : Keyed Json} {loaders : ContentLoaders}
    {kind : NodeKind} {fallback : List Content} {path : String} {position : List Nat}
    (h : Fine (body fields loaders kind fallback path position).notes) :
    Fine (contentOf loaders "children" path position 0).notes := by
  obtain ⟨own, rest, hs⟩ := body_notes fields loaders kind fallback path position
  rw [hs] at h
  exact hP.left (hP.right h)

/-- The nodes of a loaded node: itself, and those of its two contents. -/
theorem node_forall (hP : BuiltWhile Fine P) {fields : List (String × Json)} {path : String}
    {position : List Nat} {n : Node}
    (ih : ∀ key load, (contentLoaders fields).lookup key = some load → ∀ path parent offset,
      Fine (load path parent offset).notes → ∀ n ∈ contentNodes (load path parent offset).value, P n)
    (h : (node fields (contentLoaders fields) path position).value = some n)
    (hp : Fine (node fields (contentLoaders fields) path position).notes) :
    ∀ m ∈ n.nodes, P m := by
  have hn := hP.node fields path position n h hp
  obtain ⟨type, kind, fallback, -, hk, rfl, hs⟩ := node_eq_some h
  rw [hs] at hp
  have hbp := hP.left (hP.right (hP.right hp))
  have hchildren := contentOf_forall "children" (ih "children") (body_children_fine hP hbp)
  have hfallback : ∀ m ∈ contentNodes fallback, P m := by
    have hkp := hP.left (hP.right hp)
    have hf := kindOf_fallback type fields (contentLoaders fields) path position
    rw [hk] at hf
    rcases hf with hf | ⟨-, hf, own, hfs⟩
    · simp only at hf
      simp [hf, contentNodes]
    · simp only at hf
      rw [hfs] at hkp
      rw [hf]
      exact contentOf_forall "else" (ih "else") (hP.left (hP.right hkp))
  intro m hm
  rcases List.mem_cons.1 hm with rfl | hm
  · exact hn
  · rcases List.mem_append.1 hm with hm | hm
    · exact hchildren m hm
    · exact hfallback m hm

theorem contentLoader_forall (hP : BuiltWhile Fine P) {v : Json}
    (h : (∀ path position, Fine (content v path position).notes →
        ∀ c ∈ (content v path position).value, ∀ n ∈ c.nodes, P n) ∧
      ∀ items, v = .array items → ∀ i path parent offset,
        Fine (contentItems items i path parent offset).notes →
          ∀ n ∈ contentNodes (contentItems items i path parent offset).value, P n)
    (path : String) (parent : List Nat) (offset : Nat)
    (hp : Fine (contentLoader v path parent offset).notes) :
    ∀ n ∈ contentNodes (contentLoader v path parent offset).value, P n := by
  by_cases hv : ∃ items, v = .array items
  · obtain ⟨items, rfl⟩ := hv
    exact h.2 items rfl 0 path parent offset hp
  · rw [contentLoader_single (fun items h => hv ⟨items, h⟩)] at hp ⊢
    intro n hn
    rw [Noted.value_bind, Noted.value_pure, contentNodes_eq_flatMap] at hn
    obtain ⟨c, hc, hn⟩ := List.mem_flatMap.1 hn
    exact h.1 _ _ (hP.left hp) c (Option.mem_toList.1 hc) n hn

theorem textContent_nodes (text path : String) : ∀ c ∈ (textContent text path).value, c.nodes = [] := by
  intro c hc
  unfold textContent at hc
  split at hc
  · split at hc
    · split at hc
      · simp [fail] at hc
      · simp only [Noted.value_pure, Option.mem_def, Option.some.injEq] at hc
        rw [← hc, Content.nodes]
    · simp [fail] at hc
  · simp only [Noted.value_pure, Option.mem_def, Option.some.injEq] at hc
    rw [← hc, Content.nodes]

-- The recursion is that of `content`, `contentItems` and `contentLoaders`. A field can hold
-- one piece or an array, so a value is shown to be good in both roles at once.
mutual

theorem content_forall (hP : BuiltWhile Fine P) : ∀ v : Json,
    (∀ path position, Fine (content v path position).notes →
      ∀ c ∈ (content v path position).value, ∀ n ∈ c.nodes, P n) ∧
    ∀ items, v = .array items → ∀ i path parent offset,
      Fine (contentItems items i path parent offset).notes →
        ∀ n ∈ contentNodes (contentItems items i path parent offset).value, P n
  | .null => by simp [content, Content.nodes]
  | .bool _ => by simp [content, Content.nodes]
  | .number _ => by simp [content, Content.nodes]
  | .string text => by
    refine ⟨fun path _ _ c hc => ?_, by simp⟩
    rw [textContent_nodes text path c (by simpa only [content] using hc)]
    simp
  | .array items => by
    refine ⟨by simp [content, fail], ?_⟩
    rintro _ ⟨⟩
    exact contentItems_forall hP items
  | .object fields => by
    refine ⟨fun path position hp c hc => ?_, by simp⟩
    rw [content] at hp hc
    obtain ⟨n, hn, rfl⟩ := Option.map_eq_some_iff.1 hc
    exact node_forall hP (contentLoaders_forall hP fields) hn (hP.left hp)

theorem contentItems_forall (hP : BuiltWhile Fine P) : ∀ (items : List Json) (i : Nat) (path : String)
    (parent : List Nat) (offset : Nat), Fine (contentItems items i path parent offset).notes →
      ∀ n ∈ contentNodes (contentItems items i path parent offset).value, P n
  | [], _, _, _, _ => by simp [contentItems, contentNodes]
  | v :: more, i, path, parent, offset => by
    intro hp n hn
    simp only [contentItems, Noted.value_bind, Noted.value_pure] at hn
    rw [contentItems] at hp
    rw [contentNodes_eq_flatMap, List.flatMap_append, List.mem_append] at hn
    rcases hn with hn | hn
    · obtain ⟨c, hc, hn⟩ := List.mem_flatMap.1 hn
      exact (content_forall hP v).1 _ _ (hP.left hp) c (Option.mem_toList.1 hc) n hn
    · rw [← contentNodes_eq_flatMap] at hn
      exact contentItems_forall hP more _ _ _ _ (hP.left (hP.right hp)) n hn

theorem contentLoaders_forall (hP : BuiltWhile Fine P) : ∀ (fields : List (String × Json)) (key : String)
    (load : ContentLoader), (contentLoaders fields).lookup key = some load → ∀ path parent offset,
      Fine (load path parent offset).notes → ∀ n ∈ contentNodes (load path parent offset).value, P n
  | [], _, _ => by simp [contentLoaders]
  | (k, v) :: more, key, load => by
    intro hl
    rw [lookup_contentLoaders, List.lookup_cons] at hl
    split at hl
    · obtain rfl : contentLoader v = load := by simpa using hl
      exact contentLoader_forall hP (content_forall hP v)
    · rw [← lookup_contentLoaders] at hl
      exact contentLoaders_forall hP more key load hl

end

theorem definition_forall (hP : BuiltWhile Fine P) {value : Json} {path : String} {position : List Nat} {n : Node}
    (h : (definition value path position).value = some n)
    (hp : Fine (definition value path position).notes) : ∀ m ∈ n.nodes, P m := by
  cases value with
  | object fields =>
    have hn := hP.definition fields path position n h hp
    rw [definition_value, Option.some.injEq] at h
    subst h
    rw [definition_notes] at hp
    have hbp := hP.left (hP.right (hP.right (hP.right hp)))
    have hchildren := contentOf_forall "children" (contentLoaders_forall hP fields "children")
      (body_children_fine hP hbp)
    intro m hm
    rcases List.mem_cons.1 hm with rfl | hm
    · exact hn
    · rw [body_fallback, contentNodes, List.append_nil] at hm
      exact hchildren m hm
  | _ => simp [definition, fail] at h

theorem componentItems_forall (hP : BuiltWhile Fine P) (items : List Json) (i : Nat)
    (hp : Fine (componentItems items i).notes) :
    ∀ c ∈ (componentItems items i).value, ∀ n ∈ c.nodes, P n := by
  induction items generalizing i with
  | nil => simp [componentItems]
  | cons v more ih =>
    rw [componentItems] at hp
    simp only [componentItems, Noted.value_bind, Noted.value_pure]
    intro c hc
    rcases List.mem_append.1 hc with hc | hc
    · exact definition_forall hP (Option.mem_toList.1 hc) (hP.left hp)
    · exact ih (i + 1) (hP.left (hP.right hp)) c hc

theorem components_eq_items {fields : Keyed Json} (hp : (components fields).notes.problems = []) :
    ∃ items, components fields = componentItems items 0 := by
  unfold components at hp ⊢
  split at hp
  · exact ⟨[], rfl⟩
  · exact ⟨[], rfl⟩
  · exact ⟨_, rfl⟩
  · simp [problem] at hp

/-- A loaded app, part by part: nothing was noted on the way, every format referred to
is declared, and so is the root component. -/
theorem app_eq_ok {document : Json} {app : App} (h : Load.app document = .ok app) :
    ∃ fields items, document = .object fields ∧ (appFields fields).notes.problems = [] ∧
      (componentItems items 0).notes.problems = [] ∧
      app = { (appFields fields).value with components := (componentItems items 0).value } ∧
      unknownFormats app.styleFormats ((appFields fields).notes ++ (componentItems items 0).notes).formats = [] ∧
      unknownRoot app.rootComponent app.components = [] := by
  unfold Load.app at h
  split at h
  · rename_i fields
    cases hf : appOfFields fields with
    | mk found problems =>
      rw [hf] at h
      cases problems with
      | cons p ps => cases h
      | nil =>
        obtain rfl := Except.ok.inj h
        simp only [appOfFields, Prod.mk.injEq, List.append_eq_nil_iff, Log.problems_append] at hf
        obtain ⟨rfl, ⟨⟨hown, hparts⟩, hformats⟩, hroot⟩ := hf
        obtain ⟨items, hi⟩ := components_eq_items hparts
        rw [hi] at hparts hformats hroot ⊢
        exact ⟨fields, items, rfl, hown, hparts, rfl, hformats, hroot⟩
  · cases h

/-- What holds of the nodes that loading builds holds of every node of a loaded app. -/
theorem app_forall (hP : Built P) {document : Json} {app : App} (h : Load.app document = .ok app) :
    ∀ n ∈ app.nodes, P n := by
  obtain ⟨fields, items, -, -, hp, rfl, -, -⟩ := app_eq_ok h
  intro n hn
  obtain ⟨c, hc, hn⟩ := List.mem_flatMap.1 hn
  exact componentItems_forall hP.while items 0 hp c hc n hn

end

end Load

end ViewTree
