import ViewTree.Proofs.Load.Nodes
import ViewTree.Proofs.Load.Regions

/-!
# The style formats a document refers to

Read without loading it: an entry of a style refers to the format it names, and a node to
the formats of what it shows otherwise, of its children and of its style, in this order
(`contentFormats`, `definitionFormats`). A value that stands for no node refers to none.
Loading notes exactly these, in the same order, whatever problems it finds on the way
(`notes_definition`).
-/

namespace ViewTree.Load

/-! ## Reading -/

/-- The format an entry of a style refers to. -/
def entryFormats (v : Json) (path : String) : List FormatUse :=
  match v with
  | .object fields =>
    match fields.lookup "format" with
    | some (.string format) => [{ format, path }]
    | _ => []
  | _ => []

/-- The formats a style refers to: one entry, or an array of entries. -/
def styleFormats (v : Json) (path : String) : List FormatUse :=
  match v with
  | .array items => items.zipIdx.flatMap fun (v, i) => entryFormats v (item path i)
  | v => entryFormats v path

/-- The formats referred to below a node, by one of its fields. -/
def formatsAt (below : Keyed (List FormatUse)) (key : String) : List FormatUse := (below.lookup key).getD []

/-- The formats of a node's children, then those of its style. -/
def bodyFormats (fields : Keyed Json) (below : Keyed (List FormatUse)) (path : String) : List FormatUse :=
  formatsAt below "children" ++
    match fields.lookup "style" with
    | some v => styleFormats v (field path "style")
    | none => []

/-- The formats of a node with a type: what it shows otherwise is read first. -/
def nodeFormats (fields : Keyed Json) (below : Keyed (List FormatUse)) (path : String) : List FormatUse :=
  match nonBlank? (fields.lookup "type") with
  | some type => (if type = "If" then formatsAt below "else" else []) ++ bodyFormats fields below path
  | none => []

mutual

/-- The formats that a piece of content refers to. -/
def contentFormats : Json → String → List FormatUse
  | .object fields, path => nodeFormats fields (fieldFormats fields path) path
  | _, _ => []

/-- The formats of the pieces of an array, the next of which is number `i`. -/
def itemFormats : List Json → Nat → String → List FormatUse
  | [], _, _ => []
  | v :: more, i, path => contentFormats v (item path i) ++ itemFormats more (i + 1) path

/-- The formats referred to by each field of the node at a path, if it is content. -/
def fieldFormats : List (String × Json) → String → Keyed (List FormatUse)
  | [], _ => []
  | (key, .array items) :: more, path => (key, itemFormats items 0 (field path key)) :: fieldFormats more path
  | (key, v) :: more, path => (key, contentFormats v (item (field path key) 0)) :: fieldFormats more path

end

/-- The formats a top-level definition refers to. -/
def definitionFormats (v : Json) (path : String) : List FormatUse :=
  match v with
  | .object fields => bodyFormats fields (fieldFormats fields path) path
  | _ => []

/-- The formats of a field that is content: an array of pieces, or one piece. -/
def valueFormats (v : Json) (path : String) : List FormatUse :=
  match v with
  | .array items => itemFormats items 0 path
  | v => contentFormats v (item path 0)

theorem lookup_fieldFormats (fields : List (String × Json)) (path key : String) :
    (fieldFormats fields path).lookup key = (fields.lookup key).map fun v => valueFormats v (field path key) := by
  induction fields with
  | nil => rw [fieldFormats, List.lookup_nil, List.lookup_nil, Option.map_none]
  | cons f fields ih =>
    obtain ⟨k, v⟩ := f
    have hc : fieldFormats ((k, v) :: fields) path = (k, valueFormats v (field path k)) :: fieldFormats fields path := by
      cases v <;> simp only [fieldFormats, valueFormats]
    rw [hc, List.lookup_cons, List.lookup_cons, ih]
    split
    · rename_i heq
      rw [Option.map_some, eq_of_beq heq]
    · rfl

/-! ## Styles -/

variable {At : String → Prop}

section
variable (hAt : Region At) {path : String} (h : At path)
include hAt h

theorem notes_formatEntry (name : Json) (fields : Keyed Json) (hname : fields.lookup "format" = some name) :
    Notes At (entryFormats (.object fields) path) (formatEntry name fields path) := by
  unfold entryFormats
  dsimp only
  rw [hname]
  cases name with
  | string format =>
    have huse : Notes At [{ format, path }] (Noted.note { formats := [{ format, path }] } : Load Unit) := by
      refine ⟨rfl, fun p hp => absurd hp List.not_mem_nil, fun u hu => ?_⟩
      rw [List.mem_singleton.1 hu]
      exact h
    exact huse.bind_quiet fun _ => Quiet.bind (quiet_staticStyleMap hAt h fields) fun _ => quiet_pure _
  | _ => exact quiet_fail h _ _

theorem quiet_selectorEntry (name : Json) (fields : Keyed Json) : Quiet At (selectorEntry name fields path) := by
  unfold selectorEntry
  split
  · exact Quiet.bind (quiet_staticStyleMap hAt h fields) fun _ => quiet_pure _
  · exact quiet_fail h _ _

theorem quiet_conditionalEntry (fields : Keyed Json) : Quiet At (conditionalEntry fields path) := by
  refine Quiet.bind (quiet_requiredScript h _ _ _ _) fun predicate => ?_
  split
  · exact quiet_pure _
  · exact Quiet.bind (quiet_styleMap hAt h fields) fun _ => quiet_pure _

theorem notes_styleObject (fields : Keyed Json) :
    Notes At (entryFormats (.object fields) path) (styleObject fields path) := by
  unfold styleObject
  cases hformat : fields.lookup "format" with
  | some name => exact notes_formatEntry hAt h name fields hformat
  | none =>
    have hnone : entryFormats (.object fields) path = [] := by simp only [entryFormats, hformat]
    rw [hnone]
    split
    · contradiction
    · exact quiet_selectorEntry hAt h _ fields
    · split
      · exact quiet_conditionalEntry hAt h fields
      · split
        · exact Quiet.bind (quiet_requiredScript h _ _ _ _) fun _ => quiet_pure _
        · exact quiet_pure _

theorem notes_styleEntry (value : Json) : Notes At (entryFormats value path) (styleEntry value path) := by
  unfold styleEntry
  split
  · split
    · split
      · split
        · exact quiet_fail h _ _
        · exact quiet_pure _
      · exact quiet_fail h _ _
    · exact quiet_pure _
  · exact notes_styleObject hAt h _
  · rename_i hstring hobject
    have hnone : entryFormats value path = [] := by
      unfold entryFormats
      split
      · exact absurd rfl (hobject _)
      · rfl
    rw [hnone]
    exact quiet_fail h _ _

theorem notes_styles (value : Json) : Notes At (styleFormats value path) (styles value path) := by
  unfold styles
  split
  · exact quiet_pure _
  · exact (notes_eachIndexed fun i v => notes_styleEntry hAt (hAt.item i h) v).bind_quiet fun _ => quiet_pure _
  · rename_i hnull harray
    have hsingle : styleFormats value path = entryFormats value path := by
      unfold styleFormats
      split
      · exact absurd rfl (harray _)
      · rfl
    rw [hsingle]
    exact (notes_styleEntry hAt h value).bind_quiet fun _ => quiet_pure _

/-! ## Nodes -/

variable {fields : Keyed Json} {loaders : ContentLoaders} {position : List Nat}

theorem notes_body {uses : List FormatUse}
    (hchildren : Notes At uses (contentOf loaders "children" path position 0)) (kind : NodeKind)
    (fallback : List Content) :
    Notes At
      (uses ++ match fields.lookup "style" with
        | some v => styleFormats v (field path "style")
        | none => [])
      (body fields loaders kind fallback path position) := by
  have hstyle : Notes At
      (match fields.lookup "style" with
        | some v => styleFormats v (field path "style")
        | none => [])
      (ifPresent fields "style" path styles) := by
    unfold ifPresent
    cases fields.lookup "style" with
    | some v => exact notes_styles hAt (hAt.field "style" h) v
    | none => exact quiet_pure _
  refine Quiet.bind (quiet_ownProps hAt h _ fields) fun props => hchildren.bind fun children => ?_
  refine Quiet.bind (quiet_onDefinition hAt h _ fields _ fun v _ hv => quiet_expressions hAt hv v) fun _ => ?_
  refine Quiet.bind (quiet_ifPresent hAt h fields _ fun v _ hv => quiet_imports hAt hv v) fun _ => ?_
  refine hstyle.bind_quiet fun style => ?_
  refine Quiet.bind (quiet_onDefinition hAt h _ fields _ fun v _ hv => quiet_provisions hAt hv v) fun _ => ?_
  refine Quiet.bind (quiet_onDefinition hAt h _ fields _ fun v _ hv => quiet_contextNames hAt hv v) fun _ => ?_
  refine Quiet.bind (quiet_sheetOverride hAt h _ fields _) fun _ => ?_
  exact Quiet.bind (quiet_sheetOverride hAt h _ fields _) fun _ => quiet_pure _

theorem notes_kindOf {uses : List FormatUse}
    (helse : ∀ offset, Notes At uses (contentOf loaders "else" path position offset)) (type : String) :
    Notes At (if type = "If" then uses else []) (kindOf type fields loaders path position) := by
  by_cases hif : type = "If"
  · subst hif
    rw [if_pos rfl]
    refine Quiet.bind (quiet_requiredScript h _ _ _ _) fun _ => ?_
    exact (helse _).bind_quiet fun _ => quiet_pure _
  · rw [if_neg hif]
    unfold kindOf
    split
    · refine Quiet.bind (quiet_inlineName h fields) fun _ => ?_
      exact Quiet.bind (quiet_params hAt h fields) fun _ => quiet_pure _
    · refine Quiet.bind (quiet_requiredScript h _ _ _ _) fun _ => ?_
      refine Quiet.bind (quiet_loopVar hAt h fields) fun _ => ?_
      exact Quiet.bind (quiet_loopIndex hAt h fields) fun _ => quiet_pure _
    · exact absurd rfl hif
    · exact Quiet.bind (quiet_requiredScript h _ _ _ _) fun _ => quiet_pure _
    · exact quiet_pure _

/-- A node without a type is not read, and neither is what is below it. -/
theorem notes_node {below : Keyed (List FormatUse)}
    (hbelow : ∀ key offset, Notes At (formatsAt below key) (contentOf loaders key path position offset)) :
    Notes At (nodeFormats fields below path) (node fields loaders path position) := by
  have htype : (nodeType fields path).value = nonBlank? (fields.lookup "type") := by
    unfold nodeType
    cases fields.lookup "type" with
    | none => rfl
    | some v =>
      dsimp only
      cases nonBlank? (some v) with
      | none => rfl
      | some type => rfl
  have hquiet := quiet_nodeType hAt h fields
  rw [← List.nil_append (nodeFormats fields below path)]
  refine hquiet.bind_value ?_
  rw [htype]
  unfold nodeFormats
  cases nonBlank? (fields.lookup "type") with
  | some type =>
    refine (notes_kindOf hAt h (hbelow "else") type).bind fun ⟨kind, fallback⟩ => ?_
    exact (notes_body hAt h (hbelow "children" 0) kind fallback).bind_quiet fun _ => quiet_pure _
  | none => exact quiet_pure _

end

/-! ## Content -/

/-- The formats that a value refers to are those noted when it is loaded, as one piece of
content and as all the content of a field. -/
def NotesFormats (At : String → Prop) (v : Json) : Prop :=
  (∀ path position, At path → Notes At (contentFormats v path) (content v path position)) ∧
    ∀ path parent offset, At path → Notes At (valueFormats v path) (contentLoader v path parent offset)

/-- A value that is no array is the only piece of its field. -/
theorem notesFormats_of_content (hAt : Region At) {v : Json} (hv : ∀ items, v ≠ .array items)
    (h : ∀ path position, At path → Notes At (contentFormats v path) (content v path position)) :
    NotesFormats At v := by
  refine ⟨h, fun path parent offset hp => ?_⟩
  have hone : valueFormats v path = contentFormats v (item path 0) := by
    unfold valueFormats
    split
    · exact absurd rfl (hv _)
    · rfl
  rw [hone, contentLoader_single hv]
  exact (h _ _ (hAt.item 0 hp)).bind_quiet fun _ => quiet_pure _

theorem notes_contentOf (hAt : Region At) {fields : List (String × Json)} (hfields : ∀ f ∈ fields, NotesFormats At f.2)
    {path : String} (h : At path) (key : String) (position : List Nat) (offset : Nat) :
    Notes At (formatsAt (fieldFormats fields path) key)
      (contentOf (contentLoaders fields) key path position offset) := by
  unfold formatsAt contentOf
  rw [lookup_fieldFormats, lookup_contentLoaders]
  cases hl : fields.lookup key with
  | none => exact quiet_pure _
  | some v =>
    have hmem : (key, v) ∈ fields := by
      obtain ⟨before, after, rfl, -⟩ := List.lookup_eq_some_iff.1 hl
      exact List.mem_append_right before List.mem_cons_self
    exact (hfields _ hmem).2 _ _ _ (hAt.field key h)

-- The recursion is that of `contentFormats`, `itemFormats` and `fieldFormats`, which is also
-- that of the loaders.
mutual

theorem value_notesFormats (hAt : Region At) : ∀ v : Json, NotesFormats At v
  | .null => notesFormats_of_content hAt (by simp) fun _ _ _ => quiet_pure _
  | .bool _ => notesFormats_of_content hAt (by simp) fun _ _ _ => quiet_pure _
  | .number _ => notesFormats_of_content hAt (by simp) fun _ _ _ => quiet_pure _
  | .string text => notesFormats_of_content hAt (by simp) fun _ _ hp => quiet_textContent hp text
  | .array items => ⟨fun _ _ hp => quiet_fail hp _ _, items_notesFormats hAt items 0⟩
  | .object fields => notesFormats_of_content hAt (by simp) fun path position hp => by
      rw [content, contentFormats]
      refine Notes.bind_quiet (notes_node hAt hp fun key offset => ?_) fun _ => quiet_pure _
      exact notes_contentOf hAt (fields_notesFormats hAt fields) hp key position offset

theorem items_notesFormats (hAt : Region At) : ∀ (items : List Json) (i : Nat) (path : String) (parent : List Nat)
    (offset : Nat), At path → Notes At (itemFormats items i path) (contentItems items i path parent offset)
  | [], _, _, _, _, _ => quiet_pure []
  | v :: more, i, path, parent, offset, hp => by
    rw [contentItems, itemFormats]
    refine Notes.bind ((value_notesFormats hAt v).1 _ _ (hAt.item i hp)) fun first => ?_
    exact (items_notesFormats hAt more (i + 1) path parent offset hp).bind_quiet fun _ => quiet_pure _

theorem fields_notesFormats (hAt : Region At) : ∀ (fields : List (String × Json)), ∀ f ∈ fields, NotesFormats At f.2
  | [], _, hf => absurd hf List.not_mem_nil
  | (_, v) :: more, f, hf => by
    rcases List.mem_cons.1 hf with rfl | hf
    · exact value_notesFormats hAt v
    · exact fields_notesFormats hAt more f hf

end

/-- Loading a definition notes the formats it refers to, in order. -/
theorem notes_definition (hAt : Region At) (v : Json) {path : String} (h : At path) (position : List Nat) :
    Notes At (definitionFormats v path) (definition v path position) := by
  cases v with
  | object fields =>
    have hbelow := notes_contentOf hAt (fields_notesFormats hAt fields) h "children" position 0
    refine Quiet.bind (quiet_definitionType hAt h fields) fun _ => ?_
    refine Quiet.bind (quiet_definitionName h fields) fun _ => ?_
    refine Quiet.bind (quiet_params hAt h fields) fun params => ?_
    exact (notes_body hAt h hbelow _ _).bind_quiet fun _ => quiet_pure _
  | _ => exact quiet_fail h _ _

end ViewTree.Load
