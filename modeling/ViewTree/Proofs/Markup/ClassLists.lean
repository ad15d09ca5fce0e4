import ViewTree.Proofs.Markup.Pieces
import ViewTree.Proofs.Names.Classes

/-!
# Classes in markup

On the web, the classes that the compiler gives to an element come first in its class
attribute, before those of the document (`collect_classes`). The attribute is shielded,
so it is found again in the file as it is (`pieces_shielded`), and each of these classes
stands in it between blanks or quotes (`InClassAttribute`).
-/

namespace ViewTree

open Text

/-- The class stands in a class attribute of the text: right at the start of the list or
after other classes, and up to a blank or the end of the list. -/
def InClassAttribute (k : String) (text : List Char) : Prop :=
  ∃ start ∈ ["className=\"", "className=\x7b`"], ∃ before : List String, ∃ last ∈ [' ', '"', '`'],
    (∀ b ∈ before, isClassName b = true) ∧
      start.toList ++ (before.flatMap fun b => b.toList ++ [' ']) ++ k.toList ++ [last] <:+: text

theorem InClassAttribute.of_infix {k : String} {text more : List Char} (h : InClassAttribute k text)
    (hi : text <:+: more) : InClassAttribute k more := by
  obtain ⟨start, hstart, before, last, hlast, hbefore, ht⟩ := h
  exact ⟨start, hstart, before, last, hlast, hbefore, ht.trans hi⟩

namespace Markup

/-! ## Class lists -/

/-- The classes of a list, each with the blank after it, up to one of them. -/
theorem join_blank (before : List String) (k : String) (more : List String) :
    ∃ after, (after = [] ∨ ∃ rest, after = ' ' :: rest) ∧
      (join " " (before ++ k :: more)).toList =
        (before.flatMap fun b => b.toList ++ [' ']) ++ (k.toList ++ after) := by
  induction before with
  | nil =>
    cases more with
    | nil => exact ⟨[], .inl rfl, by simp [join]⟩
    | cons m ms => exact ⟨' ' :: (join " " (m :: ms)).toList, .inr ⟨_, rfl⟩, by simp [join]⟩
  | cons b bs ih =>
    obtain ⟨after, hafter, hjoin⟩ := ih
    refine ⟨after, hafter, ?_⟩
    have hcons : join " " (b :: (bs ++ k :: more)) = b ++ " " ++ join " " (bs ++ k :: more) := by
      cases bs with
      | nil => rfl
      | cons c cs => rfl
    rw [List.cons_append, hcons]
    simp [hjoin]

theorem escapeBackquote_plain {cs : List Char} (h : ∀ c ∈ cs, isClassChar c = true ∨ c = ' ') :
    cs.flatMap escapeBackquote = cs := by
  induction cs with
  | nil => rfl
  | cons c cs ih =>
    have hc : c ≠ '`' := by
      rintro rfl
      exact absurd (h '`' List.mem_cons_self) (by decide)
    rw [List.flatMap_cons, ih fun d hd => h d (List.mem_cons_of_mem _ hd), escapeBackquote, if_neg hc]
    rfl

/-- A class is followed by a blank or by what closes the list. -/
theorem inClassAttribute_of_split {start : String} (hstart : start ∈ ["className=\"", "className=\x7b`"])
    {before : List String} (hbefore : ∀ b ∈ before, isClassName b = true) (k : String) {after : List Char}
    (hafter : after = [] ∨ ∃ more, after = ' ' :: more) {close : Char} (hclose : close ∈ ['"', '`'])
    (rest : List Char) :
    InClassAttribute k
      (start.toList ++ ((before.flatMap fun b => b.toList ++ [' ']) ++ (k.toList ++ after)) ++ close :: rest) := by
  rcases hafter with rfl | ⟨more, rfl⟩
  · refine ⟨start, hstart, before, close, List.mem_cons_of_mem _ hclose, hbefore, [], rest, ?_⟩
    simp
  · refine ⟨start, hstart, before, ' ', List.mem_cons_self, hbefore, [], more ++ close :: rest, ?_⟩
    simp

/-- Every class that comes before those of the document stands in the attribute. -/
theorem classValue_holds {ks : List String} (hks : ∀ k ∈ ks, isClassName k = true) (more : List Value) {value : String}
    (h : classValue (ks.map (fun k => .literal (.string k)) ++ more) = some value) :
    ∀ k ∈ ks, InClassAttribute k ("className=" ++ value).toList := by
  intro k hk
  obtain ⟨before, after, rfl⟩ := List.append_of_mem hk
  have hbefore : ∀ b ∈ before, isClassName b = true := fun b hb => hks b (List.mem_append_left _ hb)
  have hparts : (((before ++ k :: after).map fun k => Value.literal (.string k)) ++ more).map classPart =
      before ++ k :: (after ++ more.map classPart) := by
    simp [classPart, Function.comp_def]
  obtain ⟨rest, hrest, hjoin⟩ := join_blank before k (after ++ more.map classPart)
  have hplain : ∀ c ∈ (before.flatMap fun b => b.toList ++ [' ']) ++ k.toList, isClassChar c = true ∨ c = ' ' := by
    intro c hc
    rcases List.mem_append.1 hc with hc | hc
    · obtain ⟨b, hb, hc⟩ := List.mem_flatMap.1 hc
      rcases List.mem_append.1 hc with hc | hc
      · exact .inl (List.all_eq_true.1 (hbefore b hb) c hc)
      · exact .inr (List.mem_singleton.1 hc)
    · exact .inl (List.all_eq_true.1 (hks k hk) c hc)
  unfold classValue at h
  rw [hparts] at h
  split at h
  · cases h
  · dsimp only at h
    split at h
    · obtain rfl := Option.some.inj h
      have hstart : "className=\"" ∈ ["className=\"", "className=\x7b`"] := by simp
      have hclose : '"' ∈ ['"', '`'] := by simp
      have hsplit := inClassAttribute_of_split hstart hbefore k hrest hclose []
      rw [← hjoin] at hsplit
      simpa using hsplit
    · obtain rfl := Option.some.inj h
      have hescaped : rest.flatMap escapeBackquote = [] ∨ ∃ more, rest.flatMap escapeBackquote = ' ' :: more := by
        rcases hrest with rfl | ⟨more, rfl⟩
        · exact .inl rfl
        · exact .inr ⟨_, rfl⟩
      have hstart : "className=\x7b`" ∈ ["className=\"", "className=\x7b`"] := by simp
      have hclose : '`' ∈ ['"', '`'] := by simp
      have hsplit := inClassAttribute_of_split hstart hbefore k hescaped hclose ['\x7d']
      have htext : (join " " (before ++ k :: (after ++ more.map classPart))).toList.flatMap escapeBackquote =
          (before.flatMap fun b => b.toList ++ [' ']) ++ (k.toList ++ rest.flatMap escapeBackquote) := by
        rw [hjoin, ← List.append_assoc, List.flatMap_append, escapeBackquote_plain hplain, List.append_assoc]
      rw [← htext] at hsplit
      simpa [braces] using hsplit

/-! ## Attributes -/

theorem add_classes (platform : Platform) (a : Attributes) (key : String) (value : Value) :
    a.classes <+: (a.add platform key value).classes := by
  unfold Attributes.add
  split
  · exact List.prefix_append _ _
  · split
    · exact List.prefix_refl _
    · exact List.prefix_refl _

theorem addEntry_classes (platform : Platform) (a : Attributes) (entry : PropEntry) :
    a.classes <+: (a.addEntry platform entry).classes := by
  cases entry with
  | spread code => exact List.prefix_refl _
  | attributes values =>
    exact List.foldlRecOn (motive := fun b : Attributes => a.classes <+: b.classes) _ _ (List.prefix_refl _)
      fun b hb p _ => hb.trans (add_classes platform b p.1 p.2)

/-- The classes of the styles come before those of the document. -/
theorem collect_classes (platform : Platform) (props : List PropEntry) (styles : List ResolvedStyle) :
    (styles.filterMap ResolvedStyle.className).map (fun k => Value.literal (.string k)) <+:
      (Attributes.collect platform props styles).classes :=
  List.foldlRecOn (motive := fun b : Attributes =>
      (styles.filterMap ResolvedStyle.className).map (fun k => Value.literal (.string k)) <+: b.classes) props
    (Attributes.addEntry platform) (List.prefix_refl _) fun b hb entry _ => hb.trans (addEntry_classes platform b entry)

theorem classValue_isSome {classes : List Value} (h : classes ≠ []) : ∃ value, classValue classes = some value := by
  unfold classValue
  rw [if_neg (by simpa using h)]
  dsimp only
  split
  · exact ⟨_, rfl⟩
  · exact ⟨_, rfl⟩

theorem shield_className (value : String) : "className" ++ "=" ++ shield value = shield ("className=" ++ value) := by
  have hplain : shieldChars "className=".toList = "className=".toList := by decide
  rw [shield, shield, String.toList_append, shieldChars_append, hplain, String.ofList_append]
  rfl

/-- On the web, an element whose styles have classes starts with a class attribute that
holds them. -/
theorem attributes_class (props : List PropEntry) {styles : List ResolvedStyle}
    (hks : ∀ k ∈ styles.filterMap ResolvedStyle.className, isClassName k = true)
    (hne : styles.filterMap ResolvedStyle.className ≠ []) :
    ∃ value rest, (attributes .web props styles).value = shield ("className=" ++ value) :: rest ∧
      ∀ k ∈ styles.filterMap ResolvedStyle.className, InClassAttribute k ("className=" ++ value).toList := by
  obtain ⟨more, hmore⟩ := collect_classes .web props styles
  have hclasses : (Attributes.collect .web props styles).classes ≠ [] := by
    rw [← hmore]
    simp [hne]
  obtain ⟨value, hvalue⟩ := classValue_isSome hclasses
  have hclass : (Attributes.collect .web props styles).renderClass .web = [shield ("className=" ++ value)] := by
    unfold Attributes.renderClass
    rw [hvalue, ← shield_className]
    rfl
  have hholds := classValue_holds hks more (hmore ▸ hvalue)
  unfold attributes
  dsimp only
  split
  · exact ⟨value, _, by rw [hclass]; rfl, hholds⟩
  · exact ⟨value, _, by rw [hclass]; rfl, hholds⟩

/-! ## Pieces with classes -/

/-- The text is shielded in the piece, whatever character follows the piece on its line. -/
def Holds (p : Piece) (t : String) : Prop := ∀ d, KeepsLine d → Shielded t (p.text ++ String.ofList [d])

/-- An attribute is kept in the piece that its element starts with. -/
theorem attribute_holds {platform : Platform} {props : List PropEntry} {styles : List ResolvedStyle} {t : String}
    (h : shield t ∈ (attributes platform props styles).value) (node : Option Node) (tag : String) :
    Holds (opening platform node tag props styles) t := by
  intro d hd
  obtain ⟨a, b, hjoin, ha, hb⟩ := join_split " " h
  have htext : (opening platform node tag props styles).text ++ String.ofList [d] =
      ("<" ++ tag ++ " " ++ a) ++ shield t ++ (b ++ String.ofList [d]) := by
    unfold opening tagStart
    dsimp only
    rw [if_neg (by simp [List.ne_nil_of_mem h]), hjoin]
    simp only [String.append_assoc]
  have hbefore : ("<" ++ tag ++ " " ++ a).toList.getLast? = some ' ' := by
    rcases ha with rfl | ⟨a', rfl⟩
    · rw [String.append_empty, String.toList_append, List.getLast?_append]
      rfl
    · rw [← String.append_assoc, String.toList_append, List.getLast?_append]
      rfl
  rw [htext]
  rcases hb with rfl | ⟨b', rfl⟩
  · exact Shielded.between hbefore (d := d) (by simp) (by decide) hd t
  · exact Shielded.between hbefore (d := ' ') (by simp) (by decide) (by decide) t

/-- On the web, the start of an element holds a class attribute with the classes of its
styles. -/
theorem opening_holds (node : Option Node) (tag : String) (props : List PropEntry) {styles : List ResolvedStyle}
    (hks : ∀ k ∈ styles.filterMap ResolvedStyle.className, isClassName k = true) :
    ∀ k ∈ (opening .web node tag props styles).classes,
      ∃ t, Holds (opening .web node tag props styles) t ∧ InClassAttribute k t.toList := by
  intro k hk
  obtain ⟨value, rest, hattributes, hholds⟩ := attributes_class props hks (List.ne_nil_of_mem hk)
  refine ⟨"className=" ++ value, attribute_holds ?_ node tag, hholds k hk⟩
  rw [hattributes]
  exact List.mem_cons_self

/-- What follows the start of an element keeps its line. -/
theorem wrap_start {start : String} (h : start ≠ "") (tag : String) (items : List String) :
    ∃ d rest, KeepsLine d ∧ wrap start tag items = "<" ++ start ++ String.ofList [d] ++ rest := by
  unfold wrap
  cases items with
  | nil =>
    refine ⟨' ', "/>", by decide, ?_⟩
    simp [h, String.append_assoc]
  | cons i is =>
    dsimp only
    split
    · refine ⟨'>', join "" (i :: is) ++ "</" ++ tag ++ ">", by decide, ?_⟩
      simp only [String.append_assoc]
    · refine ⟨'>', "\n" ++ indent (join "\n" (i :: is)) ++ "\n</" ++ tag ++ ">", by decide, ?_⟩
      simp only [String.append_assoc]
      rfl

theorem Holds.elementText {platform : Platform} {node : Option Node} {tag : String} (ht : tag ≠ "")
    {props : List PropEntry} {styles : List ResolvedStyle} {t : String}
    (h : Holds (opening platform node tag props styles) t) (items : List String) :
    Shielded t (elementText tag (attributes platform props styles).value items) := by
  obtain ⟨d, rest, hd, hwrap⟩ :=
    wrap_start (tagStart_ne_empty ht (attributes platform props styles).value) tag items
  have hshown := (h d hd).append_right rest
  rw [opening, ← hwrap] at hshown
  exact hshown

section
variable {p : Piece} (hp : p.classes ≠ [])

include hp

theorem ne_of_classes {node : Option Node} {text : String} : p ≠ { node, text } := by
  rintro rfl
  exact hp rfl

theorem mem_closing {tag : String} {inner : List Piece} (h : p ∈ closing tag inner) : p ∈ inner := by
  unfold closing at h
  split at h
  · simp [ne_of_classes hp] at h
  · simpa [ne_of_classes hp] using h

theorem mem_expression {cs : List Content} {inner : List Piece} (h : p ∈ expression cs inner) : p ∈ inner := by
  unfold expression at h
  split at h
  · exact h
  · simpa [ne_of_classes hp] using h

theorem mem_expressionOrNull {cs : List Content} {inner : List Piece} (h : p ∈ expressionOrNull cs inner) :
    p ∈ inner := by
  unfold expressionOrNull at h
  split at h
  · simp [ne_of_classes hp] at h
  · exact mem_expression hp h

theorem mem_frame {f : Frame} {inner other : List Piece} (h : p ∈ f.pieces inner other) : p ∈ inner ∨ p ∈ other := by
  cases f with
  | loop data var i => exact .inl (by simpa [Frame.pieces, ne_of_classes hp] using h)
  | when condition => exact .inl (by simpa [Frame.pieces, ne_of_classes hp] using h)
  | choose condition => simpa [Frame.pieces, ne_of_classes hp] using h

theorem mem_provided {providers : List Provider} {inner : List Piece} (h : p ∈ provided providers inner) :
    p ∈ inner := by
  induction providers with
  | nil => exact h
  | cons provider providers ih =>
    rcases List.mem_cons.1 h with h | h
    · exact absurd h (ne_of_classes hp)
    · exact ih (mem_closing hp h)

end

section
variable {s : Scope} {index : Nat} {p : Piece} {t : String}

theorem shielded_contents {cs : List Content}
    (h : ∀ c ∈ cs, p ∈ contentPieces s index c → Shielded t (content s index c).value)
    (hmem : p ∈ contentsPieces s index cs) : ∃ item ∈ (contents s index cs).value, Shielded t item := by
  rw [contentsPieces_eq_flatMap] at hmem
  obtain ⟨c, hc, hmem⟩ := List.mem_flatMap.1 hmem
  rw [contents_value]
  exact ⟨_, List.mem_map_of_mem hc, h c hc hmem⟩

/-- What a piece with classes holds is shielded in the element it belongs to. -/
theorem elementNode_shielded (hp : p.classes ≠ []) (ht : Holds p t) {n : Node} {type : String}
    (hk : n.head.kind = .element type) (hr : Renderable s index n) (inherited : Option ResolvedStyle)
    (hchildren : ∀ c ∈ n.children, p ∈ contentPieces s index c → Shielded t (content s index c).value)
    (h : p ∈ start s index inherited n :: closing (tagOf s index type).value (contentsPieces s index n.children)) :
    Shielded t (elementNode s index n.head type inherited (contents s index n.children)).value := by
  rcases List.mem_cons.1 h with rfl | h
  · rw [start, hk] at ht
    exact ht.elementText (hr.tag type hk) _
  · obtain ⟨item, hi, hs⟩ := shielded_contents hchildren (mem_closing hp h)
    exact elementText_item hs hi _ _

/-- What a piece with classes holds is shielded in the content. -/
theorem rendered_shielded (hp : p.classes ≠ []) (ht : Holds p t) : Rendered (Renderable s index) fun c =>
    p ∈ contentPieces s index c → Shielded t (content s index c).value where
  leaf c hc _ h := by
    rw [contentPieces_leaf hc, List.mem_singleton] at h
    exact absurd h (ne_of_classes hp)
  element n type hk hr hchildren h := by
    rw [contentPieces_element hk] at h
    rw [content_element hk]
    exact elementNode_shielded hp ht hk hr none hchildren h
  frame n f hf _ hchildren halternative h := by
    rw [contentPieces_frame hf, start_frame hf] at h
    refine frame_shielded hf ?_
    rcases List.mem_cons.1 h with h | h
    · exact absurd h (ne_of_classes hp)
    · rcases mem_frame hp h with h | h
      · exact .inl (shielded_contents hchildren (mem_expressionOrNull hp h))
      · exact .inr (shielded_contents halternative (mem_expressionOrNull hp h))

/-- What a piece with classes holds is shielded in the markup of its definition. -/
theorem root_shielded (hp : p.classes ≠ []) (ht : Holds p t) {d : Node}
    (hr : ∀ n ∈ contentNodes d.children, Renderable s index n) (h : p ∈ rootPieces s index d) :
    ∃ m, (root s index d).value = some m ∧ Shielded t m := by
  have hchildren := shielded_contents ((rendered_shielded hp ht).contents d.children hr)
  cases hs : s.styleOf d.head with
  | none =>
    rw [rootPieces_plain hs] at h
    obtain ⟨item, hi, hs'⟩ := hchildren (mem_expression hp h)
    rw [root_plain hs]
    exact single_shielded hs' hi d.children
  | some style =>
    cases hd : d.rootElement? with
    | none =>
      rw [rootPieces_contained hs hd] at h
      rw [root_contained hs hd]
      refine ⟨_, rfl, ?_⟩
      rcases List.mem_cons.1 h with rfl | h
      · exact ht.elementText (container_ne_empty _) _
      · obtain ⟨item, hi, hs'⟩ := hchildren (mem_closing hp h)
        exact elementText_item hs' hi _ _
    | some n =>
      obtain ⟨-, type, hk⟩ := Node.rootElement?_eq_some hd
      obtain ⟨hown, hbelow⟩ := Node.rootElement?_forall hd hr
      rw [rootPieces_element hs hd hk] at h
      rw [root_element hs hd hk]
      have hinner := (rendered_shielded hp ht).contents n.children hbelow
      exact ⟨_, rfl, elementNode_shielded hp ht hk hown (some style) hinner h⟩

/-- What a piece with classes holds is shielded in the function of its definition. -/
theorem pieces_shielded (hp : p.classes ≠ []) (ht : Holds p t) {d : Node}
    (hr : ∀ n ∈ contentNodes d.children, Renderable s index n) (h : p ∈ pieces s index d) (isComponent : Bool) :
    Shielded t (Function.ofDefinition s index d isComponent).value.render := by
  obtain ⟨m, hm, hs⟩ := root_shielded hp ht hr (mem_provided hp h)
  obtain ⟨m', hm', hs'⟩ := Function.provide_markup hs (s.contexts.providers d.head)
  rw [← hm] at hm'
  exact Function.render_markup hm' hs'

end

end Markup

end ViewTree
