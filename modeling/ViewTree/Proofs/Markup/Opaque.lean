import ViewTree.Component
import ViewTree.Proofs.Names.Rounds
import ViewTree.Proofs.Text.Shield

/-!
# Opaque texts of a tree

The scripts that the compiler copies without reading them, node by node
(`Content.opaqueTexts`). The pieces of markup and of functions keep them: each is
enclosed in a text that is shielded as a whole, or shielded itself.
-/

namespace ViewTree

/-! ## Opaque texts -/

/-- The defaults of a pattern. -/
def Pattern.defaults : Pattern → List String
  | name _ => []
  | object fields _ => fields.filterMap ObjectField.default
  | array items _ => (items.filterMap id).filterMap ArrayItem.default

/-- The script of a value. -/
def Value.script? : Value → Option String
  | script code => some code
  | literal _ => none

/-- The values, bodies, dependencies and initial values of a statement's short form. -/
def Expression.opaqueTexts : Expression → List String
  | script _ => []
  | state _ _ initial => (initial.bind Value.script?).toList
  | var _ value => [Text.trim value]
  | ref _ initial => (initial.bind Value.script?).toList
  | effect body dependencies => Text.trim body :: dependencies.getD []

/-- The keys of props that may become part of a class list or of a style. -/
def styleKeys : List String := ["class", "className", "style"]

/-- The scripts of an entry of an element's props. -/
def PropEntry.opaqueTexts : PropEntry → List String
  | attributes values =>
    values.filterMap fun (key, value) => if key ∈ styleKeys then none else value.script?
  | spread code => [code]

/-- The opaque texts that a node itself is written with. -/
def Head.opaqueTexts (head : Head) : List String :=
  match head.kind with
  | .component params =>
    (params.map Pattern.defaults).getD [] ++ head.expressions.flatMap Expression.opaqueTexts ++
      head.provides.map Provision.value
  | .element _ => head.props.flatMap PropEntry.opaqueTexts
  | .map data var _ => Text.trim data :: var.defaults
  | .branch condition => [Text.trim condition]
  | .script code => [code]

mutual

/-- The opaque texts of a piece of content. What is below a script is not rendered. -/
def Content.opaqueTexts : Content → List String
  | .text _ => []
  | .literal _ => []
  | .script code => [code]
  | .node head children fallback =>
    head.opaqueTexts ++
      match head.kind with
      | .script _ => []
      | _ => contentOpaqueTexts children ++ contentOpaqueTexts fallback

/-- The opaque texts of a list of content. -/
def contentOpaqueTexts : List Content → List String
  | [] => []
  | c :: rest => c.opaqueTexts ++ contentOpaqueTexts rest

end

theorem contentOpaqueTexts_eq_flatMap (cs : List Content) : contentOpaqueTexts cs = cs.flatMap Content.opaqueTexts := by
  induction cs with
  | nil => rfl
  | cons c cs ih => rw [contentOpaqueTexts, ih, List.flatMap_cons]

/-- The opaque texts of a node and of everything rendered below it. -/
def Node.opaqueTexts (n : Node) : List String := n.toContent.opaqueTexts

open Text

/-! ## Patterns and statements -/

theorem opens_comma : Opens ", " := ⟨' ', rfl, by decide, by decide⟩

theorem closes_comma : Closes ", " := ⟨',', rfl, by decide⟩

theorem withDefault_enclosed {t text s : String} (h : Enclosed (withDefault text (some t)) s) : Enclosed t s :=
  Enclosed.drop_left (Opens.append_left ⟨' ', rfl, by decide, by decide⟩ text) h

/-- The defaults of a pattern stand in it as they are. -/
theorem Pattern.defaults_enclosed {p : Pattern} {t : String} (h : t ∈ p.defaults) : Enclosed t p.render := by
  cases p with
  | name n => cases h
  | object fields rest =>
    obtain ⟨f, hf, hd⟩ := List.mem_filterMap.1 h
    have he : Enclosed f.render (Pattern.render (.object fields rest)) :=
      Enclosed.join ⟨' ', rfl, by decide, by decide⟩ ⟨' ', rfl, by decide⟩ opens_comma closes_comma
        (List.mem_append_left _ (List.mem_map_of_mem hf))
    rw [ObjectField.render, hd] at he
    exact withDefault_enclosed he
  | array items rest =>
    obtain ⟨i, hi, hd⟩ := List.mem_filterMap.1 h
    obtain ⟨o, ho, rfl⟩ := List.mem_filterMap.1 hi
    have he : Enclosed (ArrayItem.renderOption (some i)) (Pattern.render (.array items rest)) :=
      Enclosed.join ⟨'[', rfl, by decide, by decide⟩ ⟨']', rfl, by decide⟩ opens_comma closes_comma
        (List.mem_append_left _ (List.mem_map_of_mem ho))
    rw [ArrayItem.renderOption, hd] at he
    exact withDefault_enclosed he

theorem hookCall_enclosed {initial : Option Value} {t : String} (h : t ∈ (initial.bind Value.script?).toList)
    (hook : String) : Enclosed t (Statement.hookCall hook initial) := by
  obtain ⟨value, rfl, hv⟩ := Option.bind_eq_some_iff.1 (Option.mem_toList.1 h)
  cases value with
  | literal v => cases hv
  | script code =>
    obtain rfl := Option.some.inj hv
    exact Enclosed.between (Opens.append_left ⟨'(', rfl, by decide, by decide⟩ hook) ⟨')', rfl, by decide⟩ code

theorem callback_enclosed (body : String) : Enclosed body (Statement.callback body) := by
  unfold Statement.callback
  split
  · exact Enclosed.between ⟨'\n', rfl, by decide, by decide⟩ ⟨'\n', rfl, by decide⟩ body
  · exact Enclosed.between ⟨' ', rfl, by decide, by decide⟩ ⟨' ', rfl, by decide⟩ body

theorem effectCall_body_enclosed (body : String) (dependencies : Option (List String)) :
    Enclosed body (Statement.effectCall body dependencies) := by
  have he := (callback_enclosed body).append_left "useEffect("
  cases dependencies with
  | none => exact he.append_right _
  | some deps => exact ((he.append_right _).append_right _).append_right _

theorem effectCall_dependency_enclosed {deps : List String} {t : String} (h : t ∈ deps) (body : String) :
    Enclosed t (Statement.effectCall body (some deps)) :=
  Enclosed.join (Opens.append_left ⟨'[', rfl, by decide, by decide⟩ _) ⟨']', rfl, by decide⟩ opens_comma
    closes_comma h

/-- The code of a declaration stands in its statement, whichever keyword it has. -/
theorem declare_enclosed {pattern : Pattern} {code t : String} {hook : Option String} (h : Enclosed t code)
    (redeclared : Bool) : Enclosed t { Statement.declare pattern code hook with redeclared }.render :=
  (h.append_left _).append_right _

/-- The opaque texts of an expression stand in its statement as they are. -/
theorem Expression.texts_enclosed {e : Expression} {t : String} (h : t ∈ e.opaqueTexts) (redeclared : Bool) :
    Enclosed t { Statement.ofExpression e with redeclared }.render := by
  cases e with
  | script code => cases h
  | state getter setter initial => exact declare_enclosed (hookCall_enclosed h _) redeclared
  | var pattern value =>
    obtain rfl := List.mem_singleton.1 h
    exact Enclosed.between (Opens.append_left ⟨' ', rfl, by decide, by decide⟩ _) ⟨';', rfl, by decide⟩ _
  | ref name initial => exact declare_enclosed (hookCall_enclosed h _) redeclared
  | effect body dependencies =>
    rcases List.mem_cons.1 h with rfl | h
    · exact (effectCall_body_enclosed _ dependencies).append_right _
    · cases dependencies with
      | none => cases h
      | some deps => exact (effectCall_dependency_enclosed h _).append_right _

/-! ## Markup -/

namespace Markup

theorem operand_shielded {b : String} {d : Char} (hb : b.toList.head? = some d) (hd : KeepsLine d) (code : String) :
    Shielded (Text.trim code) ("\x7b" ++ shield (operand code) ++ b) := by
  unfold operand
  dsimp only
  split
  · exact Shielded.between (c := '\x7b') rfl hb (by decide) hd _
  · have he : Enclosed (Text.trim code) ("(" ++ Text.trim code ++ ")") :=
      Enclosed.between ⟨'(', rfl, by decide, by decide⟩ ⟨')', rfl, by decide⟩ _
    exact (he.shield.append_left _).append_right _

theorem braces_shielded (code : String) : Shielded code (braces (shield code)) :=
  Shielded.between (c := '\x7b') (d := '\x7d') rfl rfl (by decide) (by decide) code

/-! ### Elements -/

theorem wrap_opening {t opening : String} (h : Shielded t opening) (tag : String) (items : List String) :
    Shielded t (wrap opening tag items) := by
  have ho := h.append_left "<"
  unfold wrap
  split
  · split
    · rename_i he
      obtain ⟨c, d, -, -, -, hi⟩ := h
      rw [String.isEmpty_iff.1 he] at hi
      simp at hi
    · exact ho.append_right _
  · dsimp only
    split
    · exact (((ho.append_right _).append_right _).append_right _).append_right _ |>.append_right _
    · exact (((ho.append_right _).append_right _).append_right _).append_right _ |>.append_right _

theorem wrap_item {t item : String} (h : Shielded t item) {items : List String} (hi : item ∈ items)
    (opening tag : String) : Shielded t (wrap opening tag items) := by
  unfold wrap
  split
  · cases hi
  · dsimp only
    split
    · exact ((((h.join hi "").append_left _).append_right _).append_right _).append_right _
    · exact ((((h.join hi "\n").indent.append_left _).append_right _).append_right _).append_right _

theorem elementText_attribute {t attr : String} (h : Shielded t attr) {attributes : List String}
    (ha : attr ∈ attributes) (tag : String) (items : List String) :
    Shielded t (elementText tag attributes items) := by
  unfold elementText
  apply wrap_opening
  cases attributes with
  | nil => cases ha
  | cons a as => exact (h.join ha " ").append_left _

theorem elementText_item {t item : String} (h : Shielded t item) {items : List String} (hi : item ∈ items)
    (tag : String) (attributes : List String) : Shielded t (elementText tag attributes items) :=
  wrap_item h hi _ _

theorem single_shielded {t item : String} (h : Shielded t item) {items : List String} (hi : item ∈ items)
    (contents : List Content) : ∃ m, single contents items = some m ∧ Shielded t m := by
  unfold single
  split
  · cases hi
  · obtain rfl := List.mem_singleton.1 hi
    split
    · exact ⟨_, rfl, h⟩
    · exact ⟨_, rfl, wrap_item h hi "" ""⟩
  · exact ⟨_, rfl, wrap_item h hi "" ""⟩

theorem singleOrNull_shielded {t item : String} (h : Shielded t item) {items : List String} (hi : item ∈ items)
    (contents : List Content) : Shielded t (singleOrNull contents items) := by
  obtain ⟨m, hm, hs⟩ := single_shielded h hi contents
  rw [singleOrNull, hm]
  exact hs

/-! ### Attributes -/

theorem isClassKey_of_notMem {key : String} (h : key ∉ styleKeys) (platform : Platform) :
    isClassKey platform key = false := by
  simp only [styleKeys, List.mem_cons, not_or] at h
  cases platform with
  | web => simp [isClassKey, Platform.classAttribute, h.1, h.2.1]
  | crossPlatform => rfl

theorem add_grows (platform : Platform) (a : Attributes) (key : String) (value : Value) :
    a.others <+: (a.add platform key value).others := by
  unfold Attributes.add
  split
  · exact List.prefix_refl _
  · split
    · exact List.prefix_refl _
    · exact List.prefix_append _ _

theorem addEntry_grows (platform : Platform) (a : Attributes) (entry : PropEntry) :
    a.others <+: (a.addEntry platform entry).others := by
  cases entry with
  | spread code => exact List.prefix_append _ _
  | attributes values =>
    exact List.foldlRecOn (motive := fun b : Attributes => a.others <+: b.others) _ _ (List.prefix_refl _)
      fun b hb p _ => hb.trans (add_grows platform b p.1 p.2)

/-- A script under a key that has no part in classes and styles is an attribute. -/
theorem add_script (platform : Platform) (a : Attributes) {key : String} (hk : key ∉ styleKeys) (code : String) :
    ∃ o ∈ (a.add platform key (.script code)).others, Shielded code o := by
  have hstyle : (key == "style") = false := by
    simp only [styleKeys, List.mem_cons, not_or] at hk
    simp [hk.2.2.1]
  unfold Attributes.add
  rw [isClassKey_of_notMem hk, hstyle]
  refine ⟨_, List.mem_append_right _ (List.mem_singleton.2 rfl), Enclosed.shield ?_⟩
  exact (Enclosed.between ⟨'\x7b', rfl, by decide, by decide⟩ ⟨'\x7d', rfl, by decide⟩ code).append_left _

theorem addEntry_texts (platform : Platform) (a : Attributes) (entry : PropEntry) :
    ∀ t ∈ entry.opaqueTexts, ∃ o ∈ (a.addEntry platform entry).others, Shielded t o := by
  intro t ht
  cases entry with
  | spread code =>
    obtain rfl := List.mem_singleton.1 ht
    refine ⟨_, List.mem_append_right _ (List.mem_singleton.2 rfl), ?_⟩
    exact Shielded.between (c := '.') (d := '\x7d') rfl rfl (by decide) (by decide) t
  | attributes values =>
    obtain ⟨⟨key, value⟩, hmem, hv⟩ := List.mem_filterMap.1 ht
    have hgiven : key ∉ styleKeys ∧ value = .script t := by
      dsimp only at hv
      split at hv
      · cases hv
      · rename_i hk
        cases value with
        | literal v => cases hv
        | script code => exact ⟨hk, congrArg Value.script (Option.some.inj hv)⟩
    refine foldl_achieves (f := fun a (p : String × Value) => a.add platform p.1 p.2)
      (Q := fun p b => p.1 ∉ styleKeys ∧ p.2 = .script t → ∃ o ∈ b.others, Shielded t o) ?_ ?_ values a
      (key, value) hmem hgiven
    · rintro b ⟨k, v⟩ ⟨hk, hv⟩
      simp only at hk hv
      rw [hv]
      exact add_script platform b hk t
    · intro b p q hb hp
      obtain ⟨o, ho, hs⟩ := hb hp
      exact ⟨o, (add_grows platform b q.1 q.2).subset ho, hs⟩

/-- The opaque texts of props stand in the attributes, whatever the styles. -/
theorem attributes_texts (platform : Platform) {props : List PropEntry} (styles : List ResolvedStyle) {t : String}
    (h : t ∈ props.flatMap PropEntry.opaqueTexts) :
    ∃ o ∈ (attributes platform props styles).value, Shielded t o := by
  obtain ⟨entry, he, ht⟩ := List.mem_flatMap.1 h
  have hothers : ∃ o ∈ (Attributes.collect platform props styles).others, Shielded t o := by
    refine foldl_achieves (f := Attributes.addEntry platform)
      (Q := fun e b => t ∈ e.opaqueTexts → ∃ o ∈ b.others, Shielded t o) ?_ ?_ props _ entry he ht
    · exact fun b e => addEntry_texts platform b e t
    · intro b e e' hb hte
      obtain ⟨o, ho, hs⟩ := hb hte
      exact ⟨o, (addEntry_grows platform b e').subset ho, hs⟩
  obtain ⟨o, ho, hs⟩ := hothers
  unfold attributes
  dsimp only
  split
  · exact ⟨o, List.mem_append_right _ ho, hs⟩
  · exact ⟨o, List.mem_append_left _ (List.mem_append_right _ ho), hs⟩

end Markup

end ViewTree
