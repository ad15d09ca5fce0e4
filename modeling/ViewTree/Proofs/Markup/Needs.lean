import ViewTree.Proofs.Markup.Walk
import ViewTree.Proofs.Names.Rounds

/-!
# Where the needs of a file come from

While a file is written, its needs are noted piece by piece and only appended. A hook is
one of four, a context is one of the app, and a reference is an entry of the table that
belongs to another file (`Needs.Accounted`). Each piece notes nothing else, so the same
holds of a whole file (`functions_accounted`).
-/

namespace ViewTree

/-- The hooks that functions call. -/
def hookNames : List String := ["useContext", "useState", "useRef", "useEffect"]

/-- The reference to an entry of the table. -/
def Scope.reference (s : Scope) (entry : ComponentEntry) : Reference :=
  ⟨s.fileName entry.owner, entry.identifier, entry.topLevel⟩

/-- What is needed is there: the hooks, the contexts and the components of other files. -/
structure Needs.Accounted (s : Scope) (index : Nat) (needs : Needs) : Prop where
  hooks : ∀ hook ∈ needs.hooks, hook ∈ hookNames
  contexts : ∀ identifier ∈ needs.contexts, identifier ∈ s.contexts.map fun c => c.2.identifier
  references : ∀ r ∈ needs.references, ∃ type entry, s.table.component? type = some entry ∧
    entry.owner ≠ index ∧ r = s.reference entry

namespace Needs

variable {s : Scope} {index : Nat}

/-- Style helpers and elements are not asked about. -/
theorem accounted_of_nil {needs : Needs} (hhooks : needs.hooks = []) (hcontexts : needs.contexts = [])
    (hreferences : needs.references = []) : Accounted s index needs where
  hooks := by simp [hhooks]
  contexts := by simp [hcontexts]
  references := by simp [hreferences]

theorem accounted_empty : Accounted s index ∅ := accounted_of_nil rfl rfl rfl

theorem Accounted.append {a b : Needs} (ha : Accounted s index a) (hb : Accounted s index b) :
    Accounted s index (a ++ b) where
  hooks hook h := (List.mem_append.1 h).elim (ha.hooks hook) (hb.hooks hook)
  contexts c h := (List.mem_append.1 h).elim (ha.contexts c) (hb.contexts c)
  references r h := (List.mem_append.1 h).elim (ha.references r) (hb.references r)

theorem accounted_each {α β : Type} {f : α → Emit β} {as : List α}
    (h : ∀ a ∈ as, Accounted s index (f a).notes) : Accounted s index (Noted.each f as).notes := by
  induction as with
  | nil => exact accounted_empty
  | cons a as ih =>
    rw [Noted.each]
    have hrest := ih fun b hb => h b (List.mem_cons_of_mem _ hb)
    exact (h a List.mem_cons_self).append (hrest.append accounted_empty)

end Needs

/-! ## Markup -/

namespace Markup

open Needs

variable (s : Scope) (index : Nat)

theorem tagOf_accounted (type : String) : Accounted s index (tagOf s index type).notes := by
  unfold tagOf
  split
  · rename_i entry hentry
    split
    · rename_i howner
      refine Accounted.append ⟨by simp, by simp, ?_⟩ accounted_empty
      intro r hr
      exact ⟨type, entry, hentry, howner, List.mem_singleton.1 hr⟩
    · exact accounted_empty.append accounted_empty
  · exact (accounted_of_nil rfl rfl rfl).append accounted_empty

theorem attributes_accounted (platform : Platform) (props : List PropEntry) (styles : List ResolvedStyle) :
    Accounted s index (attributes platform props styles).notes := by
  unfold attributes
  dsimp only
  split
  · exact accounted_empty
  · exact (accounted_of_nil rfl rfl rfl).append accounted_empty

theorem elementNode_accounted (head : Head) (type : String) (inherited : Option ResolvedStyle)
    {children : Emit (List String)} (h : Accounted s index children.notes) :
    Accounted s index (elementNode s index head type inherited children).notes :=
  (tagOf_accounted s index type).append ((attributes_accounted s index _ _ _).append (h.append accounted_empty))

theorem rendered_accounted : Rendered (fun _ => True) fun c => Accounted s index (content s index c).notes where
  leaf c hc _ := by
    rw [content_leaf hc]
    exact accounted_empty
  element n type hk _ hchildren := by
    rw [content_element hk, contents_eq_each]
    exact elementNode_accounted s index _ _ _ (accounted_each hchildren)
  frame n f hf _ hchildren halternative := by
    rw [content_frame hf, contents_eq_each, contents_eq_each]
    exact (accounted_each hchildren).append ((accounted_each halternative).append accounted_empty)

theorem contents_accounted (cs : List Content) : Accounted s index (contents s index cs).notes := by
  rw [contents_eq_each]
  exact accounted_each ((rendered_accounted s index).contents cs fun _ _ => trivial)

theorem root_accounted (d : Node) : Accounted s index (root s index d).notes := by
  have hchildren := contents_accounted s index d.children
  cases hs : s.styleOf d.head with
  | none =>
    rw [root_plain hs]
    exact hchildren.append accounted_empty
  | some style =>
    cases hd : d.rootElement? with
    | none =>
      have hcontainer : Accounted s index { tags := [s.platform.container] } := accounted_of_nil rfl rfl rfl
      rw [root_contained hs hd]
      exact hchildren.append (hcontainer.append ((attributes_accounted s index _ _ _).append accounted_empty))
    | some n =>
      obtain ⟨-, type, hk⟩ := Node.rootElement?_eq_some hd
      rw [root_element hs hd hk]
      exact (elementNode_accounted s index _ _ _ (contents_accounted s index _)).append accounted_empty

end Markup

/-! ## Functions -/

theorem Statement.hook_mem {e : Expression} {names : List String} {hook : String}
    (h : (mark names (ofExpression e)).hook = some hook) : hook ∈ hookNames := by
  have hmark : (mark names (ofExpression e)).hook = (ofExpression e).hook := by
    unfold mark
    split
    · rfl
    · rfl
  rw [hmark] at h
  cases e with
  | script code => cases h
  | var pattern value => cases h
  | state getter setter initial =>
    cases h
    decide
  | ref name initial =>
    cases h
    decide
  | effect body dependencies =>
    cases h
    decide

theorem Contexts.consumer_mem {contexts : Contexts} {head : Head} {c : Consumer} (h : c ∈ contexts.consumers head) :
    c.identifier ∈ contexts.map fun c => c.2.identifier := by
  obtain ⟨name, -, hc⟩ := List.mem_filterMap.1 h
  obtain ⟨context, hlookup, rfl⟩ := Option.map_eq_some_iff.1 hc
  exact List.mem_map.2 ⟨_, mem_of_lookup hlookup, rfl⟩

theorem Contexts.provider_mem {contexts : Contexts} {head : Head} {p : Provider} (h : p ∈ contexts.providers head) :
    p.identifier ∈ contexts.map fun c => c.2.identifier := by
  obtain ⟨provision, -, hp⟩ := List.mem_filterMap.1 h
  obtain ⟨context, hlookup, rfl⟩ := Option.map_eq_some_iff.1 hp
  exact List.mem_map.2 ⟨_, mem_of_lookup hlookup, rfl⟩

theorem Function.ofDefinition_accounted (s : Scope) (index : Nat) (d : Node) (isComponent : Bool) :
    Needs.Accounted s index (ofDefinition s index d isComponent).notes := by
  refine Needs.Accounted.append ⟨?_, ?_, by simp⟩
    ((Markup.root_accounted s index d).append Needs.accounted_empty)
  · intro hook hhook
    rcases List.mem_append.1 hhook with hhook | hhook
    · split at hhook
      · cases hhook
      · obtain rfl := List.mem_singleton.1 hhook
        decide
    · obtain ⟨statement, hs, hhook⟩ := List.mem_filterMap.1 (List.mem_eraseDups.1 hhook)
      obtain ⟨original, ho, rfl⟩ := List.mem_map.1 hs
      obtain ⟨e, -, rfl⟩ := List.mem_map.1 ho
      exact Statement.hook_mem hhook
  · intro identifier hidentifier
    rcases List.mem_append.1 hidentifier with h | h
    · obtain ⟨c, hc, rfl⟩ := List.mem_map.1 h
      exact Contexts.consumer_mem hc
    · obtain ⟨p, hp, rfl⟩ := List.mem_map.1 h
      exact Contexts.provider_mem hp

/-- What a component's file needs is accounted for. -/
theorem ComponentFile.functions_accounted (s : Scope) (index : Nat) (c : Node) :
    Needs.Accounted s index (functions s index c).notes :=
  Needs.accounted_each fun d _ => Function.ofDefinition_accounted s index d.1 _

end ViewTree
