import Mathlib.Data.List.Infix
import ViewTree.Proofs.Names.Table

/-!
# Names that stay apart

In an app that passes its checks a name belongs to one node (`App.eq_of_nameOf`), and a
node to one component. The identifiers of contexts are not among the names, and they are
capitalized and hold the word `Context`, so none of them is a name that the compiler
writes on its own account.
-/

namespace ViewTree

theorem Assigned.eq_of_lookup {a : Assigned} (h : (a.map Prod.snd).Nodup) {p q : List Nat} {name : String}
    (hp : a.lookup p = some name) (hq : a.lookup q = some name) : p = q :=
  congrArg Prod.fst (List.inj_on_of_nodup_map h (mem_of_lookup hp) (mem_of_lookup hq) rfl)

/-- A name that was resolved belongs to one node. -/
theorem Names.eq_of_resolved {document : Json} {app : App} {table : NameTable} (hload : Load.app document = .ok app)
    (hnames : (resolve app {}).outcome = .ok table) {m n : Node} (hm : m ∈ app.nodes) (hn : n ∈ app.nodes)
    {name : String} (h : (resolve app {}).naming.nameOf m.head = some name)
    (h' : (resolve app {}).naming.nameOf n.head = some name) : m = n := by
  obtain ⟨hsound, hsub⟩ := resolve_names hnames
  have hposition := Assigned.eq_of_lookup (hsound.nodup.sublist hsub) h h'
  exact List.inj_on_of_nodup_map (Load.app_positions_nodup hload) hm hn hposition

/-! ## Identifiers of contexts -/

namespace Contexts

/-- An identifier as contexts have them: with the word `Context` in it and no lower-case
letter at its start. -/
def Cased (identifier : String) : Prop :=
  "Context".toList <:+: identifier.toList ∧ identifier.toList.head?.any Text.isLower = false

instance (identifier : String) : Decidable (Cased identifier) := inferInstanceAs (Decidable (_ ∧ _))

/-- The identifier that a context of a name can be given: the one it asks for, or that one
with a number. -/
def Given (name identifier : String) : Prop :=
  ∃ number, identifier = identifierBase name ++ number ∧ (number = "" ∨ ∃ n, number = Text.decimal n)

theorem Given.cased {name identifier : String} (h : Given name identifier) (hname : Text.isIdentifier name = true) :
    Cased identifier := by
  obtain ⟨number, rfl, -⟩ := h
  obtain ⟨d, cs, hlist, hlower, -⟩ := Text.toList_capitalize hname
  have hsplit : (identifierBase name ++ number).toList = d :: cs ++ "Context".toList ++ number.toList := by
    simp [identifierBase, hlist]
  unfold Cased
  rw [hsplit]
  exact ⟨List.infix_append _ _ _, by simpa using hlower⟩

/-- The identifier of a context is longer than its name. -/
theorem Given.length_lt {name identifier : String} (h : Given name identifier) (hname : Text.isIdentifier name = true) :
    name.toList.length < identifier.toList.length := by
  obtain ⟨number, rfl, -⟩ := h
  obtain ⟨d, cs, hlist, -, hlength⟩ := Text.toList_capitalize hname
  simp only [identifierBase, String.toList_append, hlist, hlength, List.length_append, List.length_cons]
  have hword : "Context".toList.length = 7 := by decide
  omega

/-- The contexts have identifiers as names, and identifiers of their own after these. -/
def AllGiven (contexts : Contexts) : Prop :=
  ∀ c ∈ contexts, Text.isIdentifier c.1 = true ∧ Given c.1 c.2.identifier

theorem provide_given {s : Binding} (hplain : s.table.identifiers.separator = "") (hs : AllGiven s.contexts)
    (naming : Naming) (head : Head) {p : Provision} (hp : Text.isIdentifier p.name = true) :
    AllGiven (provide naming s head p).contexts := by
  have hpick : Given p.name (s.table.identifiers.pick (identifierBase p.name)) := by
    rcases s.table.identifiers.pick_cases (identifierBase p.name) with ⟨-, hpick⟩ | ⟨-, n, hpick, -⟩
    · exact ⟨"", by rw [hpick, String.append_empty], .inl rfl⟩
    · exact ⟨Text.decimal n, by rw [hpick, Registry.numbered, hplain, String.append_empty], .inr ⟨n, rfl⟩⟩
  unfold provide
  split
  · exact hs
  · intro c hc
    rcases List.mem_append.1 hc with hc | hc
    · exact hs c hc
    · obtain rfl := List.mem_singleton.1 hc
      exact ⟨hp, hpick⟩

end Contexts

namespace App

section

variable {document : Json} {app : App} (hload : Load.app document = .ok app) (hcheck : app.checkProblems = [])
  {options : Options}

include hload hcheck

/-- The contexts have their identifiers, which stand in the registry after the names. -/
theorem contexts_bound : ∃ taken : List String,
    (app.scope options).naming.names.map Prod.snd ⊆ taken ∧
      (taken ++ (app.scope options).contexts.map fun c => c.2.identifier).Nodup ∧
      Contexts.AllGiven (app.scope options).contexts := by
  obtain ⟨⟨table, hnames⟩, ⟨contexts, hcontexts⟩, -⟩ := check_nil hcheck
  obtain ⟨hsound, hsub⟩ := Names.resolve_names hnames
  have hprovides := Load.app_forall Load.built_provides hload
  rw [scope_contexts hcontexts]
  simp only [bound, nameTable, hnames, resultOr] at hcontexts
  obtain ⟨s, ⟨hbound, hgiven⟩, rfl⟩ := Contexts.bind_induction hcontexts
    (P := fun s => Contexts.Bound table.identifiers.taken s ∧ Contexts.AllGiven s.contexts)
    ⟨⟨hsound, by simp⟩, by simp [Contexts.AllGiven]⟩ fun s hs d hd p hp => by
      have hname := hprovides d (List.mem_of_mem_filter (app.definitions_eq ▸ hd)) p hp
      exact ⟨Contexts.provide_bound hs.1 _ _ hname, Contexts.provide_given hs.1.sound.plain hs.2 _ _ hname⟩
  -- one registry holds the names and the identifiers of contexts
  have hnodup := hbound.sound.nodup
  rw [hbound.identifiers] at hnodup
  exact ⟨table.identifiers.taken, hsub.subset, hnodup, hgiven⟩

/-- The identifiers of contexts are cased, and no node has one of them as its name. -/
theorem contexts_apart {identifier : String}
    (h : identifier ∈ (app.scope options).contexts.map fun c => c.2.identifier) :
    Contexts.Cased identifier ∧ ∀ head, (app.scope options).naming.nameOf head ≠ some identifier := by
  obtain ⟨taken, hnames, hnodup, hgiven⟩ := @contexts_bound document app hload hcheck options
  rw [List.nodup_append'] at hnodup
  obtain ⟨c, hc, rfl⟩ := List.mem_map.1 h
  obtain ⟨hname, hidentifier⟩ := hgiven c hc
  refine ⟨hidentifier.cased hname, fun head hhead => ?_⟩
  exact hnodup.2.2 (hnames (List.mem_map.2 ⟨_, mem_of_lookup hhead, rfl⟩)) h

/-- The identifier that a name stands for is the one its context was given. -/
theorem contexts_given {name : String} {context : Context}
    (h : (app.scope options).contexts.lookup name = some context) :
    Text.isIdentifier name = true ∧ Contexts.Given name context.identifier := by
  obtain ⟨-, -, -, hgiven⟩ := @contexts_bound document app hload hcheck options
  exact hgiven _ (mem_of_lookup h)

/-- A name belongs to one node. -/
theorem eq_of_nameOf {m n : Node} (hm : m ∈ app.nodes) (hn : n ∈ app.nodes) {name : String}
    (h : (app.scope options).naming.nameOf m.head = some name)
    (h' : (app.scope options).naming.nameOf n.head = some name) : m = n := by
  obtain ⟨⟨table, hnames⟩, -, -⟩ := check_nil hcheck
  exact Names.eq_of_resolved hload hnames hm hn h h'

omit hcheck

/-- A node belongs to one component. -/
theorem component_unique {i j : Nat} {c d n : Node} (hc : app.components[i]? = some c)
    (hd : app.components[j]? = some d) (hnc : n ∈ c.nodes) (hnd : n ∈ d.nodes) : i = j := by
  have hnodup : app.nodes.Nodup := (Load.app_positions_nodup hload).of_map _
  have hpairwise := List.pairwise_iff_getElem.1 (List.nodup_flatMap.1 hnodup).2
  obtain ⟨hi, rfl⟩ := List.getElem?_eq_some_iff.1 hc
  obtain ⟨hj, rfl⟩ := List.getElem?_eq_some_iff.1 hd
  rcases lt_trichotomy i j with hlt | heq | hlt
  · exact absurd hnd (hpairwise i j hi hj hlt hnc)
  · exact heq
  · exact absurd hnc (hpairwise j i hj hi hlt hnd)

end

end App

end ViewTree
