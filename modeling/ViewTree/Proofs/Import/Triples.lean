import ViewTree.Proofs.Import.Block

/-!
# What an import block holds

A block is a list of triples: a source, a symbol and a local name. Adding an import adds
the triples of the entries that are kept, and takes none away (`mem_triplesOf_addTo`). Each
source has one group and no group takes an entry a second time, so no triple is there twice
(`DistinctGroups.triples_nodup`).
-/

namespace ViewTree

/-- The local names that an import asks for. -/
def Import.locals (i : Import) : List String := i.entries.map Prod.snd

/-- What is imported from one source: symbols with their local names. -/
def SourceGroup.entries (g : SourceGroup) : List (Symbol × String) :=
  g.defaults.map (Symbol.default, ·) ++ g.everythings.map (Symbol.everything, ·) ++
    g.named.map fun e => (Symbol.named e.1, e.2)

/-- The sources, symbols and local names of groups. -/
def triplesOf (groups : Keyed SourceGroup) : List (String × Symbol × String) :=
  groups.flatMap fun g => g.2.entries.map (g.1, ·)

/-- The sources, symbols and local names of a block. -/
def ImportBlock.triples (b : ImportBlock) : List (String × Symbol × String) := triplesOf b.groups

/-! ## Groups -/

namespace SourceGroup

theorem mem_entries_add {g : SourceGroup} {symbol : Symbol} {name : String} {e : Symbol × String} :
    e ∈ (g.add symbol name).entries ↔ e = (symbol, name) ∨ e ∈ g.entries := by
  obtain ⟨symbol', name'⟩ := e
  cases symbol with
  | default => cases symbol' <;> simp [entries, add, mem_pushNew]
  | everything => cases symbol' <;> simp [entries, add, mem_pushNew]
  | named n => cases symbol' <;> simp [entries, add, mem_pushNew, eq_comm]

theorem mem_entries_addAll {g : SourceGroup} {more : List (Symbol × String)} {e : Symbol × String} :
    e ∈ (g.addAll more).entries ↔ e ∈ more ∨ e ∈ g.entries := by
  unfold addAll
  induction more generalizing g with
  | nil => simp
  | cons m more ih =>
    rw [List.foldl_cons, ih, mem_entries_add, List.mem_cons]
    exact or_left_comm.trans or_assoc.symm

end SourceGroup

/-- Entries added to a source are there, and so is all that was. -/
theorem mem_triplesOf_addTo {groups : Keyed SourceGroup} {source : String} {more : List (Symbol × String)}
    {t : String × Symbol × String} :
    t ∈ triplesOf (ImportBlock.addTo groups source more) ↔ t ∈ more.map (source, ·) ∨ t ∈ triplesOf groups := by
  have hgroup : ∀ g : SourceGroup, t ∈ (g.addAll more).entries.map (source, ·) ↔
      t ∈ more.map (source, ·) ∨ t ∈ g.entries.map (source, ·) := by
    intro g
    simp only [List.mem_map, SourceGroup.mem_entries_addAll, or_and_right, exists_or]
  unfold ImportBlock.addTo
  induction groups with
  | nil =>
    have hempty : ({} : SourceGroup).entries = [] := rfl
    simpa [Keyed.put, triplesOf, hempty] using hgroup {}
  | cons g groups ih =>
    obtain ⟨key, g⟩ := g
    have hcons : ∀ g groups, triplesOf ((key, g) :: groups) = g.entries.map (key, ·) ++ triplesOf groups :=
      fun _ _ => List.flatMap_cons
    rw [Keyed.put, List.lookup_cons]
    split
    · rename_i hkey
      subst hkey
      rw [beq_self_eq_true, hcons, hcons, List.mem_append, List.mem_append, Option.getD_some, hgroup, or_assoc]
    · rename_i hkey
      rw [beq_false_of_ne (Ne.symm hkey)]
      dsimp only
      rw [hcons, hcons, List.mem_append, List.mem_append]
      exact (or_congr_right ih).trans or_left_comm

namespace Keyed

variable {α : Type}

theorem lookup_of_has_false {m : Keyed α} {key : String} (h : m.has key = false) : m.lookup key = none := by
  simpa [has] using h

end Keyed

/-! ## Groups hold nothing twice -/

theorem Keyed.keys_put_nodup {α : Type} {m : Keyed α} (h : (m.map Prod.fst).Nodup) (key : String) (value : α) :
    ((m.put key value).map Prod.fst).Nodup := by
  induction m with
  | nil => exact List.nodup_singleton key
  | cons q m ih =>
    rw [List.map_cons, List.nodup_cons] at h
    rw [put]
    split
    · exact List.nodup_cons.2 h
    · rename_i hkey
      rw [List.map_cons, List.nodup_cons, keys_put, not_or]
      exact ⟨⟨hkey, h.1⟩, ih h.2⟩

theorem nodup_pushNew {α : Type} [BEq α] [LawfulBEq α] {items : List α} (h : items.Nodup) (a : α) :
    (pushNew items a).Nodup := by
  unfold pushNew
  split
  · exact h
  · rename_i hnew
    rw [List.contains_iff_mem] at hnew
    exact h.append (List.nodup_singleton a) (List.disjoint_singleton.2 hnew)

namespace SourceGroup

/-- No entry is in the group twice. -/
structure Distinct (g : SourceGroup) : Prop where
  defaults : g.defaults.Nodup
  everythings : g.everythings.Nodup
  named : g.named.Nodup

theorem Distinct.add {g : SourceGroup} (h : g.Distinct) (symbol : Symbol) (name : String) :
    (g.add symbol name).Distinct := by
  cases symbol with
  | default => exact ⟨nodup_pushNew h.defaults name, h.everythings, h.named⟩
  | everything => exact ⟨h.defaults, nodup_pushNew h.everythings name, h.named⟩
  | named s => exact ⟨h.defaults, h.everythings, nodup_pushNew h.named (s, name)⟩

theorem Distinct.addAll {g : SourceGroup} (h : g.Distinct) (entries : List (Symbol × String)) :
    (g.addAll entries).Distinct :=
  List.foldlRecOn (motive := Distinct) _ _ h fun _ hg e _ => hg.add e.1 e.2

theorem Distinct.entries_nodup {g : SourceGroup} (h : g.Distinct) : g.entries.Nodup := by
  have hdefaults : (g.defaults.map (Symbol.default, ·)).Nodup := h.defaults.map fun a b hab => by simpa using hab
  have heverythings : (g.everythings.map (Symbol.everything, ·)).Nodup :=
    h.everythings.map fun a b hab => by simpa using hab
  have hnamed : (g.named.map fun e => (Symbol.named e.1, e.2)).Nodup :=
    h.named.map fun a b hab => by simpa [Prod.ext_iff] using hab
  refine (hdefaults.append heverythings ?_).append hnamed ?_
  · simp [List.disjoint_left]
  · simp only [List.disjoint_left, List.mem_append, List.mem_map, not_exists, not_and]
    rintro _ (⟨_, -, rfl⟩ | ⟨_, -, rfl⟩) e - he
    · cases (Prod.mk.inj he).1
    · cases (Prod.mk.inj he).1

end SourceGroup

/-- Every source has one group, and no group holds an entry twice. -/
structure DistinctGroups (groups : Keyed SourceGroup) : Prop where
  sources : (groups.map Prod.fst).Nodup
  groups : ∀ g ∈ groups, g.2.Distinct

theorem DistinctGroups.addTo {groups : Keyed SourceGroup} (h : DistinctGroups groups) (source : String)
    (entries : List (Symbol × String)) : DistinctGroups (ImportBlock.addTo groups source entries) := by
  refine ⟨Keyed.keys_put_nodup h.sources _ _, fun g hg => ?_⟩
  rcases Keyed.mem_put hg with rfl | hg
  · refine SourceGroup.Distinct.addAll ?_ entries
    cases hl : groups.lookup source with
    | none => exact ⟨List.nodup_nil, List.nodup_nil, List.nodup_nil⟩
    | some old => exact h.groups _ (mem_of_lookup hl)
  · exact h.groups g hg

theorem DistinctGroups.triples_nodup {groups : Keyed SourceGroup} (h : DistinctGroups groups) :
    (triplesOf groups).Nodup := by
  refine List.nodup_flatMap.2 ⟨fun g hg => ?_, ?_⟩
  · exact (h.groups g hg).entries_nodup.map fun a b hab => (Prod.mk.inj hab).2
  · refine (List.pairwise_map.1 h.sources).imp fun {g g'} hne t ht ht' => ?_
    obtain ⟨e, -, rfl⟩ := List.mem_map.1 ht
    obtain ⟨e', -, heq⟩ := List.mem_map.1 ht'
    exact hne (congrArg Prod.fst heq).symm

end ViewTree
