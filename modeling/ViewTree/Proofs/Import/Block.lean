import ViewTree.Import.Block
import ViewTree.Proofs.Names.Rounds
import ViewTree.Proofs.Text.Shield

/-!
# What an import block loads

The sources of a collected block are those of imports that went into it, and a source
imported for its effects or by the document is always among them. If every symbol
taken from a source has a local name, the block has a statement for that source
(`ImportBlock.loads_of_has`).
-/

namespace ViewTree

namespace Keyed

variable {α : Type}

theorem mem_put {m : Keyed α} {key : String} {value : α} {p : String × α} (h : p ∈ m.put key value) :
    p = (key, value) ∨ p ∈ m := by
  induction m with
  | nil => exact .inl (List.mem_singleton.1 h)
  | cons q m ih =>
    rw [put] at h
    split at h
    · rename_i hq
      rcases List.mem_cons.1 h with rfl | h
      · exact .inl (by rw [hq])
      · exact .inr (List.mem_cons_of_mem _ h)
    · rcases List.mem_cons.1 h with rfl | h
      · exact .inr List.mem_cons_self
      · exact (ih h).imp id (List.mem_cons_of_mem _)

theorem keys_put (m : Keyed α) (key k : String) (value : α) :
    k ∈ (m.put key value).map Prod.fst ↔ k = key ∨ k ∈ m.map Prod.fst := by
  induction m with
  | nil => simp [put]
  | cons q m ih =>
    rw [put]
    split
    · rename_i hq
      simp [hq]
    · simp only [List.map_cons, List.mem_cons, ih]
      exact or_left_comm

end Keyed

/-! ## One source -/

namespace SourceGroup

/-- Every single symbol of the group has a local name. -/
def Bound (g : SourceGroup) : Prop := ∀ e ∈ g.named, e.2 ≠ ""

theorem mem_pushNew {α : Type} [BEq α] [LawfulBEq α] {items : List α} {a b : α} :
    b ∈ pushNew items a ↔ b = a ∨ b ∈ items := by
  unfold pushNew
  split
  · rename_i h
    rw [List.contains_iff_mem] at h
    exact ⟨.inr, fun hb => hb.elim (fun heq => heq ▸ h) id⟩
  · rw [List.mem_append, List.mem_singleton]
    exact or_comm

theorem add_bound {g : SourceGroup} (h : g.Bound) {symbol : Symbol} {name : String} (hn : name ≠ "") :
    (g.add symbol name).Bound := by
  cases symbol with
  | default => exact h
  | everything => exact h
  | named s =>
    intro e he
    rcases mem_pushNew.1 he with rfl | he
    · exact hn
    · exact h e he

theorem addAll_bound {g : SourceGroup} (h : g.Bound) {entries : List (Symbol × String)}
    (hn : ∀ e ∈ entries, e.2 ≠ "") : (g.addAll entries).Bound :=
  List.foldlRecOn (motive := Bound) _ _ h fun _ hg e he => add_bound hg (hn e he)

/-- Symbols with local names are written out. -/
theorem renderNamed_ne_empty {g : SourceGroup} (h : g.Bound) (hne : g.named ≠ []) : g.renderNamed ≠ "" := by
  obtain ⟨⟨symbol, name⟩, rest, hg⟩ := List.exists_cons_of_ne_nil hne
  have hname : name ≠ "" := h (symbol, name) (hg ▸ List.mem_cons_self)
  have hfirst : (if symbol = name then symbol else symbol ++ " as " ++ name) ≠ "" := by
    split
    · rename_i hs
      exact hs ▸ hname
    · simp [hname]
  unfold renderNamed
  rw [hg, List.map_cons]
  obtain ⟨more, hmore⟩ := Text.join_cons ", " (if symbol = name then symbol else symbol ++ " as " ++ name) _
  rw [hmore]
  intro he
  exact hfirst (String.append_eq_empty_iff.1 he).1

/-- A group has at least one statement. -/
theorem render_ne_nil {g : SourceGroup} (h : g.Bound) (source : String) : g.render source ≠ [] := by
  unfold render
  dsimp only
  split
  · simp
  · -- without a statement of any form the group is empty, and then the first case applies
    rename_i hsome
    intro hnil
    simp only [List.append_eq_nil_iff, List.map_eq_nil_iff, Option.toList_eq_nil_iff] at hnil
    obtain ⟨⟨hfirst, -⟩, heverythings⟩ := hnil
    have hdefaults : g.defaults = [] ∧ g.renderNamed = "" := by
      unfold renderFirst at hfirst
      dsimp only at hfirst
      split at hfirst
      · rename_i hd hn
        exact ⟨hd, String.isEmpty_iff.1 hn⟩
      · cases hfirst
      · cases hfirst
      · cases hfirst
    have hnamed : g.named = [] := by
      by_contra hne
      exact renderNamed_ne_empty h hne hdefaults.2
    simp [hdefaults.1, heverythings, hnamed] at hsome

/-- Each statement of a group imports its source. -/
theorem mem_render {g : SourceGroup} {source line : String} (h : line ∈ g.render source) :
    line = "import '" ++ source ++ "';" ∨ ∃ what, line = statement what source := by
  unfold render at h
  dsimp only at h
  split at h
  · exact .inl (List.mem_singleton.1 h)
  · simp only [List.mem_append, List.mem_map] at h
    rcases h with (⟨what, -, rfl⟩ | ⟨d, -, rfl⟩) | ⟨n, -, rfl⟩
    · exact .inr ⟨_, rfl⟩
    · exact .inr ⟨_, rfl⟩
    · exact .inr ⟨_, rfl⟩

end SourceGroup

/-! ## Blocks -/

namespace ImportBlock

/-- The import statements of a block, one by one. -/
def statements (b : ImportBlock) : List String := b.groups.flatMap fun (source, g) => g.render source

/-- One of the statements imports the source, for its effects or for what it exports. -/
def Loads (b : ImportBlock) (source : String) : Prop :=
  ∃ line ∈ b.statements, line = "import '" ++ source ++ "';" ∨ ∃ what, line = SourceGroup.statement what source

/-- Something is imported from the source. -/
def Has (b : ImportBlock) (source : String) : Prop := source ∈ b.groups.map Prod.fst

/-- The symbols taken from the source have local names. -/
def BoundAt (source : String) (groups : Keyed SourceGroup) : Prop := ∀ g, (source, g) ∈ groups → g.Bound

theorem loads_of_has {b : ImportBlock} {source : String} (hm : b.Has source) (hb : BoundAt source b.groups) :
    b.Loads source := by
  obtain ⟨⟨k, g⟩, hg, rfl⟩ := List.mem_map.1 hm
  obtain ⟨line, rest, hl⟩ := List.exists_cons_of_ne_nil (SourceGroup.render_ne_nil (hb g hg) k)
  have hline : line ∈ g.render k := hl ▸ List.mem_cons_self
  exact ⟨line, List.mem_flatMap.2 ⟨(k, g), hg, hline⟩, SourceGroup.mem_render hline⟩

theorem addTo_bound {source key : String} {groups : Keyed SourceGroup} (h : BoundAt key groups)
    {entries : List (Symbol × String)} (hn : source = key → ∀ e ∈ entries, e.2 ≠ "") :
    BoundAt key (addTo groups source entries) := by
  intro g hg
  rcases Keyed.mem_put hg with he | hg
  · obtain ⟨rfl, rfl⟩ := Prod.mk.inj he
    refine SourceGroup.addAll_bound ?_ (hn rfl)
    cases hl : groups.lookup key with
    | none => exact fun e he => by cases he
    | some old => exact h old (mem_of_lookup hl)
  · exact h g hg

theorem takeFree_subset (reserved : Reserved) (i : Import) (entries : List (Symbol × String))
    (locals : Keyed ImportBinding) : (takeFree reserved i entries locals).1 ⊆ entries := by
  induction entries generalizing locals with
  | nil => simp [takeFree]
  | cons e entries ih =>
    obtain ⟨symbol, name⟩ := e
    rw [takeFree]
    split
    · exact List.subset_cons_of_subset _ (ih locals)
    · exact List.cons_subset_cons _ (ih _)

/-! ### One import more -/

variable {b : ImportBlock} {i : Import} {reserved : Reserved} {key : String}

theorem addUser_has : (addUser b i).Has key ↔ key = i.source ∨ b.Has key := Keyed.keys_put _ _ _ _

/-- An import of the compiler adds its source or nothing, and for its effects it adds it. -/
theorem addImplicit_cases (reserved : Reserved) (b : ImportBlock) (i : Import) :
    (i.kind ≠ .effects ∧ (addImplicit reserved b i).groups = b.groups) ∨
      ∃ kept ⊆ i.entries, (addImplicit reserved b i).groups = addTo b.groups i.source kept := by
  unfold addImplicit
  dsimp only
  split
  · rename_i hk
    exact .inl ⟨by simpa using (Bool.and_eq_true_iff.1 hk).2, rfl⟩
  · exact .inr ⟨_, takeFree_subset _ _ _ _, rfl⟩

theorem addImplicit_has (h : b.Has key) : (addImplicit reserved b i).Has key := by
  rcases addImplicit_cases reserved b i with ⟨-, hg⟩ | ⟨kept, -, hg⟩
  · rw [Has, hg]
    exact h
  · rw [Has, hg]
    exact (Keyed.keys_put _ _ _ _).2 (.inr h)

theorem addImplicit_effects (h : i.kind = .effects) : (addImplicit reserved b i).Has i.source := by
  rcases addImplicit_cases reserved b i with ⟨hk, -⟩ | ⟨kept, -, hg⟩
  · exact absurd h hk
  · rw [Has, hg]
    exact (Keyed.keys_put _ _ _ _).2 (.inl rfl)

theorem has_of_addImplicit (h : (addImplicit reserved b i).Has key) : i.source = key ∨ b.Has key := by
  rcases addImplicit_cases reserved b i with ⟨-, hg⟩ | ⟨kept, -, hg⟩
  · rw [Has, hg] at h
    exact .inr h
  · rw [Has, hg] at h
    exact ((Keyed.keys_put _ _ _ _).1 h).imp Eq.symm id

theorem addImplicit_bound (h : BoundAt key b.groups) (hn : i.source = key → ∀ e ∈ i.entries, e.2 ≠ "") :
    BoundAt key (addImplicit reserved b i).groups := by
  rcases addImplicit_cases reserved b i with ⟨-, hg⟩ | ⟨kept, hkept, hg⟩
  · rw [hg]
    exact h
  · rw [hg]
    exact addTo_bound h fun hs e he => hn hs e (hkept he)

/-! ### All imports of a file -/

variable {user implicit : List Import} {block : ImportBlock}

theorem collect_eq_ok (h : collect user implicit reserved = .ok block) :
    block = user.foldl addUser
      (implicit.foldl (addImplicit reserved) { locals := (check reserved user).locals }) := by
  unfold collect at h
  dsimp only at h
  split at h
  · exact (Except.ok.inj h).symm
  · cases h

/-- What is imported for its effects or by the document is in the block. -/
theorem collect_has (h : collect user implicit reserved = .ok block)
    (hi : i ∈ implicit ∧ i.kind = .effects ∨ i ∈ user) : block.Has i.source := by
  rw [collect_eq_ok h]
  rcases hi with ⟨hi, hk⟩ | hi
  · have himplicit := foldl_achieves (f := addImplicit reserved) (Q := fun i b => i.kind = .effects → b.Has i.source)
      (fun _ _ => addImplicit_effects) (fun _ _ _ hb hk => addImplicit_has (hb hk)) implicit
      { locals := (check reserved user).locals } i hi hk
    exact List.foldlRecOn (motive := fun b => b.Has i.source) _ addUser himplicit
      fun _ hb _ _ => addUser_has.2 (.inr hb)
  · exact foldl_achieves (f := addUser) (Q := fun i b => b.Has i.source) (fun _ _ => addUser_has.2 (.inl rfl))
      (fun _ _ _ hb => addUser_has.2 (.inr hb)) user _ i hi

/-- What is in the block is imported by the compiler or by the document. -/
theorem has_of_collect (h : collect user implicit reserved = .ok block) (hk : block.Has key) :
    ∃ i ∈ implicit ++ user, i.source = key := by
  rw [collect_eq_ok h] at hk
  have himplicit : (implicit.foldl (addImplicit reserved) { locals := (check reserved user).locals }).Has key →
      ∃ i ∈ implicit ++ user, i.source = key := by
    refine List.foldlRecOn (motive := fun b : ImportBlock => b.Has key → ∃ i ∈ implicit ++ user, i.source = key)
      _ _ ?_ ?_
    · exact fun h => by cases h
    · intro b hb i hi hk
      rcases has_of_addImplicit hk with rfl | hk
      · exact ⟨i, List.mem_append_left _ hi, rfl⟩
      · exact hb hk
  refine List.foldlRecOn (motive := fun b : ImportBlock => b.Has key → ∃ i ∈ implicit ++ user, i.source = key)
    _ addUser himplicit ?_ hk
  intro b hb i hi hk
  rcases addUser_has.1 hk with rfl | hk
  · exact ⟨i, List.mem_append_right _ hi, rfl⟩
  · exact hb hk

theorem collect_bound (h : collect user implicit reserved = .ok block)
    (hn : ∀ i ∈ implicit ++ user, i.source = key → ∀ e ∈ i.entries, e.2 ≠ "") : BoundAt key block.groups := by
  rw [collect_eq_ok h]
  have himplicit : BoundAt key
      (implicit.foldl (addImplicit reserved) { locals := (check reserved user).locals }).groups :=
    List.foldlRecOn (motive := fun b => BoundAt key b.groups) _ (addImplicit reserved) (fun g hg => by cases hg)
      fun b hb i hi => addImplicit_bound hb (hn i (List.mem_append_left _ hi))
  exact List.foldlRecOn (motive := fun b => BoundAt key b.groups) _ addUser himplicit
    fun b hb i hi => addTo_bound hb (hn i (List.mem_append_right _ hi))

end ImportBlock

end ViewTree
