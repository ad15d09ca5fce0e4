import ViewTree.Proofs.Names.Unique

/-!
# Binding contexts

The definitions of an app provide contexts and use them, in any order and anywhere in the
app. `bind_exact` says what comes of it for every naming and every table: a problem for
each provision of a context that an earlier one provides, then a problem for each use of a
context that no definition provides. Without problems the contexts are those provided, in
document order and under fresh identifiers, and no definition loses one that it provides
or uses.
-/

namespace ViewTree

/-- What the elements of a list give that are read with those before them. -/
def withBefore {α β : Type} (f : List α → α → Option β) (l : List α) : List β :=
  l.zipIdx.filterMap fun x => f (l.take x.2) x.1

theorem withBefore_append {α β : Type} (f : List α → α → Option β) (l : List α) (a : α) :
    withBefore f (l ++ [a]) = withBefore f l ++ (f l a).toList := by
  unfold withBefore
  rw [List.zipIdx_append, List.filterMap_append]
  congr 1
  · -- the elements of `l` have the same ones before them as without `a`
    apply List.filterMap_congr
    rintro ⟨b, i⟩ hb
    have hi := (List.mem_zipIdx_iff_getElem?.1 hb)
    have hlt : i < l.length := (List.getElem?_eq_some_iff.1 hi).1
    dsimp only
    rw [List.take_append_of_le_length hlt.le]
  · cases h : f l a <;> simp [h]

theorem exists_of_mem_withBefore {α β : Type} {f : List α → α → Option β} {l : List α} {b : β}
    (h : b ∈ withBefore f l) : ∃ before a, f before a = some b := by
  obtain ⟨x, -, hx⟩ := List.mem_filterMap.1 h
  exact ⟨_, _, hx⟩

/-- A list all of whose elements give something. -/
theorem forall₂_filterMap {α β : Type} {f : α → Option β} {l : List α} (h : ∀ a ∈ l, (f a).isSome = true) :
    List.Forall₂ (fun a b => f a = some b) l (l.filterMap f) := by
  induction l with
  | nil => exact .nil
  | cons a l ih =>
    obtain ⟨b, hb⟩ := Option.isSome_iff_exists.1 (h a List.mem_cons_self)
    rw [List.filterMap_cons_some hb]
    exact .cons hb (ih fun x hx => h x (List.mem_cons_of_mem a hx))

/-- What a context is called, and who provides it where. -/
def Context.origin (c : Context) : String × String × String := (c.name, c.provider, c.path)

namespace Contexts

/-! ## Provisions and those before them -/

/-- The first provision of a context. -/
def firstOf (all : List (Head × Provision)) (name : String) : Option (Head × Provision) :=
  all.find? fun q => q.2.name == name

/-- The problem of a provision whose context one of those before it provides. -/
def repetition (naming : Naming) (before : List (Head × Provision)) (q : Head × Provision) : Option Problem :=
  (firstOf before q.2.name).map fun first =>
    { rule := .singleProvider
      cause := .repeatedProvider q.2.name (naming.display first.1) (naming.display q.1)
      path := q.1.path
      related := [first.1.path] }

/-- The problems of all provisions, in order. -/
def repetitions (naming : Naming) (all : List (Head × Provision)) : List Problem :=
  withBefore (repetition naming) all

/-- The provisions whose context none of those before them provides. -/
def firsts (all : List (Head × Provision)) : List (Head × Provision) :=
  withBefore (fun before q => if firstOf before q.2.name = none then some q else none) all

/-- The problems of the uses of contexts that no definition provides, in order. -/
def missing (naming : Naming) (app : App) : List Problem :=
  ((uses app).filter fun u => (firstOf (provisions app) u.2.1).isNone).map fun u =>
    { rule := .knownContext
      cause := .unprovided (naming.display u.1) u.2.1
      path := u.1.path ++ ".useContexts[" ++ Text.decimal u.2.2 ++ "]" }

/-- What a context that is provided should be called, and who provides it where. -/
def originOf (naming : Naming) (q : Head × Provision) : String × String × String :=
  (q.2.name, naming.display q.1, q.1.path)

theorem firstOf_append (all : List (Head × Provision)) (q : Head × Provision) (name : String) :
    firstOf (all ++ [q]) name = (firstOf all name).or (if q.2.name = name then some q else none) := by
  unfold firstOf
  rw [List.find?_append]
  congr 1
  by_cases h : q.2.name = name
  · simp [h]
  · simp [h]

theorem name_of_firstOf {all : List (Head × Provision)} {name : String} {q : Head × Provision}
    (h : firstOf all name = some q) : q.2.name = name := by
  unfold firstOf at h
  simpa using List.find?_some h

theorem repetitions_append (naming : Naming) (all : List (Head × Provision)) (q : Head × Provision) :
    repetitions naming (all ++ [q]) = repetitions naming all ++ (repetition naming all q).toList :=
  withBefore_append _ all q

theorem firsts_append (all : List (Head × Provision)) (q : Head × Provision) :
    firsts (all ++ [q]) = firsts all ++ (if firstOf all q.2.name = none then some q else none).toList :=
  withBefore_append _ all q

/-- Without repetitions every provision is the first of its context. -/
theorem firsts_of_repetitions {naming : Naming} {all : List (Head × Provision)} (h : repetitions naming all = []) :
    firsts all = all := by
  have hfirst : ∀ x ∈ all.zipIdx, firstOf (all.take x.2) x.1.2.name = none := by
    intro x hx
    have hnone := List.filterMap_eq_nil_iff.1 h x hx
    exact Option.map_eq_none_iff.1 hnone
  calc firsts all = all.zipIdx.filterMap (some ∘ Prod.fst) := by
        apply List.filterMap_congr
        intro x hx
        exact if_pos (hfirst x hx)
    _ = all := by rw [List.filterMap_eq_map, List.zipIdx_map_fst]

/-! ## One provision after the other -/

/-- The contexts that are bound after some of the provisions, of which the first ones are
bound, and the problems found. -/
structure Follows (naming : Naming) (table : NameTable) (done : List (Head × Provision)) (s : Binding) : Prop where
  entries : (s.contexts.map fun e => (e.1, e.2.origin)) = (firsts done).map fun q => (q.2.name, originOf naming q)
  lookup : ∀ name, (s.contexts.lookup name).map Context.origin = (firstOf done name).map (originOf naming)
  problems : s.problems = repetitions naming done
  /-- Identifiers are taken from the table, and nothing else changes in it. -/
  claimed : s.table = { table with identifiers := { table.identifiers with
    taken := table.identifiers.taken ++ s.contexts.map fun e => e.2.identifier } }
  distinct : (s.contexts.map fun e => e.2.identifier).Nodup
  fresh : ∀ e ∈ s.contexts, e.2.identifier ∉ table.identifiers.taken

variable {naming : Naming} {table : NameTable} {done : List (Head × Provision)} {s : Binding}

theorem Follows.start (naming : Naming) (table : NameTable) : Follows naming table [] { table } where
  entries := rfl
  lookup _ := rfl
  problems := rfl
  claimed := by simp
  distinct := List.nodup_nil
  fresh e he := by cases he

/-- A context that is there keeps its place, and the provision is a problem. -/
theorem Follows.repeated (h : Follows naming table done s) (head : Head) (p : Provision) {earlier : Context}
    (hl : s.contexts.lookup p.name = some earlier) :
    Follows naming table (done ++ [(head, p)]) (provide naming s head p) := by
  have horigin := h.lookup p.name
  rw [hl, Option.map_some] at horigin
  obtain ⟨first, hfirst, horigin⟩ := Option.map_eq_some_iff.1 horigin.symm
  obtain ⟨hname, hprovider, hpath⟩ : first.2.name = earlier.name ∧ naming.display first.1 = earlier.provider ∧
      first.1.path = earlier.path := by simpa [originOf, Context.origin] using horigin
  unfold provide
  rw [hl]
  refine ⟨?_, ?_, ?_, h.claimed, h.distinct, h.fresh⟩
  · rw [firsts_append, hfirst]
    simpa using h.entries
  · intro name
    rw [h.lookup name, firstOf_append]
    split
    next heq => subst heq; simp [hfirst]
    next => rw [Option.or_none]
  · rw [repetitions_append, h.problems]
    simp only [repetition, hfirst, Option.map_some, Option.toList_some, repeatedProvider]
    rw [← hname, ← hprovider, ← hpath, name_of_firstOf hfirst]

/-- A context that is not there is bound to a fresh identifier. -/
theorem Follows.bound (h : Follows naming table done s) (head : Head) (p : Provision)
    (hl : s.contexts.lookup p.name = none) :
    Follows naming table (done ++ [(head, p)]) (provide naming s head p) := by
  have hfirst : firstOf done p.name = none := by
    have hmap := h.lookup p.name
    rw [hl, Option.map_none] at hmap
    exact Option.map_eq_none_iff.1 hmap.symm
  -- the identifier is none of those taken: not of the table, and not of an earlier context
  have hfree := s.table.identifiers.pick_not_taken (identifierBase p.name)
  have htaken : s.table.identifiers.taken = table.identifiers.taken ++ s.contexts.map fun e => e.2.identifier := by
    rw [h.claimed]
  rw [htaken, List.mem_append, not_or] at hfree
  unfold provide
  rw [hl]
  refine ⟨?_, ?_, ?_, ?_, ?_, ?_⟩
  · rw [firsts_append, hfirst, List.map_append, List.map_append, h.entries]
    rfl
  · intro name
    rw [List.lookup_append, Option.map_or, h.lookup name, firstOf_append, Option.map_or]
    congr 1
    by_cases heq : p.name = name
    · simp [heq, originOf, Context.origin]
    · simp [heq, List.lookup_cons, beq_false_of_ne (Ne.symm heq)]
  · rw [repetitions_append, h.problems]
    simp [repetition, hfirst]
  · simp only [NameTable.claim, Registry.claim_taken, htaken, List.map_append, List.append_assoc]
    rw [h.claimed]
    rfl
  · rw [List.map_append]
    exact h.distinct.append (List.nodup_singleton _) (List.disjoint_singleton.2 hfree.2)
  · intro e he
    rcases List.mem_append.1 he with he | he
    · exact h.fresh e he
    · obtain rfl := List.mem_singleton.1 he
      exact hfree.1

/-- One provision. -/
theorem Follows.provide (h : Follows naming table done s) (q : Head × Provision) :
    Follows naming table (done ++ [q]) (provide naming s q.1 q.2) := by
  cases hl : s.contexts.lookup q.2.name with
  | some earlier => exact h.repeated q.1 q.2 hl
  | none => exact h.bound q.1 q.2 hl

/-- All provisions, one after the other. -/
theorem Follows.run (h : Follows naming table done s) (todo : List (Head × Provision)) :
    Follows naming table (done ++ todo)
      (todo.foldl (fun state (head, p) => Contexts.provide naming state head p) s) := by
  refine foldl_keeps (P := fun more t => Follows naming table (done ++ more) t) (by rwa [List.append_nil])
    fun more q _ t _ ht => ?_
  rw [← List.append_assoc]
  exact ht.provide q

/-! ## Uses -/

/-- A context is bound if and only if a definition provides it. -/
theorem Follows.has (h : Follows naming table done s) (name : String) :
    s.contexts.has name = (firstOf done name).isSome := by
  unfold Keyed.has
  rw [← Option.isSome_map (f := Context.origin), h.lookup name, Option.isSome_map]

theorem Follows.unprovided {app : App} (h : Follows naming table (provisions app) s) :
    unprovided naming app s.contexts = missing naming app := by
  unfold Contexts.unprovided missing
  congr 1
  apply List.filter_congr
  rintro ⟨head, name, i⟩ -
  dsimp only
  rw [h.has name, Option.not_isSome]

/-! ## The whole app -/

/-- How an app is wired without problems. -/
structure Wired (app : App) (naming : Naming) (table : NameTable) (contexts : Contexts) (table' : NameTable) :
    Prop where
  /-- The contexts are the ones provided, in document order, each with its provider. -/
  entries : (contexts.map fun e => (e.1, e.2.origin)) =
    (provisions app).map fun q => (q.2.name, originOf naming q)
  names : (contexts.map Prod.fst).Nodup
  distinct : (contexts.map fun e => e.2.identifier).Nodup
  fresh : ∀ e ∈ contexts, e.2.identifier ∉ table.identifiers.taken
  /-- The identifiers are taken, and nothing else changes in the table. -/
  claimed : table' = { table with identifiers := { table.identifiers with
    taken := table.identifiers.taken ++ contexts.map fun e => e.2.identifier } }
  providers : ∀ d ∈ app.definitions, List.Forall₂
    (fun p w => ∃ c, contexts.lookup p.name = some c ∧ w = { identifier := c.identifier, value := p.value })
    d.head.provides (contexts.providers d.head)
  consumers : ∀ d ∈ app.definitions, List.Forall₂
    (fun name b => ∃ c, contexts.lookup name = some c ∧ b = { localName := name, identifier := c.identifier })
    d.head.uses (contexts.consumers d.head)

/-- The context of every provision and of every use is there, so that the definition keeps
it. -/
theorem bind_wires {app : App} {contexts : Contexts} (h : (bind app naming table).1 = .ok contexts) {d : Node}
    (hd : d ∈ app.definitions) :
    List.Forall₂
      (fun p w => ∃ c, contexts.lookup p.name = some c ∧ w = { identifier := c.identifier, value := p.value })
      d.head.provides (contexts.providers d.head) ∧
    List.Forall₂
      (fun name b => ∃ c, contexts.lookup name = some c ∧ b = { localName := name, identifier := c.identifier })
      d.head.uses (contexts.consumers d.head) := by
  constructor
  · refine (forall₂_filterMap fun p hp => ?_).imp fun p w hw => ?_
    · rw [Option.isSome_map]
      exact bind_found h d hd p hp
    · obtain ⟨c, hc, rfl⟩ := Option.map_eq_some_iff.1 hw
      exact ⟨c, hc, rfl⟩
  · refine (forall₂_filterMap fun name hname => ?_).imp fun name b hb => ?_
    · rw [Option.isSome_map]
      exact bind_used h d hd name hname
    · obtain ⟨c, hc, rfl⟩ := Option.map_eq_some_iff.1 hb
      exact ⟨c, hc, rfl⟩

/-- No two provisions without a problem are of one context. -/
theorem names_nodup {all : List (Head × Provision)} (h : repetitions naming all = []) :
    (all.map fun q => q.2.name).Nodup := by
  induction all using List.reverseRecOn with
  | nil => exact List.nodup_nil
  | append_singleton all q ih =>
    rw [repetitions_append, List.append_eq_nil_iff, Option.toList_eq_nil_iff] at h
    have hnone : firstOf all q.2.name = none := Option.map_eq_none_iff.1 h.2
    rw [List.map_append]
    refine (ih h.1).append (List.nodup_singleton _) (List.disjoint_singleton.2 ?_)
    rw [List.mem_map]
    rintro ⟨e, he, heq⟩
    have hne := List.find?_eq_none.1 hnone e he
    exact hne (beq_iff_eq.2 heq)

/-- Binding the contexts of an app fails with a problem for each provision whose context an
earlier one provides, which names the first provider, followed by one for each use of a
context that no definition provides. If there is none, the contexts are the ones provided,
and all of them reach the definitions that provide and use them. -/
theorem bind_exact (app : App) (naming : Naming) (table : NameTable) :
    match (bind app naming table).1 with
    | .error problems =>
      problems = repetitions naming (provisions app) ++ missing naming app ∧ problems ≠ []
    | .ok contexts =>
      repetitions naming (provisions app) ++ missing naming app = [] ∧
        Wired app naming table contexts (bind app naming table).2 := by
  have hrun := (Follows.start naming table).run (provisions app)
  rw [List.nil_append] at hrun
  have hproblems : (bind app naming table).1 =
      if (repetitions naming (provisions app) ++ missing naming app).isEmpty then
        .ok ((provisions app).foldl (fun state (head, p) => provide naming state head p) { table }).contexts
      else .error (repetitions naming (provisions app) ++ missing naming app) := by
    rw [← hrun.problems, ← hrun.unprovided]
    rfl
  have htable : (bind app naming table).2 =
    ((provisions app).foldl (fun state (head, p) => provide naming state head p) { table }).table := rfl
  generalize (provisions app).foldl _ _ = s at *
  cases hempty : (repetitions naming (provisions app) ++ missing naming app).isEmpty
  · rw [hempty, if_neg Bool.false_ne_true] at hproblems
    rw [hproblems]
    exact ⟨rfl, by rw [Ne, ← List.isEmpty_iff, hempty]; decide⟩
  · rw [hempty, if_pos rfl] at hproblems
    rw [hproblems]
    rw [List.isEmpty_iff] at hempty
    have hnone := (List.append_eq_nil_iff.1 hempty).1
    have hentries := hrun.entries
    rw [firsts_of_repetitions hnone] at hentries
    refine ⟨hempty, hentries, ?_, hrun.distinct, hrun.fresh, htable.trans hrun.claimed,
      fun d hd => (bind_wires hproblems hd).1, fun d hd => (bind_wires hproblems hd).2⟩
    have hnames := congrArg (List.map Prod.fst) hentries
    rw [List.map_map, List.map_map] at hnames
    exact hnames ▸ names_nodup hnone

end Contexts

end ViewTree
