import ViewTree.Proofs.Import.Triples

/-!
# What collecting imports gives

An entry of an import asks for a local name, and among entries the first to ask for a name
binds it (`first?`). The table of local names says this and no more: after the check of
the document's imports, and again after the imports of the compiler, it holds for each
name what its first entry takes, unless a function of the file has the name
(`check_eq`, `implicit_locals`). The groups hold the triples of the same entries, each
once, so the two tables agree, and collecting is described from the lists of entries alone
(`collect_exact`).
-/

namespace ViewTree

namespace ImportBlock

/-! ## Entries -/

/-- What an entry takes, and the local name it takes it under. -/
def tripleOf (e : Entry) : String × Symbol × String := (e.1.source, e.2)

/-- What an entry binds its local name to. -/
def bindingOf (e : Entry) : ImportBinding := { source := e.1.source, symbol := e.2.1, path := e.1.path }

/-- The first entry that asks for a local name. -/
def first? (entries : List Entry) (name : String) : Option Entry := entries.find? fun e => e.2.2 == name

/-- The entry that binds a local name: the first that asks for it, if no function of the
file has the name. -/
def binder? (reserved : Reserved) (entries : List Entry) (name : String) : Option Entry :=
  if reserved.has name then none else first? entries name

/-- The problem of an entry among the document's entries: its local name is that of a
function of the file, or the first entry that asks for it takes something else. -/
def fault? (reserved : Reserved) (entries : List Entry) (e : Entry) : Option Problem :=
  match reserved.lookup e.2.2, first? entries e.2.2 with
  | some path, _ => some (reservedProblem e.1 e.2.2 path)
  | none, some first =>
    if tripleOf first = tripleOf e then none
    else some (reboundProblem e.1 e.2.1 e.2.2 (bindingOf first))
  | none, none => none

theorem first?_append (a b : List Entry) (name : String) : first? (a ++ b) name = (first? a name).or (first? b name) :=
  List.find?_append

theorem first?_cons (e : Entry) (entries : List Entry) (name : String) :
    first? (e :: entries) name = if e.2.2 = name then some e else first? entries name := by
  unfold first?
  rw [List.find?_cons]
  split
  · rename_i h
    rw [if_pos (beq_iff_eq.1 h)]
  · rename_i h
    rw [if_neg (by simpa using h)]

theorem first?_eq_none_iff {entries : List Entry} {name : String} :
    first? entries name = none ↔ ∀ e ∈ entries, e.2.2 ≠ name := by
  simp [first?]

theorem first?_mem {entries : List Entry} {name : String} {e : Entry} (h : first? entries name = some e) :
    e ∈ entries ∧ e.2.2 = name :=
  ⟨List.mem_of_find?_eq_some h, by simpa using List.find?_some h⟩

theorem exists_first? {entries : List Entry} {e : Entry} (h : e ∈ entries) : ∃ first, first? entries e.2.2 = some first :=
  Option.ne_none_iff_exists'.1 fun hnone => first?_eq_none_iff.1 hnone e h rfl

/-- Where no name is asked for twice, every entry is the first to ask for its own. -/
theorem first?_of_nodup {entries : List Entry} (h : (entries.map fun e => e.2.2).Nodup) {e : Entry} (he : e ∈ entries) :
    first? entries e.2.2 = some e := by
  obtain ⟨first, hfirst⟩ := exists_first? he
  obtain ⟨hmem, hname⟩ := first?_mem hfirst
  rw [hfirst, List.inj_on_of_nodup_map h hmem he hname]

theorem binder?_append (reserved : Reserved) (a b : List Entry) (name : String) :
    binder? reserved (a ++ b) name = (binder? reserved a name).or (binder? reserved b name) := by
  unfold binder?
  split
  · rfl
  · exact first?_append a b name

theorem binder?_cons (reserved : Reserved) (e : Entry) (entries : List Entry) (name : String) :
    binder? reserved (e :: entries) name =
      if e.2.2 = name ∧ reserved.has name = false then some e else binder? reserved entries name := by
  unfold binder?
  rw [first?_cons]
  cases reserved.has name <;> simp

theorem binder?_eq_some_iff {reserved : Reserved} {entries : List Entry} {name : String} {e : Entry} :
    binder? reserved entries name = some e ↔ reserved.has name = false ∧ first? entries name = some e := by
  unfold binder?
  cases reserved.has name <;> simp

theorem entriesOf_append (a b : List Import) : entriesOf (a ++ b) = entriesOf a ++ entriesOf b :=
  List.flatMap_append

theorem map_entriesOf (imports : List Import) : ((entriesOf imports).map fun e => e.2.2) = imports.flatMap Import.locals := by
  unfold entriesOf Import.locals
  rw [List.map_flatMap]
  simp only [List.map_map]
  rfl

theorem first?_of_notMem {imports : List Import} {name : String} (h : name ∉ imports.flatMap Import.locals) :
    first? (entriesOf imports) name = none := by
  rw [first?_eq_none_iff]
  rintro e he rfl
  exact h (map_entriesOf imports ▸ List.mem_map_of_mem he)

theorem entriesOf_cons (i : Import) (rest : List Import) : entriesOf (i :: rest) = i.entries.map (i, ·) ++ entriesOf rest :=
  List.flatMap_cons

/-- Later entries do not change what is wrong with an entry. -/
theorem fault?_append (reserved : Reserved) {entries : List Entry} (more : List Entry) {e : Entry} (h : e ∈ entries) :
    fault? reserved (entries ++ more) e = fault? reserved entries e := by
  obtain ⟨first, hfirst⟩ := exists_first? h
  unfold fault?
  rw [first?_append, hfirst, Option.some_or]

/-- No function of the file has a local name of the document's entries, and no two of them
take different things under one name. -/
structure Unambiguous (reserved : Reserved) (entries : List Entry) : Prop where
  free : ∀ e ∈ entries, reserved.has e.2.2 = false
  single : ∀ e ∈ entries, ∀ e' ∈ entries, e.2.2 = e'.2.2 → tripleOf e = tripleOf e'

/-- An entry is faultless if its name is free and its first entry takes the same. -/
theorem fault?_eq_none_iff {reserved : Reserved} {entries : List Entry} {e : Entry} {first : Entry}
    (h : first? entries e.2.2 = some first) :
    fault? reserved entries e = none ↔ reserved.has e.2.2 = false ∧ tripleOf first = tripleOf e := by
  unfold fault? Keyed.has
  rw [h]
  cases reserved.lookup e.2.2 <;> simp

theorem fault?_eq_some_iff {reserved : Reserved} {entries : List Entry} {e : Entry} (he : e ∈ entries) {p : Problem} :
    fault? reserved entries e = some p ↔
      (∃ path, reserved.lookup e.2.2 = some path ∧ p = reservedProblem e.1 e.2.2 path ∧ p.related = [path]) ∨
      reserved.lookup e.2.2 = none ∧ ∃ first, first? entries e.2.2 = some first ∧ tripleOf first ≠ tripleOf e ∧
        p = reboundProblem e.1 e.2.1 e.2.2 (bindingOf first) ∧ p.related = [first.1.path] := by
  obtain ⟨first, hfirst⟩ := exists_first? he
  unfold fault?
  rw [hfirst]
  cases reserved.lookup e.2.2 with
  | some path =>
    constructor
    · rintro h
      obtain rfl := Option.some.inj h
      exact .inl ⟨path, rfl, rfl, rfl⟩
    · rintro (⟨path', hpath, rfl, -⟩ | ⟨hnone, -⟩)
      · rw [Option.some.inj hpath]
      · cases hnone
  | none =>
    dsimp only
    constructor
    · intro h
      split at h
      · cases h
      · rename_i hne
        obtain rfl := Option.some.inj h
        exact .inr ⟨rfl, first, rfl, hne, rfl, rfl⟩
    · rintro (⟨path, hpath, -⟩ | ⟨-, first', hfirst', hne, rfl, -⟩)
      · cases hpath
      · obtain rfl := Option.some.inj hfirst'
        rw [if_neg hne]

theorem unambiguous_iff {reserved : Reserved} {entries : List Entry} :
    Unambiguous reserved entries ↔ entries.filterMap (fault? reserved entries) = [] := by
  rw [List.filterMap_eq_nil_iff]
  constructor
  · intro h e he
    obtain ⟨first, hfirst⟩ := exists_first? he
    obtain ⟨hmem, hname⟩ := first?_mem hfirst
    exact (fault?_eq_none_iff hfirst).2 ⟨h.free e he, h.single first hmem e he hname⟩
  · intro h
    refine ⟨fun e he => ?_, fun e he e' he' hname => ?_⟩
    · obtain ⟨first, hfirst⟩ := exists_first? he
      exact ((fault?_eq_none_iff hfirst).1 (h e he)).1
    · obtain ⟨first, hfirst⟩ := exists_first? he
      have hfirst' : first? entries e'.2.2 = some first := hname ▸ hfirst
      have he := ((fault?_eq_none_iff hfirst).1 (h e he)).2
      have he' := ((fault?_eq_none_iff hfirst').1 (h e' he')).2
      exact he.symm.trans he'

/-- Entries that agree on every name hold the triples of the first entries. -/
theorem Unambiguous.mem_iff {reserved : Reserved} {entries : List Entry} (h : Unambiguous reserved entries)
    {t : String × Symbol × String} :
    t ∈ entries.map tripleOf ↔ (binder? reserved entries t.2.2).map tripleOf = some t := by
  rw [List.mem_map, Option.map_eq_some_iff]
  constructor
  · rintro ⟨e, he, rfl⟩
    obtain ⟨first, hfirst⟩ := exists_first? he
    obtain ⟨hmem, hname⟩ := first?_mem hfirst
    exact ⟨first, binder?_eq_some_iff.2 ⟨h.free e he, hfirst⟩, h.single first hmem e he hname⟩
  · rintro ⟨first, hfirst, rfl⟩
    exact ⟨first, (first?_mem (binder?_eq_some_iff.1 hfirst).2).1, rfl⟩

theorem Unambiguous.of_subset {reserved : Reserved} {entries more : List Entry} (h : Unambiguous reserved more)
    (hsub : entries ⊆ more) : Unambiguous reserved entries :=
  ⟨fun e he => h.free e (hsub he), fun e he e' he' => h.single e (hsub he) e' (hsub he')⟩

/-! ## The document's imports -/

/-- Entries for one name take the same thing if its binding is that of the other. -/
theorem tripleOf_eq_iff {first e : Entry} (h : first.2.2 = e.2.2) :
    tripleOf first = tripleOf e ↔ (bindingOf first).source = e.1.source ∧ (bindingOf first).symbol = e.2.1 := by
  simp [tripleOf, bindingOf, Prod.ext_iff, h]

/-- One more entry is bound if it is the first for a free name, and its problem is found. -/
theorem checkEntry_eq {reserved : Reserved} {entries : List Entry} {state : Checked}
    (h : ∀ name, state.locals.lookup name = (binder? reserved entries name).map bindingOf) (e : Entry) :
    (∀ name, (checkEntry reserved state e).locals.lookup name =
      (binder? reserved (entries ++ [e]) name).map bindingOf) ∧
    (checkEntry reserved state e).problems =
      state.problems ++ (fault? reserved (entries ++ [e]) e).toList := by
  have hbinder : ∀ name, (binder? reserved (entries ++ [e]) name).map bindingOf =
      (state.locals.lookup name).or (if e.2.2 = name ∧ reserved.has name = false then some (bindingOf e) else none) := by
    intro name
    rw [binder?_append, binder?_cons, Option.map_or, ← h, apply_ite (Option.map bindingOf)]
    simp [binder?, first?]
  simp only [hbinder]
  unfold checkEntry fault?
  dsimp only
  rw [first?_append]
  cases hreserved : reserved.lookup e.2.2 with
  | some path =>
    refine ⟨fun name => ?_, rfl⟩
    rw [if_neg, Option.or_none]
    rintro ⟨rfl, hhas⟩
    simp [Keyed.has, hreserved] at hhas
  | none =>
    have hasked := h e.2.2
    rw [binder?, Keyed.has, hreserved] at hasked
    cases hfirst : first? entries e.2.2 with
    | some first =>
      -- the name is bound already, so the entry adds no binding
      have hlookup : state.locals.lookup e.2.2 = some (bindingOf first) := by simpa [hfirst] using hasked
      have hlocals : ∀ name, state.locals.lookup name = (state.locals.lookup name).or
          (if e.2.2 = name ∧ reserved.has name = false then some (bindingOf e) else none) := by
        intro name
        split
        · rename_i hname
          rw [← hname.1, hlookup, Option.some_or]
        · rw [Option.or_none]
      simp only [hlookup, Option.some_or, tripleOf_eq_iff (first?_mem hfirst).2]
      split
      · exact ⟨hlocals, by simp⟩
      · exact ⟨hlocals, rfl⟩
    | none =>
      have hlookup : state.locals.lookup e.2.2 = none := by simpa [hfirst] using hasked
      have hone : first? [e] e.2.2 = some e := by simp [first?_cons]
      simp only [hlookup, Option.none_or, hone]
      refine ⟨fun name => ?_, by simp⟩
      rw [List.lookup_append]
      by_cases hname : e.2.2 = name
      · subst hname
        simp [Keyed.has, hreserved, bindingOf]
      · simp [List.lookup_cons, hname, beq_false_of_ne (Ne.symm hname)]

/-- The check binds the first entry for each name and finds the problem of each entry. -/
theorem check_eq (reserved : Reserved) (entries : List Entry) :
    (∀ name, (entries.foldl (checkEntry reserved) {}).locals.lookup name =
      (binder? reserved entries name).map bindingOf) ∧
    (entries.foldl (checkEntry reserved) {}).problems = entries.filterMap (fault? reserved entries) := by
  induction entries using List.reverseRecOn with
  | nil => simp [binder?, first?]
  | append_singleton entries e ih =>
    have hbefore : entries.filterMap (fault? reserved (entries ++ [e])) = entries.filterMap (fault? reserved entries) :=
      List.filterMap_congr fun e' he' => fault?_append reserved [e] he'
    obtain ⟨hlocals, hproblems⟩ := checkEntry_eq ih.1 e
    rw [List.foldl_append, List.foldl_cons, List.foldl_nil, List.filterMap_append, hbefore, ← ih.2]
    refine ⟨hlocals, hproblems.trans ?_⟩
    rw [List.filterMap_cons, List.filterMap_nil]
    cases fault? reserved (entries ++ [e]) e <;> rfl

/-! ## The compiler's imports -/

/-- What an import of the compiler adds to the table of local names: the first entry for
each name that is free there. -/
theorem takeFree_lookup (reserved : Reserved) (i : Import) (entries : List (Symbol × String))
    (locals : Keyed ImportBinding) (name : String) :
    (takeFree reserved i entries locals).2.lookup name =
      (locals.lookup name).or ((binder? reserved (entries.map (i, ·)) name).map bindingOf) := by
  induction entries generalizing locals with
  | nil => simp [takeFree, binder?, first?]
  | cons e entries ih =>
    obtain ⟨symbol, asked⟩ := e
    rw [takeFree, List.map_cons, binder?_cons]
    split
    · rename_i htaken
      rw [ih]
      split
      · rename_i hname
        obtain ⟨rfl, hfree⟩ := hname
        rw [hfree, Bool.or_false] at htaken
        obtain ⟨b, hb⟩ := Option.isSome_iff_exists.1 htaken
        rw [hb, Option.some_or, Option.some_or]
      · rfl
    · rename_i htaken
      rw [Bool.or_eq_true, not_or, Bool.not_eq_true, Bool.not_eq_true] at htaken
      rw [ih, List.lookup_append, Option.or_assoc]
      by_cases hname : asked = name
      · subst hname
        simp [htaken.2, bindingOf]
      · simp [hname, List.lookup_cons, beq_false_of_ne (Ne.symm hname)]

/-- An entry of an import is taken if its name was free, and the entry is the first for it. -/
theorem mem_takeFree {reserved : Reserved} {i : Import} {entries : List (Symbol × String)}
    {locals : Keyed ImportBinding} {t : String × Symbol × String} :
    t ∈ (takeFree reserved i entries locals).1.map (i.source, ·) ↔
      locals.lookup t.2.2 = none ∧ (binder? reserved (entries.map (i, ·)) t.2.2).map tripleOf = some t := by
  induction entries generalizing locals with
  | nil => simp [takeFree, binder?, first?]
  | cons e entries ih =>
    obtain ⟨symbol, asked⟩ := e
    rw [takeFree, List.map_cons, binder?_cons]
    split
    · rename_i htaken
      rw [ih]
      refine and_congr_right fun hnone => ?_
      rw [if_neg]
      rintro ⟨rfl, hfree⟩
      rw [hfree, Bool.or_false, Keyed.has, hnone] at htaken
      cases htaken
    · rename_i htaken
      rw [Bool.or_eq_true, not_or, Bool.not_eq_true, Bool.not_eq_true] at htaken
      rw [List.map_cons, List.mem_cons, ih, List.lookup_append]
      by_cases hname : asked = t.2.2
      · -- later entries find the name bound
        subst hname
        have hnone : locals.lookup t.2.2 = none := Keyed.lookup_of_has_false htaken.1
        simp [hnone, htaken.2, tripleOf, Prod.ext_iff, eq_comm]
      · have hne : t ≠ (i.source, symbol, asked) := fun ht => hname (ht ▸ rfl)
        simp [hname, hne, List.lookup_cons, beq_false_of_ne (Ne.symm hname)]

theorem addImplicit_locals (reserved : Reserved) (b : ImportBlock) (i : Import) :
    (addImplicit reserved b i).locals = (takeFree reserved i i.entries b.locals).2 := by
  unfold addImplicit
  dsimp only
  split
  · rfl
  · rfl

theorem addImplicit_triples {reserved : Reserved} {b : ImportBlock} {i : Import} {t : String × Symbol × String} :
    t ∈ (addImplicit reserved b i).triples ↔
      t ∈ (takeFree reserved i i.entries b.locals).1.map (i.source, ·) ∨ t ∈ b.triples := by
  unfold addImplicit
  dsimp only
  split
  · rename_i hempty
    rw [List.isEmpty_iff.1 (Bool.and_eq_true_iff.1 hempty).1]
    simp [triples]
  · exact mem_triplesOf_addTo

/-- The imports of the compiler bind the first of their entries for each name that is free. -/
theorem implicit_locals (reserved : Reserved) (implicit : List Import) (b : ImportBlock) (name : String) :
    (implicit.foldl (addImplicit reserved) b).locals.lookup name =
      (b.locals.lookup name).or ((binder? reserved (entriesOf implicit) name).map bindingOf) := by
  induction implicit generalizing b with
  | nil => simp [entriesOf, binder?, first?]
  | cons i implicit ih =>
    rw [List.foldl_cons, ih, addImplicit_locals, takeFree_lookup, entriesOf_cons, binder?_append, Option.map_or,
      Option.or_assoc]

/-- The imports of the compiler add the triples of the entries that they bind. -/
theorem implicit_triples {reserved : Reserved} {implicit : List Import} {b : ImportBlock} {t : String × Symbol × String} :
    t ∈ (implicit.foldl (addImplicit reserved) b).triples ↔
      t ∈ b.triples ∨ b.locals.lookup t.2.2 = none ∧ (binder? reserved (entriesOf implicit) t.2.2).map tripleOf = some t := by
  induction implicit generalizing b with
  | nil => simp [entriesOf, binder?, first?]
  | cons i implicit ih =>
    rw [List.foldl_cons, ih, addImplicit_triples, mem_takeFree, addImplicit_locals, takeFree_lookup, entriesOf_cons,
      binder?_append]
    cases hlookup : b.locals.lookup t.2.2 with
    | some b => simp
    | none => cases hbinder : binder? reserved (i.entries.map (i, ·)) t.2.2 <;> simp [or_comm]

/-! ## All imports of a file -/

/-- The block holds an entry of an import, and its local name stands for it. -/
def Binds (b : ImportBlock) (i : Import) (symbol : Symbol) (name : String) : Prop :=
  (i.source, symbol, name) ∈ b.triples ∧ b.locals.lookup name = some ⟨i.source, symbol, i.path⟩

theorem addUser_triples_iff {user : List Import} {b : ImportBlock} {t : String × Symbol × String} :
    t ∈ (user.foldl addUser b).triples ↔ t ∈ (entriesOf user).map tripleOf ∨ t ∈ b.triples := by
  induction user generalizing b with
  | nil => simp [entriesOf]
  | cons i user ih =>
    have hentries : (i.entries.map (i, ·)).map tripleOf = i.entries.map (i.source, ·) := by
      rw [List.map_map]
      rfl
    have hadd : t ∈ (addUser b i).triples ↔ t ∈ i.entries.map (i.source, ·) ∨ t ∈ b.triples := mem_triplesOf_addTo
    rw [List.foldl_cons, ih, hadd, entriesOf_cons, List.map_append, hentries, List.mem_append]
    exact or_left_comm.trans or_assoc.symm

theorem foldl_addUser_locals (user : List Import) (b : ImportBlock) : (user.foldl addUser b).locals = b.locals :=
  List.foldlRecOn (motive := fun b' : ImportBlock => b'.locals = b.locals) _ addUser rfl fun _ hb _ _ => hb

theorem collect_eq (user implicit : List Import) (reserved : Reserved) :
    collect user implicit reserved =
      if (entriesOf user).filterMap (fault? reserved (entriesOf user)) = [] then
        .ok (user.foldl addUser (implicit.foldl (addImplicit reserved) { locals := (check reserved user).locals }))
      else .error ((entriesOf user).filterMap (fault? reserved (entriesOf user))) := by
  unfold collect
  dsimp only
  rw [show (check reserved user).problems = _ from (check_eq reserved (entriesOf user)).2]
  simp only [List.isEmpty_iff]

/-- Whether imports can be collected is settled by what the document's entries ask for. -/
theorem collect_ok_iff {user implicit : List Import} {reserved : Reserved} :
    (∃ block, collect user implicit reserved = .ok block) ↔ Unambiguous reserved (entriesOf user) := by
  rw [unambiguous_iff, collect_eq]
  split
  · rename_i h
    simp [h]
  · rename_i h
    simp [h]

section

variable {user implicit : List Import} {reserved : Reserved} {block : ImportBlock}
  (h : collect user implicit reserved = .ok block)

include h

/-- A local name stands for the first entry that asks for it, where the document's entries
come before the compiler's. -/
theorem collect_locals (name : String) :
    block.locals.lookup name = (binder? reserved (entriesOf user ++ entriesOf implicit) name).map bindingOf := by
  have hcheck : (check reserved user).locals.lookup name = (binder? reserved (entriesOf user) name).map bindingOf :=
    (check_eq reserved (entriesOf user)).1 name
  rw [collect_eq_ok h, foldl_addUser_locals, implicit_locals, binder?_append, Option.map_or, hcheck]

/-- The block holds the document's triples, and those of the compiler's entries that are
the first for a free name. -/
theorem collect_triples {t : String × Symbol × String} :
    t ∈ block.triples ↔ t ∈ (entriesOf user).map tripleOf ∨
      reserved.has t.2.2 = false ∧ (∀ e ∈ entriesOf user, e.2.2 ≠ t.2.2) ∧
        (first? (entriesOf implicit) t.2.2).map tripleOf = some t := by
  have hcheck : (check reserved user).locals.lookup t.2.2 = (binder? reserved (entriesOf user) t.2.2).map bindingOf :=
    (check_eq reserved (entriesOf user)).1 t.2.2
  have hstart : t ∉ ({ locals := (check reserved user).locals } : ImportBlock).triples := by simp [triples, triplesOf]
  rw [collect_eq_ok h, addUser_triples_iff, implicit_triples, hcheck, ← first?_eq_none_iff]
  unfold binder?
  cases reserved.has t.2.2 with
  | true => simp [hstart]
  | false => simp [hstart]

/-- The two tables of a block agree: it holds exactly the triples that its local names
stand for. -/
theorem collect_agrees {t : String × Symbol × String} :
    t ∈ block.triples ↔ (binder? reserved (entriesOf user ++ entriesOf implicit) t.2.2).map tripleOf = some t := by
  rw [collect_triples h, (collect_ok_iff.1 ⟨block, h⟩).mem_iff, binder?_append, ← first?_eq_none_iff]
  unfold binder?
  cases reserved.has t.2.2 with
  | true => simp
  | false => cases first? (entriesOf user) t.2.2 <;> simp

/-- The first entry of the compiler for a name is there with its triple, and the name stands
for it, if no function of the file has the name and the document does not bind it. -/
theorem collect_binds {i : Import} {symbol : Symbol} {name : String}
    (hfirst : first? (entriesOf implicit) name = some (i, symbol, name)) (huser : name ∉ user.flatMap Import.locals)
    (hreserved : reserved.has name = false) : block.Binds i symbol name := by
  have hnone := first?_of_notMem huser
  refine ⟨(collect_triples h).2 (.inr ⟨hreserved, first?_eq_none_iff.1 hnone, ?_⟩), ?_⟩
  · rw [hfirst]
    rfl
  · rw [collect_locals h, binder?_append, binder?, binder?, hreserved, hnone, hfirst]
    rfl

theorem collect_distinct : DistinctGroups block.groups := by
  rw [collect_eq_ok h]
  refine List.foldlRecOn (motive := fun b : ImportBlock => DistinctGroups b.groups) _ addUser ?_
    fun b hb i _ => hb.addTo i.source i.entries
  refine List.foldlRecOn (motive := fun b : ImportBlock => DistinctGroups b.groups) _ (addImplicit reserved)
    ⟨List.nodup_nil, by simp⟩ fun b hb i _ => ?_
  rcases addImplicit_cases reserved b i with ⟨-, hgroups⟩ | ⟨kept, -, hgroups⟩
  · exact hgroups ▸ hb
  · exact hgroups ▸ hb.addTo i.source kept

end

/-- What is in the import block of a file, given its imports. -/
structure Collected (user implicit : List Import) (reserved : Reserved) (block : ImportBlock) : Prop where
  /-- The triples of the document are in the block, and of the compiler's those whose local
  name no function has, no import of the document binds, and no earlier entry of the
  compiler binds to something else. -/
  triples : ∀ t, t ∈ block.triples ↔ t ∈ (entriesOf user).map tripleOf ∨
    t ∈ (entriesOf implicit).map tripleOf ∧ reserved.has t.2.2 = false ∧ (∀ e ∈ entriesOf user, e.2.2 ≠ t.2.2) ∧
      ∀ e, first? (entriesOf implicit) t.2.2 = some e → tripleOf e = t
  /-- No triple is there twice. -/
  nodup : block.triples.Nodup
  /-- Each local name that is bound stands for one triple. -/
  single : ∀ name, block.binds name = true → ∃! t, t ∈ block.triples ∧ t.2.2 = name
  bound : ∀ t ∈ block.triples, block.binds t.2.2 = true ∧ reserved.has t.2.2 = false
  /-- What the document or the compiler imports for its effects is loaded. -/
  effects : ∀ i ∈ implicit ++ user, i.kind = .effects → block.Has i.source

theorem collect_collected {user implicit : List Import} {reserved : Reserved} {block : ImportBlock}
    (h : collect user implicit reserved = .ok block) : Collected user implicit reserved block where
  triples t := by
    rw [collect_triples h]
    refine or_congr_right (Iff.intro ?_ ?_)
    · rintro ⟨hreserved, huser, hfirst⟩
      obtain ⟨e, he, rfl⟩ := Option.map_eq_some_iff.1 hfirst
      refine ⟨List.mem_map_of_mem (first?_mem he).1, hreserved, huser, fun e' he' => ?_⟩
      rw [Option.some.inj (he'.symm.trans he)]
    · rintro ⟨hmem, hreserved, huser, hfirst⟩
      obtain ⟨e, he, rfl⟩ := List.mem_map.1 hmem
      obtain ⟨first, hfirst'⟩ := exists_first? he
      exact ⟨hreserved, huser, Option.map_eq_some_iff.2 ⟨first, hfirst', hfirst first hfirst'⟩⟩
  nodup := (collect_distinct h).triples_nodup
  single name hname := by
    rw [binds, Keyed.has, collect_locals h, Option.isSome_map] at hname
    obtain ⟨e, he⟩ := Option.isSome_iff_exists.1 hname
    have hlocal : (tripleOf e).2.2 = name := (first?_mem (binder?_eq_some_iff.1 he).2).2
    refine ⟨tripleOf e, ⟨(collect_agrees h).2 ?_, hlocal⟩, ?_⟩
    · rw [hlocal, he, Option.map_some]
    · rintro t ⟨ht, htname⟩
      rw [collect_agrees h, htname, he] at ht
      exact (Option.some.inj ht).symm
  bound t ht := by
    obtain ⟨e, he, -⟩ := Option.map_eq_some_iff.1 ((collect_agrees h).1 ht)
    refine ⟨?_, (binder?_eq_some_iff.1 he).1⟩
    rw [binds, Keyed.has, collect_locals h, he]
    rfl
  effects i hi hkind := collect_has h ((List.mem_append.1 hi).imp (fun hi => ⟨hi, hkind⟩) id)

/-- Collecting imports is settled by their entries. It succeeds if no function of the file
has a local name that the document imports and no such name is to stand for two things,
whatever the compiler adds and in whatever order the document lists its imports. Else the
problems are those of the document's entries, in their order. The block of a file holds
what `Collected` says. -/
theorem collect_exact (user implicit : List Import) (reserved : Reserved) :
    ((∃ block, collect user implicit reserved = .ok block) ↔
      (∀ e ∈ entriesOf user, reserved.has e.2.2 = false) ∧
      ∀ e ∈ entriesOf user, ∀ e' ∈ entriesOf user, e.2.2 = e'.2.2 → tripleOf e = tripleOf e') ∧
    (∀ user' implicit' : List Import, user'.Perm user →
      ((∃ block, collect user' implicit' reserved = .ok block) ↔ ∃ block, collect user implicit reserved = .ok block)) ∧
    (∀ problems, collect user implicit reserved = .error problems ↔
      problems ≠ [] ∧ problems = (entriesOf user).filterMap (fault? reserved (entriesOf user))) ∧
    (∀ e ∈ entriesOf user, ∀ p, fault? reserved (entriesOf user) e = some p ↔
      (∃ path, reserved.lookup e.2.2 = some path ∧ p = reservedProblem e.1 e.2.2 path ∧ p.related = [path]) ∨
      reserved.lookup e.2.2 = none ∧ ∃ first, first? (entriesOf user) e.2.2 = some first ∧ tripleOf first ≠ tripleOf e ∧
        p = reboundProblem e.1 e.2.1 e.2.2 (bindingOf first) ∧ p.related = [first.1.path]) ∧
    ∀ block, collect user implicit reserved = .ok block → Collected user implicit reserved block := by
  refine ⟨collect_ok_iff.trans ⟨fun h => ⟨h.free, h.single⟩, fun h => ⟨h.1, h.2⟩⟩, fun user' implicit' hperm => ?_,
    fun problems => ?_, fun e he p => ?_, fun block h => collect_collected h⟩
  · have hentries : (entriesOf user').Perm (entriesOf user) := hperm.flatMap_right _
    rw [collect_ok_iff, collect_ok_iff]
    exact ⟨fun h => h.of_subset hentries.symm.subset, fun h => h.of_subset hentries.subset⟩
  · rw [collect_eq]
    split
    · rename_i hnone
      simp [hnone]
    · rename_i hsome
      rw [Except.error.injEq, eq_comm]
      exact ⟨fun h => ⟨h ▸ hsome, h⟩, And.right⟩
  · exact fault?_eq_some_iff he

/-- A hook that the document imports from elsewhere is not imported a second time. -/
example :
    (collect [Import.ofDefault "./mocks" "useState"]
      [Import.ofSource "./global.css", Import.ofNames "react" ["useState", "useRef"]] [("Card", "components[0]")]).toOption.map
        (fun b => (b.triples, b.groups.map Prod.fst)) =
      some ([("react", .named "useRef", "useRef"), ("./mocks", .default, "useState")],
        ["./global.css", "react", "./mocks"]) := by
  decide +kernel

end ImportBlock

end ViewTree
