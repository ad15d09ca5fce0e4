import ViewTree.Proofs.Names.Explicit

/-!
# Names that are identifiers already

A name in the document that is an identifier is asked for as it is, and its definition
gets it if it is free. Only definitions that the document names and that come before can
have taken it (`resolve_keeps`): those without a name come after all of these. A name takes
another one when cleaning makes the two the same, or when it is numbered because it was
taken itself.
-/

namespace ViewTree.Names

variable {document : Json} {app : App} (hload : Load.app document = .ok app) {table : NameTable}
  (hnames : (resolve app {}).outcome = .ok table)

include hload hnames

/-- A definition that the document names gets the cleaned name, or that with a number. -/
theorem nameOf_explicit {d : Node} (hd : d ∈ app.definitions) {name : String} (hname : d.head.name = some name) :
    (resolve app {}).naming.nameOf d.head = some (Text.toIdentifier name) ∨
      ∃ n, 2 ≤ n ∧ (resolve app {}).naming.nameOf d.head = some (Text.toIdentifier name ++ Text.decimal n) := by
  obtain ⟨before, after, hsplit⟩ := List.append_of_mem hd
  obtain ⟨r, hplain, -, hpicked⟩ := resolve_picked hload hnames hsplit hname
  by_cases htaken : Text.toIdentifier name ∈ r.taken
  · obtain ⟨n, hn, hpick, -⟩ := Registry.pick_of_taken htaken
    rw [hpick, Registry.numbered_plain hplain] at hpicked
    exact .inr ⟨n, hn, hpicked⟩
  · rw [Registry.pick_of_free htaken] at hpicked
    exact .inl hpicked

/-- A definition whose name in the document is an identifier has it as its resolved name
exactly if none of the definitions before it that the document names has been given it.
If one has, the definition gets its name with the least number that makes it free. It was
taken by a name that is no identifier and becomes this one when it is cleaned, or by one
that is cleaned to this one less its number. -/
theorem resolve_keeps {before after : List Node} {d : Node} (hsplit : app.definitions = before ++ d :: after)
    {name : String} (hname : d.head.name = some name) (hidentifier : Text.isIdentifier name = true) :
    ((resolve app {}).naming.nameOf d.head = some name ↔
      ∀ e ∈ before, e.head.name ≠ none → (resolve app {}).naming.nameOf e.head ≠ some name) ∧
    ((resolve app {}).naming.nameOf d.head ≠ some name →
      ∃ n, 2 ≤ n ∧ (resolve app {}).naming.nameOf d.head = some (name ++ Text.decimal n) ∧
        ∀ m, 2 ≤ m → m < n → ∃ e ∈ before, e.head.name ≠ none ∧
          (resolve app {}).naming.nameOf e.head = some (name ++ Text.decimal m)) ∧
    ∀ e ∈ before, ∀ other, e.head.name = some other → (resolve app {}).naming.nameOf e.head = some name →
      Text.isIdentifier other = false ∧ Text.toIdentifier other = name ∨
        ∃ n, 2 ≤ n ∧ name = Text.toIdentifier other ++ Text.decimal n := by
  have hclean : Text.toIdentifier name = name := if_pos hidentifier
  obtain ⟨r, hplain, htaken, hpicked⟩ := resolve_picked hload hnames hsplit hname
  rw [hclean] at hpicked
  have hkept : (resolve app {}).naming.nameOf d.head = some name ↔ name ∉ r.taken := by
    rw [hpicked, Option.some.injEq, Registry.pick_eq_base_iff]
  refine ⟨?_, fun hlost => ?_, fun e he other hother hgiven => ?_⟩
  · rw [hkept, htaken, mem_namesGiven]
    push Not
    rfl
  · rw [Ne, hkept, not_not] at hlost
    obtain ⟨n, hn, hpick, -, hleast⟩ := Registry.pick_of_taken hlost
    rw [hpick, Registry.numbered_plain hplain] at hpicked
    refine ⟨n, hn, hpicked, fun m hm hmn => mem_namesGiven.1 ?_⟩
    rw [← htaken, ← Registry.numbered_plain hplain]
    exact hleast m hm hmn
  · have hmem : e ∈ app.definitions ∧ d ∈ app.definitions := by
      rw [hsplit]
      exact ⟨List.mem_append_left _ he, by simp⟩
    rcases nameOf_explicit hload hnames hmem.1 hother with hclean' | ⟨n, hn, hnumbered⟩
    · rw [hgiven, Option.some.injEq] at hclean'
      refine .inl ⟨Bool.eq_false_iff.2 fun hid => ?_, hclean'.symm⟩
      -- two identifiers that are cleaned alike are one name, which no two definitions have
      rw [Text.toIdentifier, if_pos hid] at hclean'
      have hapart := definitions_apart hload hnames
      rw [hsplit, List.pairwise_append] at hapart
      exact hapart.2.2 e he d List.mem_cons_self other hother (hclean' ▸ hname)
    · rw [hgiven, Option.some.injEq] at hnumbered
      exact .inr ⟨n, hn, hnumbered⟩

omit hload hnames

/-- Names that are cleaned to others or numbered like them. -/
def crowdedNames : Json :=
  .object [("components", .array
    [.object [("name", .string "my card")],
      .object [("name", .string "my_card"), ("children", .object [("type", .string "Component")])],
      .object [("name", .string "my_card2")], .object [("name", .string "my_card3")]])]

theorem resolve_keeps_crowdedNames :
    ∃ app table before d after, Load.app crowdedNames = .ok app ∧ (resolve app {}).outcome = .ok table ∧
      app.definitions = before ++ d :: after ∧ d.head.name = some "my_card3" ∧
      (resolve app {}).naming.nameOf d.head = some "my_card3" ∧
      ∀ e ∈ before, e.head.name ≠ none → (resolve app {}).naming.nameOf e.head ≠ some "my_card3" := by
  have hgiven : ((Load.app crowdedNames).toOption.bind fun app => (resolve app {}).outcome.toOption.bind fun _ =>
      app.definitions[4]?.map fun d => (d.head.name, (resolve app {}).naming.nameOf d.head)) =
      some (some "my_card3", some "my_card3") := by decide +kernel
  obtain ⟨app, happ, hgiven⟩ := Option.bind_eq_some_iff.1 hgiven
  obtain ⟨table, htable, hgiven⟩ := Option.bind_eq_some_iff.1 hgiven
  obtain ⟨d, hd, hgiven⟩ := Option.map_eq_some_iff.1 hgiven
  obtain ⟨hname, hgiven⟩ := Prod.mk.inj hgiven
  obtain ⟨before, after, hsplit⟩ := List.append_of_mem (List.mem_of_getElem? hd)
  have hload := eq_ok_of_toOption happ
  have hnames := eq_ok_of_toOption htable
  obtain ⟨hkept, -⟩ := resolve_keeps hload hnames hsplit hname (by decide)
  exact ⟨app, table, before, d, after, hload, hnames, hsplit, hname, hgiven, hkept.1 hgiven⟩

/-- The second name is an identifier and its definition gets the third one, which is an
identifier, too, and whose definition gets another one. -/
theorem identifier_not_kept :
    Text.isIdentifier "my_card" = true ∧ Text.isIdentifier "my_card2" = true ∧
    ((Load.app crowdedNames).toOption.bind fun app => (resolve app {}).outcome.toOption.map fun _ =>
      app.definitions.map fun d => (d.head.name, (resolve app {}).naming.nameOf d.head)) =
      some [(some "my card", some "my_card"), (some "my_card", some "my_card2"), (none, some "my_card2Part0"),
        (some "my_card2", some "my_card22"), (some "my_card3", some "my_card3")] := by
  decide +kernel

end ViewTree.Names
