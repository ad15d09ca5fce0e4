import ViewTree.Proofs.Load.Heads
import ViewTree.Proofs.Text.Identifier

/-!
# Names that loaded patterns and expressions bind

Whatever a document asks for, a pattern that loads binds at least one name and only
identifiers (`Load.pattern_binds`). A draft holds nothing else from its first entry to
its last, and an entry that is unfit adds nothing to it. So the names that parameters,
loops and expressions bind are identifiers, and setters that are derived from a getter
are, too.
-/

namespace ViewTree

/-- The pattern binds at least one name, and only identifiers. -/
def Pattern.Binds (p : Pattern) : Prop :=
  p.boundNames ≠ [] ∧ ∀ name ∈ p.boundNames, Text.isIdentifier name = true

/-- The names that an expression declares are identifiers. -/
def Expression.WellFormed : Expression → Prop
  | .script _ => True
  | .state getter setter _ => Text.isIdentifier getter = true ∧ Text.isIdentifier setter = true
  | .var pattern _ => pattern.Binds
  | .ref name _ => Text.isIdentifier name = true
  | .effect _ _ => True

namespace Load

/-! ## Object patterns -/

theorem propertyShape_identifier {value : Json} {path : String} {name : String} {default : Option String}
    (h : (propertyShape value path).value = some (some name, default)) : Text.isIdentifier name = true := by
  unfold propertyShape at h
  split at h
  · cases h
  · cases h
  · obtain ⟨hname, -⟩ := Prod.mk.inj (Option.some.inj h)
    exact isIdentifier_identifierText hname
  · dsimp only at h
    split at h
    · obtain ⟨hname, -⟩ := Prod.mk.inj (Option.some.inj h)
      exact isIdentifier_identifier hname
    · cases h
  · cases h

theorem property_identifier {key : String} {value : Json} {path : String} {f : ObjectField}
    (h : (property key value path).value = some f) : Text.isIdentifier f.boundName = true := by
  simp only [property, Noted.value_bind] at h
  cases hs : (propertyShape value path).value with
  | none => simp [hs] at h
  | some shape =>
    obtain ⟨renamed, default⟩ := shape
    simp only [hs] at h
    split at h
    · cases h
    · rename_i hkey
      obtain rfl := Option.some.inj h
      cases renamed with
      | none => simpa [ObjectField.boundName] using hkey
      | some name => exact propertyShape_identifier hs

/-- All that an object pattern binds so far are identifiers. -/
structure ObjectDraft.Fit (d : ObjectDraft) : Prop where
  fields : ∀ f ∈ d.fields, Text.isIdentifier f.boundName = true
  rest : ∀ name ∈ d.rest, Text.isIdentifier name = true

theorem or_identifier {name rest : Option String} (hn : ∀ n ∈ name, Text.isIdentifier n = true)
    (hr : ∀ n ∈ rest, Text.isIdentifier n = true) : ∀ n ∈ name.or rest, Text.isIdentifier n = true := by
  cases name with
  | none => exact hr
  | some n => exact hn

theorem objectEntries_fit (path : String) (entries : Keyed Json) {d : ObjectDraft} (h : d.Fit) :
    (objectEntries path entries d).value.Fit := by
  induction entries generalizing d with
  | nil => exact h
  | cons e entries ih =>
    obtain ⟨key, value⟩ := e
    rw [objectEntries]
    split
    · -- a rest: its name is the value of bare dots, or stands in the key
      dsimp only
      split
      · exact ih ⟨h.fields, or_identifier (fun _ => isIdentifier_identifier) h.rest⟩
      · exact ih ⟨h.fields, or_identifier (fun _ => isIdentifier_identifierText) h.rest⟩
    · rw [Noted.value_bind]
      split
      · rename_i f hf
        refine ih ⟨fun g hg => ?_, h.rest⟩
        rcases List.mem_append.1 hg with hg | hg
        · exact h.fields g hg
        · obtain rfl := List.mem_singleton.1 hg
          exact property_identifier hf
      · exact ih ⟨h.fields, h.rest⟩

/-! ## Array patterns -/

theorem arrayObject_identifier {fields : Keyed Json} {path : String} {i : ArrayItem}
    (h : (arrayObject fields path).value = some i) : Text.isIdentifier i.name = true := by
  unfold arrayObject at h
  dsimp only at h
  split at h
  · obtain ⟨name, hname, rfl⟩ := Option.map_eq_some_iff.1 h
    exact isIdentifier_identifier hname
  · cases h

/-- All that an array pattern binds so far are identifiers. -/
structure ArrayDraft.Fit (d : ArrayDraft) : Prop where
  items : ∀ i, some i ∈ d.items → Text.isIdentifier i.name = true
  rest : ∀ name ∈ d.rest, Text.isIdentifier name = true

theorem ArrayDraft.Fit.push {d : ArrayDraft} (h : d.Fit) {entry : Option ArrayItem}
    (he : ∀ i ∈ entry, Text.isIdentifier i.name = true) :
    ArrayDraft.Fit { d with items := d.items ++ [entry] } where
  items i hi := by
    rcases List.mem_append.1 hi with hi | hi
    · exact h.items i hi
    · exact he i (List.mem_singleton.1 hi).symm
  rest := h.rest

theorem arrayItems_fit (path : String) (items : List Json) (i : Nat) {d : ArrayDraft} (h : d.Fit) :
    (arrayItems path items i d).value.Fit := by
  induction items generalizing i d with
  | nil => exact h
  | cons v items ih =>
    unfold arrayItems
    dsimp only
    split
    · exact ih _ (h.push (by simp))
    · split
      · exact ih _ ⟨h.items, or_identifier (fun _ => isIdentifier_identifierText) h.rest⟩
      · rw [Noted.value_bind]
        split
        · rename_i name hname
          refine ih _ (h.push fun entry he => ?_)
          obtain rfl := Option.some.inj he
          exact isIdentifier_identifierText hname
        · exact ih _ ⟨h.items, h.rest⟩
    · rw [Noted.value_bind]
      split
      · rename_i entry he
        refine ih _ (h.push fun found hf => ?_)
        obtain rfl := Option.some.inj hf
        exact arrayObject_identifier he
      · exact ih _ ⟨h.items, h.rest⟩
    · exact ih _ ⟨h.items, h.rest⟩

/-! ## Patterns -/

theorem patternShape_identifiers {value : Json} {path : String} {p : Pattern}
    (h : (patternShape value path).value = some p) : ∀ name ∈ p.boundNames, Text.isIdentifier name = true := by
  unfold patternShape at h
  split at h
  · split at h
    · cases h
    · obtain ⟨name, hname, rfl⟩ := Option.map_eq_some_iff.1 h
      intro n hn
      obtain rfl := List.mem_singleton.1 hn
      exact isIdentifier_identifierText hname
  · rename_i fields
    have hfit := objectEntries_fit path fields (d := {}) ⟨by simp, by simp⟩
    simp only [Noted.value_bind, Noted.value_pure] at h
    split at h
    · obtain rfl := Option.some.inj h
      intro name hn
      rcases List.mem_append.1 hn with hn | hn
      · obtain ⟨f, hf, rfl⟩ := List.mem_map.1 hn
        exact hfit.fields f hf
      · exact hfit.rest name (Option.mem_toList.1 hn)
    · cases h
  · rename_i items
    have hfit := arrayItems_fit path items 0 (d := {}) ⟨by simp, by simp⟩
    simp only [Noted.value_bind, Noted.value_pure] at h
    split at h
    · obtain rfl := Option.some.inj h
      intro name hn
      rcases List.mem_append.1 hn with hn | hn
      · obtain ⟨i, hi, rfl⟩ := List.mem_map.1 hn
        exact hfit.items i (by simpa using hi)
      · exact hfit.rest name (Option.mem_toList.1 hn)
    · cases h
  · cases h

/-- A pattern that loads binds at least one name, and only identifiers. -/
theorem pattern_binds {value : Json} {path : String} {p : Pattern} (h : (pattern value path).value = some p) :
    p.Binds := by
  simp only [pattern, Noted.value_bind] at h
  cases hs : (patternShape value path).value with
  | none => simp [hs] at h
  | some shape =>
    simp only [hs] at h
    split at h
    · cases h
    · rename_i hempty
      obtain rfl := Option.some.inj h
      exact ⟨fun hnil => hempty (List.isEmpty_iff.2 hnil), patternShape_identifiers hs⟩

theorem params_binds {fields : Keyed Json} {path : String} {p : Pattern}
    (h : (params fields path).value = some p) : p.Binds := by
  unfold params at h
  split at h
  · cases h
  · cases h
  · exact pattern_binds h

theorem defaultVar_binds : defaultVar.Binds := by
  refine ⟨by simp [defaultVar, Pattern.boundNames], fun name hn => ?_⟩
  obtain rfl := List.mem_singleton.1 hn
  decide

theorem loopVar_binds (fields : Keyed Json) (path : String) :
    ((loopVar fields path).value.getD defaultVar).Binds := by
  cases hv : (loopVar fields path).value with
  | none => exact defaultVar_binds
  | some p =>
    unfold loopVar at hv
    split at hv
    · exact pattern_binds hv
    · obtain rfl := Option.some.inj hv
      exact defaultVar_binds

theorem loopIndex_identifier {fields : Keyed Json} {path name : String}
    (h : (loopIndex fields path).value = some name) : Text.isIdentifier name = true := by
  unfold loopIndex at h
  split at h
  · exact isIdentifier_identifier h
  · cases h

/-! ## Expressions -/

theorem isIdentifier_setterName {getter : String} (h : Text.isIdentifier getter = true) :
    Text.isIdentifier (setterName getter) = true :=
  Text.isIdentifier_append (s := "set") rfl (Text.continues_of_isIdentifier (Text.isIdentifier_capitalize h))

theorem statePair_identifiers {value : Option Json} {path getter setter : String}
    (h : (statePair value path).value = some (getter, setter)) :
    Text.isIdentifier getter = true ∧ Text.isIdentifier setter = true := by
  unfold statePair at h
  split at h
  · simp only [Noted.value_bind, Noted.value_pure, Option.bind_eq_some_iff, Option.map_eq_some_iff,
      Prod.mk.injEq] at h
    obtain ⟨g, hg, s, hs, rfl, rfl⟩ := h
    exact ⟨isIdentifier_identifier hg, isIdentifier_identifier hs⟩
  · simp only [Noted.value_bind, Noted.value_pure, Option.map_eq_some_iff, Prod.mk.injEq] at h
    obtain ⟨g, hg, rfl, rfl⟩ := h
    have hid := isIdentifier_identifierText hg
    exact ⟨hid, isIdentifier_setterName hid⟩
  · cases h

theorem typedExpression_wellFormed {fields : Keyed Json} {path : String} {e : Expression}
    (h : (typedExpression fields path).value = some e) : e.WellFormed := by
  unfold typedExpression at h
  split at h
  · obtain ⟨code, -, rfl⟩ := Option.map_eq_some_iff.1 h
    trivial
  · obtain ⟨⟨getter, setter⟩, hpair, rfl⟩ := Option.map_eq_some_iff.1 h
    exact statePair_identifiers hpair
  · dsimp only at h
    have hbound : ∀ {bound : Option Pattern} {value : Option String}, (∀ p ∈ bound, p.Binds) →
        (bound.bind fun p => value.map fun v => Expression.var p v) = some e → e.WellFormed := by
      intro bound value hbinds he
      obtain ⟨p, hp, hv⟩ := Option.bind_eq_some_iff.1 he
      obtain ⟨v, -, rfl⟩ := Option.map_eq_some_iff.1 hv
      exact hbinds p hp
    split at h
    · split at h
      · exact hbound (fun _ => pattern_binds) h
      · exact hbound (fun _ => pattern_binds) h
    · split at h
      · cases h
      · cases h
  · dsimp only at h
    split at h
    · obtain ⟨name, hname, rfl⟩ := Option.map_eq_some_iff.1 h
      exact isIdentifier_identifier hname
    · cases h
  · rw [Noted.value_bind] at h
    split at h
    · cases h
    · obtain rfl := Option.some.inj h
      trivial
  · cases h

theorem expressions_wellFormed (value : Json) (path : String) :
    ∀ e ∈ (expressions value path).value, e.WellFormed := by
  intro e he
  unfold expressions at he
  split at he
  · simp only [Noted.eachIndexed, Noted.value_bind, Noted.value_pure, Noted.value_each, List.mem_filterMap,
      List.mem_map, id_eq] at he
    obtain ⟨o, ⟨⟨v, i⟩, -, hv⟩, rfl⟩ := he
    unfold expression at hv
    split at hv
    · obtain rfl := Option.some.inj hv
      trivial
    · exact typedExpression_wellFormed hv
    · cases hv
  · cases he

end Load

end ViewTree
