import ViewTree.Proofs.Load.Heads
import ViewTree.Proofs.Text.Blank

/-!
# Loaded styles

An entry that can become sheet text holds no script, a script is never blank, and an
entry under a format notes the format it refers to. So if every format that the log
refers to is declared, so is the format of every entry.
-/

namespace ViewTree

/-- No value of the map is a script reference. -/
def StyleMap.Unscripted (style : StyleMap) : Prop :=
  ∀ p ∈ style, ∀ text, p.2 = .string text → Script.reference? text = none

/-- An entry whose format is one of those declared, whose script is not blank and whose
map, if it can become sheet text, holds no script. -/
def StyleEntry.WellFormed (formats : Keyed Predicate) : StyleEntry → Prop
  | .plain _ => True
  | .conditional _ _ => True
  | .format name style => formats.has name = true ∧ StyleMap.Unscripted style
  | .selector _ style => StyleMap.Unscripted style
  | .text _ => True
  | .dynamic code => Text.isBlank code = false

namespace Load

/-- Every format that the log refers to is declared. -/
def Log.Known (formats : Keyed Predicate) (log : Log) : Prop := ∀ u ∈ log.formats, formats.has u.format = true

theorem Log.Known.left {formats : Keyed Predicate} {a b : Log} (h : (a ++ b).Known formats) : a.Known formats :=
  fun u hu => h u (List.mem_append_left _ hu)

theorem Log.Known.right {formats : Keyed Predicate} {a b : Log} (h : (a ++ b).Known formats) : b.Known formats :=
  fun u hu => h u (List.mem_append_right _ hu)

theorem Log.Known.of_each {formats : Keyed Predicate} {α β : Type} {f : α → Load β} {as : List α}
    (h : (Noted.each f as).notes.Known formats) : ∀ a ∈ as, (f a).notes.Known formats := by
  induction as with
  | nil => simp
  | cons a as ih =>
    rw [Noted.each] at h
    intro b hb
    rcases List.mem_cons.1 hb with rfl | hb
    · exact Log.Known.left h
    · exact ih (Log.Known.left (Log.Known.right h)) b hb

/-! ## Scripts -/

theorem requiredScript_value {fields : Keyed Json} {key path what script : String} {rule : Rule}
    (h : (requiredScript fields key path rule what).value = some script) : Text.isBlank script = false := by
  unfold requiredScript at h
  split at h
  · split at h
    · cases h
    · rename_i hblank
      obtain rfl := Option.some.inj h
      exact Bool.eq_false_iff.2 hblank
  · cases h

/-- A script that is required and not there is a problem. -/
theorem requiredScript_isSome {fields : Keyed Json} {key path what : String} {rule : Rule}
    (h : (requiredScript fields key path rule what).notes.problems = []) :
    ∃ script, (requiredScript fields key path rule what).value = some script := by
  unfold requiredScript at h ⊢
  split at h
  · split at h
    · simp [fail, problem] at h
    · rename_i hblank
      exact ⟨_, by simp only [hblank]; rfl⟩
  · simp [fail, problem] at h

/-- The script of a reference is trimmed, so if there is any of it, it is not blank. -/
theorem reference_not_blank {raw code : String} (h : Script.reference? raw = some code)
    (hne : code.isEmpty = false) : Text.isBlank code = false := by
  obtain ⟨inner, -, rfl⟩ := Option.map_eq_some_iff.1 h
  rw [← Bool.not_eq_true, Text.isBlank_iff_trim]
  intro hempty
  have htrim : Text.trim (String.ofList (Text.dropAroundWhile Text.isSpace inner)) =
      String.ofList (Text.dropAroundWhile Text.isSpace inner) := by
    rw [Text.trim, String.toList_ofList, Text.dropAroundWhile_idempotent]
  rw [htrim] at hempty
  rw [hempty] at hne
  cases hne

/-! ## Entries -/

theorem staticStyleMap_unscripted {fields : Keyed Json} {path : String} {style : StyleMap}
    (h : (staticStyleMap fields path).value = some style) : style.Unscripted := by
  simp only [staticStyleMap, Noted.value_bind] at h
  cases hs : (styleMap fields path).value with
  | none => simp [hs] at h
  | some found =>
    simp only [hs] at h
    split at h
    · rename_i hscripts
      obtain rfl := Option.some.inj h
      rintro ⟨key, value⟩ hp text rfl
      have hnone := List.filterMap_eq_nil_iff.1 (List.isEmpty_iff.1 hscripts) _ hp
      by_contra hsome
      simp [Option.isSome_iff_ne_none, hsome] at hnone
    · cases h

section
variable {formats : Keyed Predicate} {path : String} {e : StyleEntry}

theorem formatEntry_wellFormed {name : Json} {fields : Keyed Json}
    (h : (formatEntry name fields path).value = some e) (hk : (formatEntry name fields path).notes.Known formats) :
    e.WellFormed formats := by
  unfold formatEntry at h hk
  split at h
  · obtain ⟨style, hstyle, rfl⟩ := Option.map_eq_some_iff.1 h
    exact ⟨hk.left _ List.mem_cons_self, staticStyleMap_unscripted hstyle⟩
  · cases h

theorem styleObject_wellFormed {fields : Keyed Json} (h : (styleObject fields path).value = some e)
    (hk : (styleObject fields path).notes.Known formats) : e.WellFormed formats := by
  revert h hk
  unfold styleObject
  split
  · exact formatEntry_wellFormed
  · intro h _
    unfold selectorEntry at h
    split at h
    · obtain ⟨style, hstyle, rfl⟩ := Option.map_eq_some_iff.1 h
      exact staticStyleMap_unscripted hstyle
    · cases h
  · intro h _
    split at h
    · rw [conditionalEntry, Noted.value_bind] at h
      split at h
      · cases h
      · obtain ⟨style, -, rfl⟩ := Option.map_eq_some_iff.1 h
        trivial
    · split at h
      · obtain ⟨code, hcode, rfl⟩ := Option.map_eq_some_iff.1 h
        exact requiredScript_value hcode
      · obtain rfl := Option.some.inj h
        trivial

theorem styleEntry_wellFormed {value : Json} (h : (styleEntry value path).value = some e)
    (hk : (styleEntry value path).notes.Known formats) : e.WellFormed formats := by
  unfold styleEntry at h hk
  split at h
  · split at h
    · split at h
      · rename_i code hcode
        split at h
        · cases h
        · rename_i hempty
          obtain rfl := Option.some.inj h
          exact reference_not_blank hcode (Bool.eq_false_iff.2 hempty)
      · cases h
    · obtain rfl := Option.some.inj h
      trivial
  · exact styleObject_wellFormed h hk
  · cases h

end

/-- The entries of a style that loads, where the formats referred to are declared. -/
theorem styles_wellFormed {formats : Keyed Predicate} {value : Json} {path : String}
    (hk : (styles value path).notes.Known formats) : ∀ e ∈ (styles value path).value, e.WellFormed formats := by
  revert hk
  unfold styles
  split
  · intro _ e he
    cases he
  · intro hk e he
    simp only [Noted.eachIndexed, Noted.value_bind, Noted.value_pure, Noted.value_each, List.mem_filterMap,
      List.mem_map, id_eq] at he
    obtain ⟨o, ⟨⟨v, i⟩, hv, ho⟩, rfl⟩ := he
    exact styleEntry_wellFormed ho (hk.left.of_each (v, i) hv)
  · intro hk e he
    exact styleEntry_wellFormed (Option.mem_toList.1 he) hk.left

/-! ## Formats -/

theorem formatPredicate_isEmpty {value : Json} {path : String} {p : Predicate}
    (h : (formatPredicate value path).value = some p) : p.isEmpty = false := by
  unfold formatPredicate at h
  split at h
  · rw [Noted.value_bind] at h
    split at h
    · cases h
    · split at h
      · cases h
      · rename_i hempty
        obtain rfl := Option.some.inj h
        exact Bool.eq_false_iff.2 hempty
  · cases h

theorem mem_objectField {α : Type} {fields : Keyed Json} {key : String} {load : Json → String → Load (Option α)}
    {p : String × α} (h : p ∈ (objectField fields key load).value) :
    ∃ v path, (load v path).value = some p.2 := by
  unfold objectField at h
  split at h
  · cases h
  · cases h
  · simp only [Noted.eachSome, Noted.value_bind, Noted.value_pure, Noted.value_each, List.mem_filterMap,
      List.mem_map, id_eq] at h
    obtain ⟨o, ⟨⟨name, v⟩, -, ho⟩, rfl⟩ := h
    obtain ⟨a, ha, rfl⟩ := Option.map_eq_some_iff.1 ho
    exact ⟨v, _, ha⟩
  · cases h

end Load

end ViewTree
