import ViewTree.Artifact
import ViewTree.Proofs.Text.Shield

/-!
# Sections of a sheet

A sheet holds the app's own text first. Each section that is not blank follows with its
last line ended, after an empty line unless it is the first text of the sheet
(`stacked`). What stands in front of a section depends on how the text before it ends, and
that is settled by the section before it: a sheet that has a section ends its last line.
Main statement: `appendSections_stacks`.
-/

namespace ViewTree.Output

/-- A section with its last line ended. -/
def ended (text : String) : String := text ++ if endsLine text then "" else "\n"

/-- What stands between a sheet and the next section. -/
def gapAfter (sheet : String) : String :=
  if sheet.isEmpty then "" else if endsLine sheet then "\n" else "\n\n"

/-- The sections one below the other, an empty line between neighbours, below the app's
own text. -/
def stacked (base : String) : List String → String
  | [] => base
  | text :: texts => base ++ gapAfter base ++ Text.join "\n" ((text :: texts).map ended)

/-- What is written next starts a line. -/
def AtLineStart (sheet : String) : Prop := sheet = "" ∨ endsLine sheet = true

/-- What is written next starts a line, and the line above it is empty. -/
def AfterEmptyLine (sheet : String) : Prop := ∃ above, sheet = above ++ "\n\n"

/-! ## Ends of lines -/

theorem endsLine_iff {s : String} : endsLine s = true ↔ ∃ line, s = line ++ "\n" := by
  unfold endsLine
  rw [beq_iff_eq, List.getLast?_eq_some_iff]
  constructor
  · rintro ⟨cs, hcs⟩
    exact ⟨String.ofList cs, by rw [← String.toList_inj, hcs, String.toList_append, String.toList_ofList]; rfl⟩
  · rintro ⟨line, rfl⟩
    exact ⟨line.toList, String.toList_append⟩

theorem endsLine_append (a : String) {b : String} (h : endsLine b = true) : endsLine (a ++ b) = true := by
  obtain ⟨line, rfl⟩ := endsLine_iff.1 h
  exact endsLine_iff.2 ⟨a ++ line, String.append_assoc.symm⟩

theorem ne_empty_of_endsLine {s : String} (h : endsLine s = true) : s ≠ "" := by
  rintro rfl
  exact absurd h (by decide)

theorem endsLine_ended (text : String) : endsLine (ended text) = true := by
  unfold ended
  split
  · rwa [String.append_empty]
  · exact endsLine_iff.2 ⟨text, rfl⟩

/-- Sections that are joined end the last line, as each of them does. -/
theorem endsLine_join {texts : List String} (h : texts ≠ []) :
    endsLine (Text.join "\n" (texts.map ended)) = true := by
  induction texts with
  | nil => exact absurd rfl h
  | cons text texts ih =>
    cases texts with
    | nil => exact endsLine_ended text
    | cons next more =>
      rw [List.map_cons, List.map_cons, Text.join, ← List.map_cons]
      exact endsLine_append _ (ih (List.cons_ne_nil next more))

/-! ## One section -/

theorem appendSection_blank {text : String} (h : Text.isBlank text = true) (sheet : String) :
    appendSection sheet text = sheet := by
  rw [appendSection, if_pos h]

theorem appendSection_filled {text : String} (h : Text.isBlank text = false) (sheet : String) :
    appendSection sheet text = sheet ++ gapAfter sheet ++ ended text := by
  rw [appendSection, if_neg (by simp [h])]
  exact String.append_assoc

theorem gapAfter_empty : gapAfter "" = "" := rfl

/-- Below a text the gap leaves an empty line, however the text ends. -/
theorem afterEmptyLine_gapAfter {sheet : String} (h : sheet ≠ "") : AfterEmptyLine (sheet ++ gapAfter sheet) := by
  unfold gapAfter
  rw [if_neg fun hempty => h (String.isEmpty_iff.1 hempty)]
  split
  · rename_i hends
    obtain ⟨line, rfl⟩ := endsLine_iff.1 hends
    exact ⟨line, String.append_assoc⟩
  · exact ⟨sheet, rfl⟩

theorem atLineStart_gapAfter (sheet : String) : AtLineStart (sheet ++ gapAfter sheet) := by
  by_cases h : sheet = ""
  · subst h
    exact .inl rfl
  · obtain ⟨above, habove⟩ := afterEmptyLine_gapAfter h
    refine .inr (endsLine_iff.2 ⟨above ++ "\n", ?_⟩)
    rw [habove, String.append_assoc]
    rfl

/-- Below a section the gap is the empty line alone. -/
theorem gapAfter_of_endsLine {sheet : String} (h : endsLine sheet = true) : gapAfter sheet = "\n" := by
  rw [gapAfter, if_neg fun hempty => ne_empty_of_endsLine h (String.isEmpty_iff.1 hempty), if_pos h]

/-! ## All sections -/

theorem join_append_singleton {separator text : String} {texts : List String} (h : texts ≠ []) :
    Text.join separator (texts ++ [text]) = Text.join separator texts ++ separator ++ text := by
  induction texts with
  | nil => exact absurd rfl h
  | cons first texts ih =>
    cases texts with
    | nil => rfl
    | cons next more =>
      rw [List.cons_append, List.cons_append, Text.join, ← List.cons_append, ih (List.cons_ne_nil next more),
        Text.join]
      simp only [String.append_assoc]

/-- A further section goes below those that are there. -/
theorem appendSection_stacked {text : String} (h : Text.isBlank text = false) (base : String) (texts : List String) :
    appendSection (stacked base texts) text = stacked base (texts ++ [text]) := by
  rw [appendSection_filled h]
  cases texts with
  | nil => rfl
  | cons first more =>
    have hjoin : ((first :: more).map ended) ≠ [] := List.cons_ne_nil _ _
    have hends : endsLine (stacked base (first :: more)) = true :=
      endsLine_append _ (endsLine_join (List.cons_ne_nil first more))
    rw [gapAfter_of_endsLine hends, List.cons_append, stacked, stacked, ← List.cons_append, List.map_append,
      List.map_singleton, join_append_singleton hjoin]
    simp only [String.append_assoc]

/-- Along the list, what is appended so far is what is stacked so far. -/
theorem foldl_appendSection_stacked (base : String) (done todo : List String) :
    todo.foldl appendSection (stacked base done) =
      stacked base (done ++ todo.filter fun text => !Text.isBlank text) := by
  induction todo generalizing done with
  | nil => rw [List.filter_nil, List.append_nil, List.foldl_nil]
  | cons text todo ih =>
    rw [List.foldl_cons]
    cases hblank : Text.isBlank text with
    | true => rw [appendSection_blank hblank, ih, List.filter_cons_of_neg (by simp [hblank])]
    | false =>
      rw [appendSection_stacked hblank, ih, List.filter_cons_of_pos (by simp [hblank]), List.append_assoc]
      rfl

/-- The sections of a sheet, blank ones left out, are stacked below its own text. -/
theorem appendSections_eq_stacked (base : String) (sections : List String) :
    appendSections base sections = stacked base (sections.filter fun text => !Text.isBlank text) :=
  foldl_appendSection_stacked base [] sections

theorem appendSections_append (base : String) (sections more : List String) :
    appendSections (appendSections base sections) more = appendSections base (sections ++ more) :=
  List.foldl_append.symm

/-- Sections go below a sheet and leave it as it is. -/
theorem appendSections_extends (sheet : String) (sections : List String) :
    ∃ rest, appendSections sheet sections = sheet ++ rest := by
  rw [appendSections_eq_stacked]
  cases sections.filter fun text => !Text.isBlank text with
  | nil => exact ⟨"", String.append_empty.symm⟩
  | cons text texts => exact ⟨_, String.append_assoc⟩

/-- Below `above` the sheet goes on with the section as it is: on a line of its own, after an
empty line unless nothing is above it, and with its last line ended. -/
def GoesOn (above text sheet : String) : Prop :=
  ∃ gap finish rest, sheet = above ++ gap ++ (text ++ finish) ++ rest ∧
    AtLineStart (above ++ gap) ∧ (above = "" → gap = "") ∧ (above ≠ "" → AfterEmptyLine (above ++ gap)) ∧
    (finish = "" ∨ finish = "\n") ∧ endsLine (text ++ finish) = true

theorem goesOn_appendSections {text : String} (h : Text.isBlank text = false) (base : String)
    (before after : List String) :
    GoesOn (appendSections base before) text (appendSections base (before ++ text :: after)) := by
  obtain ⟨rest, hrest⟩ := appendSections_extends (appendSection (appendSections base before) text) after
  refine ⟨gapAfter (appendSections base before), if endsLine text then "" else "\n", rest, ?_,
    atLineStart_gapAfter _, fun hempty => by rw [hempty, gapAfter_empty], afterEmptyLine_gapAfter, ?_, endsLine_ended text⟩
  · rw [← appendSections_append, ← ended, ← appendSection_filled h, ← hrest]
    rfl
  · split
    · exact .inl rfl
    · exact .inr rfl

theorem appendSections_blank {text : String} (h : Text.isBlank text = true) (base : String)
    (before after : List String) :
    appendSections base (before ++ text :: after) = appendSections base (before ++ after) := by
  rw [← appendSections_append, ← appendSections_append, appendSections, List.foldl_cons, appendSection_blank h]
  rfl

/-- Appending sections keeps the sheet and adds the sections that are not blank, each of them
where the sections before it end; blank ones add nothing. Sections can be appended in two
goes. -/
theorem appendSections_stacks (base : String) (sections : List String) :
    appendSections base sections = stacked base (sections.filter fun text => !Text.isBlank text) ∧
      (∃ rest, appendSections base sections = base ++ rest) ∧
      (∀ before text after, sections = before ++ text :: after →
        if Text.isBlank text then appendSections base sections = appendSections base (before ++ after)
        else GoesOn (appendSections base before) text (appendSections base sections)) ∧
      ∀ more, appendSections (appendSections base sections) more = appendSections base (sections ++ more) := by
  refine ⟨appendSections_eq_stacked base sections, appendSections_extends base sections, ?_,
    appendSections_append base sections⟩
  rintro before text after rfl
  split
  · rename_i hblank
    exact appendSections_blank hblank base before after
  · rename_i hfilled
    exact goesOn_appendSections (Bool.eq_false_iff.2 hfilled) base before after

/-- The text of the app and two sections, one of which ends its last line, around a blank
one. -/
theorem appendSections_stacks_blankBetween :
    appendSections "a {}" ["b {}\n", " \n", "c {}"] = "a {}\n\nb {}\n\nc {}\n" ∧
      GoesOn (appendSections "a {}" ["b {}\n", " \n"]) "c {}" (appendSections "a {}" ["b {}\n", " \n", "c {}"]) :=
  ⟨by decide +kernel, (appendSections_stacks "a {}" ["b {}\n", " \n", "c {}"]).2.2.1 ["b {}\n", " \n"] "c {}" [] rfl⟩

end ViewTree.Output
