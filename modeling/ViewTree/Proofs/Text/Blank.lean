import Mathlib.Data.List.DropRight
import ViewTree.Text.Basic

/-!
# Trimmed text

Trimming takes the blank characters off both ends, so a second trimming finds none,
and nothing is left exactly of a blank text.
-/

namespace ViewTree.Text

theorem dropWhile_dropAroundWhile (p : Char → Bool) (cs : List Char) :
    (dropAroundWhile p cs).dropWhile p = dropAroundWhile p cs := by
  have hprefix : dropAroundWhile p cs <+: cs.dropWhile p := List.rdropWhile_prefix p _
  cases hd : dropAroundWhile p cs with
  | nil => rfl
  | cons c rest =>
    -- what is left starts like the text after the first cut, with a character to keep
    rw [hd] at hprefix
    obtain ⟨more, hmore⟩ := hprefix
    have hself := List.dropWhile_idempotent (p := p) cs
    rw [← hmore, List.cons_append] at hself
    cases hc : p c with
    | false => rw [List.dropWhile_cons_of_neg (by simp [hc])]
    | true =>
      rw [List.dropWhile_cons_of_pos hc] at hself
      have hlength := (List.dropWhile_suffix p (l := rest ++ more)).length_le
      rw [hself, List.length_cons] at hlength
      omega

theorem dropAroundWhile_idempotent (p : Char → Bool) (cs : List Char) :
    dropAroundWhile p (dropAroundWhile p cs) = dropAroundWhile p cs := by
  rw [dropAroundWhile, dropWhile_dropAroundWhile]
  exact List.rdropWhile_idempotent p _

/-- What is dropped stands on either side of what is kept. -/
theorem dropAroundWhile_split (p : Char → Bool) (cs : List Char) :
    ∃ a d, (∀ c ∈ a, p c = true) ∧ (∀ c ∈ d, p c = true) ∧ cs = a ++ (dropAroundWhile p cs ++ d) := by
  refine ⟨cs.takeWhile p, (cs.dropWhile p).rtakeWhile p, fun c hc => List.mem_takeWhile_imp hc, fun c hc => ?_, ?_⟩
  · exact List.mem_rtakeWhile_imp hc
  · show cs = cs.takeWhile p ++ ((cs.dropWhile p).rdropWhile p ++ (cs.dropWhile p).rtakeWhile p)
    rw [List.rdropWhile_append_rtakeWhile, List.takeWhile_append_dropWhile]

/-- What can be dropped on either side makes no difference. -/
theorem dropAroundWhile_append {p : Char → Bool} {a d : List Char} (ha : ∀ c ∈ a, p c = true)
    (hd : ∀ c ∈ d, p c = true) (cs : List Char) : dropAroundWhile p (a ++ (cs ++ d)) = dropAroundWhile p cs := by
  have hend : ∀ m : List Char, dropEndWhile p (m ++ d) = dropEndWhile p m := fun m => by
    rw [dropEndWhile, List.reverse_append, List.dropWhile_append_of_pos (by simpa using hd), dropEndWhile]
  rw [dropAroundWhile, List.dropWhile_append_of_pos ha, List.dropWhile_append, dropAroundWhile]
  split
  · rename_i hempty
    rw [List.isEmpty_iff.1 hempty, List.dropWhile_eq_nil_iff.2 hd]
  · exact hend _

theorem trim_trim (s : String) : trim (trim s) = trim s := by
  unfold trim
  rw [String.toList_ofList, dropAroundWhile_idempotent]

/-- Nothing is left of a blank text, and of no other. -/
theorem isBlank_iff_trim {s : String} : isBlank s = true ↔ trim s = "" := by
  have hall : isBlank s = true ↔ ∀ c ∈ s.toList, isSpace c = true := List.all_eq_true
  have hnil : trim s = "" ↔ dropAroundWhile isSpace s.toList = [] := by
    rw [trim, ← String.toList_inj, String.toList_ofList]
    rfl
  rw [hall, hnil]
  constructor
  · intro h
    rw [dropAroundWhile, List.dropWhile_eq_nil_iff.2 h]
    rfl
  · intro h
    have hrest : ∀ c ∈ s.toList.dropWhile isSpace, isSpace c = true := List.rdropWhile_eq_nil_iff.1 h
    have hstart := List.dropWhile_eq_nil_iff.2 hrest
    rw [List.dropWhile_idempotent] at hstart
    exact List.dropWhile_eq_nil_iff.1 hstart

theorem isBlank_trim (s : String) : isBlank (trim s) = isBlank s := by
  rw [Bool.eq_iff_iff, isBlank_iff_trim, isBlank_iff_trim, trim_trim]

theorem afterLead?_eq_some {lead cs rest : List Char} : afterLead? lead cs = some rest ↔ cs = lead ++ rest := by
  unfold afterLead?
  constructor
  · intro h
    split at h
    · rename_i hlead
      obtain ⟨more, rfl⟩ := List.isPrefixOf_iff_prefix.1 hlead
      rw [List.drop_left, Option.some.injEq] at h
      rw [h]
    · cases h
  · rintro rfl
    rw [if_pos (List.isPrefixOf_iff_prefix.2 (List.prefix_append lead rest)), List.drop_left]

end ViewTree.Text
