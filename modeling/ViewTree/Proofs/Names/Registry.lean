import Mathlib.Data.List.Nodup
import ViewTree.Names.Registry
import ViewTree.Proofs.Text.Identifier

/-!
# Claims give free names

`pick` looks through one more number than there are names taken. The numbered names
differ from each other, so they cannot all be taken, and what a claim gives was free
before. Without a separator, a claim on an identifier gives an identifier.
-/

namespace ViewTree.Registry

theorem isTaken_iff {r : Registry} {name : String} : r.isTaken name = true ↔ name ∈ r.taken := by
  simp [isTaken]

theorem numbered_injective (r : Registry) (base : String) : Function.Injective (r.numbered base) := by
  intro m n h
  unfold numbered at h
  rw [String.append_right_inj] at h
  exact Text.decimal_injective h

theorem numbered_plain {r : Registry} (h : r.separator = "") (base : String) (n : Nat) :
    r.numbered base n = base ++ Text.decimal n := by
  rw [numbered, h, String.append_empty]

/-- Among the numbers that `pick` tries there is one whose name is free. -/
theorem exists_free (r : Registry) (base : String) :
    ∃ n ∈ List.range' 2 (r.taken.length + 1), r.numbered base n ∉ r.taken := by
  by_contra hnone
  push Not at hnone
  have hnodup : ((List.range' 2 (r.taken.length + 1)).map (r.numbered base)).Nodup :=
    (List.nodup_range' _).map (r.numbered_injective base)
  have hsub : (List.range' 2 (r.taken.length + 1)).map (r.numbered base) ⊆ r.taken := by
    intro name hname
    obtain ⟨n, hn, rfl⟩ := List.mem_map.1 hname
    exact hnone n hn
  have hlen := List.Nodup.length_le_of_subset hnodup hsub
  simp only [List.length_map, List.length_range'] at hlen
  omega

/-- A name that is taken gets the least number, from two on, that makes it free. -/
theorem pick_of_taken {r : Registry} {base : String} (h : base ∈ r.taken) :
    ∃ n, 2 ≤ n ∧ r.pick base = r.numbered base n ∧ r.numbered base n ∉ r.taken ∧
      ∀ m, 2 ≤ m → m < n → r.numbered base m ∈ r.taken := by
  unfold pick
  rw [if_pos (isTaken_iff.2 h)]
  cases hf : (List.range' 2 (r.taken.length + 1)).find? fun n => !r.isTaken (r.numbered base n) with
  | some n =>
    obtain ⟨hfree, hrange, hleast⟩ := List.find?_range'_eq_some.1 hf
    refine ⟨n, (List.mem_range'_1.1 hrange).1, rfl, by simpa [isTaken] using hfree, fun m hm hmn => ?_⟩
    simpa [isTaken] using hleast m hm hmn
  | none =>
    obtain ⟨n, hn, hfree⟩ := r.exists_free base
    have := List.find?_eq_none.1 hf n hn
    simp [isTaken, hfree] at this

theorem pick_of_free {r : Registry} {base : String} (h : base ∉ r.taken) : r.pick base = base := by
  unfold pick
  rw [if_neg fun ht => h (isTaken_iff.1 ht)]

/-- The name a claim gives: the one asked for if it is free, and otherwise one of the
numbered ones. -/
theorem pick_cases (r : Registry) (base : String) :
    (base ∉ r.taken ∧ r.pick base = base) ∨
      (base ∈ r.taken ∧ ∃ n, r.pick base = r.numbered base n ∧ r.numbered base n ∉ r.taken) := by
  by_cases h : base ∈ r.taken
  · obtain ⟨n, -, hpick, hfree, -⟩ := pick_of_taken h
    exact .inr ⟨h, n, hpick, hfree⟩
  · exact .inl ⟨h, pick_of_free h⟩

/-- What stands after the name asked for: nothing, or the separator and a number. -/
theorem pick_suffix (r : Registry) (base : String) :
    ∃ suffix, r.pick base = base ++ suffix ∧
      (suffix = "" ∨ ∃ n, 2 ≤ n ∧ suffix = r.separator ++ Text.decimal n) := by
  by_cases h : base ∈ r.taken
  · obtain ⟨n, hn, hpick, -⟩ := pick_of_taken h
    exact ⟨_, hpick.trans String.append_assoc, .inr ⟨n, hn, rfl⟩⟩
  · exact ⟨"", by rw [pick_of_free h, String.append_empty], .inl rfl⟩

/-- What a claim gives was free. -/
theorem pick_not_taken (r : Registry) (base : String) : r.pick base ∉ r.taken := by
  rcases r.pick_cases base with ⟨hb, he⟩ | ⟨-, n, he, hn⟩
  · rw [he]
    exact hb
  · rw [he]
    exact hn

/-- A claim gives the name asked for exactly if it is free. -/
theorem pick_eq_base_iff {r : Registry} {base : String} : r.pick base = base ↔ base ∉ r.taken := by
  constructor
  · intro h
    rw [← h]
    exact r.pick_not_taken base
  · exact pick_of_free

theorem isIdentifier_pick {r : Registry} (hsep : r.separator = "") {base : String}
    (h : Text.isIdentifier base = true) : Text.isIdentifier (r.pick base) = true := by
  rcases r.pick_cases base with ⟨-, he⟩ | ⟨-, n, he, -⟩
  · rw [he]
    exact h
  · rw [he, numbered_plain hsep]
    exact Text.isIdentifier_append h (Text.continues_decimal n)

/-- A claim takes the name it gives and changes nothing else. -/
theorem claim_taken (r : Registry) (base : String) :
    (r.claim base).2 = { r with taken := r.taken ++ [(r.claim base).1] } := rfl

end ViewTree.Registry
