import Mathlib.Logic.Function.Iterate
import ViewTree.Proofs.Text.InOrder

/-!
# Blocks of code, indented and read back

A block of code is put together from characters of the layout and texts of the document,
which are shielded in it (`Block`). However often it is indented, reading it back gives the
block with blanks in front of its lines and with every text of the document as it was
(`unshield_indent_iterate`): a shielded text has no line break, so the lines of the block
are those of its layout, and the reader is back in step after every piece.
-/

namespace ViewTree.Text

/-! ## Joined lines -/

theorem dropReturnChars_eq_iff {cs : List Char} : dropReturnChars cs = cs ↔ cs.getLast? ≠ some '\r' := by
  unfold dropReturnChars
  split
  · rename_i hlast
    have hne : cs ≠ [] := by
      rintro rfl
      cases hlast
    simp only [hlast, ne_eq, not_true_eq_false, iff_false]
    intro h
    have hlength := congrArg List.length h
    have hpos := List.length_pos_iff.2 hne
    rw [List.length_dropLast] at hlength
    omega
  · rename_i hlast
    exact iff_of_true rfl hlast

theorem getLast?_append_ne {a b : List Char} {c : Char} (ha : a.getLast? ≠ some c) (hb : b.getLast? ≠ some c) :
    (a ++ b).getLast? ≠ some c := by
  rw [List.getLast?_append]
  cases h : b.getLast? with
  | none => simpa using ha
  | some d =>
    rw [h] at hb
    simpa using hb

/-- Lines that are found again once they are joined: they hold no line break, no carriage
return stands at an end, and the last is not empty unless it is the only one. -/
structure AreLines (ls : List (List Char)) : Prop where
  ne_nil : ls ≠ []
  unbroken : ∀ l ∈ ls, '\n' ∉ l
  returns : ∀ l ∈ ls, dropReturnChars l = l
  last : ls.getLast? = some [] → ls = [[]]

theorem lines_intercalate {ls : List (List Char)} (h : AreLines ls) (hne : ls ≠ [[]]) :
    lines (['\n'].intercalate ls) = ls := by
  obtain ⟨front, last, rfl⟩ := (List.eq_nil_or_concat' ls).resolve_left h.ne_nil
  have hlast : last ≠ [] := by
    rintro rfl
    exact hne (h.last (by simp))
  have hfront : ∀ l ∈ front, '\n' ∉ l ∧ dropReturnChars l = l := fun l hl =>
    ⟨h.unbroken l (List.mem_append_left _ hl), h.returns l (List.mem_append_left _ hl)⟩
  have hend := lines_singleton hlast (h.unbroken last (by simp))
  clear h hne
  induction front with
  | nil => simpa using hend
  | cons l front ih =>
    obtain ⟨hunbroken, hreturn⟩ := hfront l List.mem_cons_self
    rw [List.cons_append, List.intercalate_cons_of_ne_nil (by simp), List.append_assoc, List.singleton_append,
      lines_append_break, lines_unbroken hunbroken, hreturn, ih fun l' hl' => hfront l' (List.mem_cons_of_mem l hl')]
    rfl

/-- `n` blanks in front of a line that is not empty. -/
def marginLine (n : Nat) (l : List Char) : List Char := if l = [] then [] else List.replicate n ' ' ++ l

theorem marginLine_eq_nil {n : Nat} {l : List Char} : marginLine n l = [] ↔ l = [] := by
  unfold marginLine
  split <;> simp [*]

theorem indentLine_marginLine (n : Nat) (l : List Char) : indentLine (marginLine n l) = marginLine (n + 2) l := by
  unfold marginLine
  split
  · rfl
  · rename_i hl
    obtain ⟨c, cs, hcs⟩ := List.exists_cons_of_ne_nil (List.append_ne_nil_of_right_ne_nil (List.replicate n ' ') hl)
    rw [hcs, indentLine, ← hcs]
    rfl

theorem AreLines.margin {ls : List (List Char)} (h : AreLines ls) (n : Nat) : AreLines (ls.map (marginLine n)) where
  ne_nil := by simpa using h.ne_nil
  unbroken := by
    simp only [List.forall_mem_map]
    intro l hl
    unfold marginLine
    split
    · simp
    · simpa using h.unbroken l hl
  returns := by
    simp only [List.forall_mem_map]
    intro l hl
    unfold marginLine
    split
    · rfl
    · have hblanks : (List.replicate n ' ').getLast? ≠ some '\r' := by simp [List.getLast?_replicate]
      exact dropReturnChars_eq_iff.2 (getLast?_append_ne hblanks (dropReturnChars_eq_iff.1 (h.returns l hl)))
  last := by
    intro hlast
    rw [List.getLast?_map, Option.map_eq_some_iff] at hlast
    obtain ⟨l, hl, hnil⟩ := hlast
    rw [marginLine_eq_nil.1 hnil] at hl
    rw [h.last hl]
    rfl

/-- Lines that are joined by line breaks are indented one by one. -/
theorem indent_intercalate {ls : List (List Char)} (h : AreLines ls) :
    indent (String.ofList (['\n'].intercalate ls)) = String.ofList (['\n'].intercalate (ls.map indentLine)) := by
  by_cases hne : ls = [[]]
  · subst hne
    rfl
  · rw [← String.toList_inj, indent, toList_join, String.toList_ofList, String.toList_ofList, lines_intercalate h hne,
      List.map_map]
    simp [Function.comp_def]

/-- Each further indentation puts two more blanks in front of the lines. -/
theorem iterate_indent_intercalate {ls : List (List Char)} (h : AreLines ls) (k : Nat) :
    indent^[k] (String.ofList (['\n'].intercalate ls)) =
      String.ofList (['\n'].intercalate (ls.map (marginLine (2 * k)))) := by
  induction k with
  | zero =>
    have hid : ls.map (marginLine 0) = ls := by
      rw [List.map_congr_left (g := id) fun l _ => by simp [marginLine, eq_comm], List.map_id]
    rw [Function.iterate_zero, id_eq, Nat.mul_zero, hid]
  | succ k ih =>
    rw [Function.iterate_succ_apply', ih, indent_intercalate (h.margin _), List.map_map]
    simp only [Function.comp_def, indentLine_marginLine, Nat.mul_succ]

/-- Joined lines that do not end with a line break have no empty last line. -/
theorem getLast?_intercalate {ls : List (List Char)} (hlast : ls.getLast? = some []) (hne : ls ≠ [[]]) :
    (['\n'].intercalate ls).getLast? = some '\n' := by
  induction ls with
  | nil => cases hlast
  | cons l ls ih =>
    cases ls with
    | nil =>
      obtain rfl : l = [] := by simpa using hlast
      exact absurd rfl hne
    | cons l' ls =>
      rw [List.getLast?_cons_cons] at hlast
      rw [List.intercalate_cons_cons]
      by_cases hend : l' :: ls = [[]]
      · rw [hend]
        simp
      · rw [List.getLast?_append, ih hlast hend, Option.some_or]

/-- No part of a list that is taken apart holds the separator. -/
theorem notMem_of_mem_splitOn {α : Type} [DecidableEq α] {separator : α} {xs part : List α}
    (h : part ∈ xs.splitOn separator) : separator ∉ part := by
  induction xs generalizing part with
  | nil =>
    obtain rfl : part = [] := by simpa using h
    exact List.not_mem_nil
  | cons x xs ih =>
    rw [List.splitOn_cons_eq_if_modifyHead] at h
    split at h
    · rcases List.mem_cons.1 h with rfl | h
      · exact List.not_mem_nil
      · exact ih h
    · rename_i hx
      obtain ⟨first, rest, hparts⟩ := List.exists_cons_of_ne_nil (List.splitOn_ne_nil separator xs)
      rw [hparts] at h ih
      rcases List.mem_cons.1 h with rfl | h
      · rw [List.mem_cons, not_or]
        exact ⟨fun he => hx (by simp [he]), ih List.mem_cons_self⟩
      · exact ih (List.mem_cons_of_mem first h)

/-! ## Blocks -/

/-- What a block of code is put together from: characters of the layout, and texts of the
document. -/
inductive Bit where
  | layout (c : Char)
  | document (text : String)
deriving DecidableEq

namespace Bit

/-- As it stands in the block, with the texts of the document shielded. -/
def written : Bit → List Char
  | .layout c => [c]
  | .document text => shieldChars text.toList

/-- As it is meant. -/
def meant : Bit → List Char
  | .layout c => [c]
  | .document text => text.toList

/-- The text of the document, if it is one. -/
def documents : Bit → List String
  | .layout _ => []
  | .document text => [text]

/-- The layout uses neither the marker nor carriage returns, and no text of the document
ends with one. -/
def Fits : Bit → Prop
  | .layout c => c ≠ marker ∧ c ≠ '\r'
  | .document text => text.toList.getLast? ≠ some '\r'

instance : DecidablePred Fits
  | .layout c => inferInstanceAs (Decidable (c ≠ marker ∧ c ≠ '\r'))
  | .document text => inferInstanceAs (Decidable (text.toList.getLast? ≠ some '\r'))

end Bit

/-- A block of code. -/
abbrev Block := List Bit

namespace Block

/-- A text of the layout. -/
def ofLayout (s : String) : Block := s.toList.map .layout

/-- The block as it is laid out, with the texts of the document shielded. -/
def written (b : Block) : String := String.ofList (b.flatMap Bit.written)

/-- The block with the texts of the document as they are. -/
def meant (b : Block) : String := String.ofList (b.flatMap Bit.meant)

/-- The texts of the document in the block, in order. -/
def documents (b : Block) : List String := b.flatMap Bit.documents

/-- The lines of the block: a line break of the layout ends one. -/
def lines (b : Block) : List Block := b.splitOn (.layout '\n')

/-- `n` blanks in front of a line that is not empty as it is written. -/
def marginLine (n : Nat) (l : Block) : Block :=
  if l.flatMap Bit.written = [] then l else List.replicate n (.layout ' ') ++ l

/-- The block with `n` blanks in front of each line that is not empty. -/
def margin (n : Nat) (b : Block) : Block := [.layout '\n'].intercalate (b.lines.map (marginLine n))

/-! ### Its lines -/

theorem lines_ne_nil (b : Block) : b.lines ≠ [] := List.splitOn_ne_nil _ b

theorem intercalate_lines (b : Block) : [.layout '\n'].intercalate b.lines = b := List.intercalate_splitOn _

theorem mem_of_mem_lines {b l : Block} (hl : l ∈ b.lines) {bit : Bit} (hbit : bit ∈ l) : bit ∈ b := by
  rw [← b.intercalate_lines]
  exact mem_intercalate hl hbit

/-- A shielded text has no line break, so those of a block are all of its layout. -/
theorem unbroken_of_mem_lines {b l : Block} (hl : l ∈ b.lines) : '\n' ∉ l.flatMap Bit.written := by
  intro hbreak
  obtain ⟨bit, hbit, hc⟩ := List.mem_flatMap.1 hbreak
  cases bit with
  | layout c =>
    obtain rfl := List.mem_singleton.1 hc
    exact notMem_of_mem_splitOn hl hbit
  | document text => exact shieldChars_unbroken _ hc

theorem flatMap_lines {α : Type} (f : Bit → List α) (b : Block) :
    b.flatMap f = (f (.layout '\n')).intercalate (b.lines.map (List.flatMap f)) := by
  rw [← flatMap_intercalate, intercalate_lines]

theorem written_eq (b : Block) : b.written = String.ofList (['\n'].intercalate (b.lines.map (List.flatMap Bit.written))) := by
  rw [written, flatMap_lines]
  rfl

/-- A row of bits that fit ends with no carriage return. -/
theorem dropReturnChars_written {l : Block} (h : ∀ bit ∈ l, bit.Fits) :
    dropReturnChars (l.flatMap Bit.written) = l.flatMap Bit.written := by
  induction l with
  | nil => rfl
  | cons bit l ih =>
    rw [List.forall_mem_cons] at h
    rw [List.flatMap_cons]
    refine dropReturnChars_eq_iff.2 (getLast?_append_ne ?_ (dropReturnChars_eq_iff.1 (ih h.2)))
    cases bit with
    | layout c => simpa [Bit.written] using h.1.2
    | document text =>
      refine dropReturnChars_eq_iff.1 ?_
      rw [Bit.written, dropReturnChars_shieldChars, dropReturnChars_eq_iff.2 h.1]

/-- A block that fits and does not end with a line break is found again line by line. -/
theorem areLines {b : Block} (hfits : ∀ bit ∈ b, bit.Fits) (hend : b.written.toList.getLast? ≠ some '\n') :
    AreLines (b.lines.map (List.flatMap Bit.written)) where
  ne_nil := by simpa using b.lines_ne_nil
  unbroken := List.forall_mem_map.2 fun _ hl => unbroken_of_mem_lines hl
  returns := List.forall_mem_map.2 fun _ hl => dropReturnChars_written fun _ hbit => hfits _ (mem_of_mem_lines hl hbit)
  last := by
    intro hlast
    by_contra hne
    rw [written_eq, String.toList_ofList] at hend
    exact hend (getLast?_intercalate hlast hne)

/-! ### Its margin -/

theorem flatMap_margin {α : Type} (f : Bit → List α) (n : Nat) (b : Block) :
    (b.margin n).flatMap f = (f (.layout '\n')).intercalate (b.lines.map fun l => (marginLine n l).flatMap f) := by
  rw [margin, flatMap_intercalate, List.map_map]
  rfl

theorem written_marginLine (n : Nat) (l : Block) :
    (marginLine n l).flatMap Bit.written = Text.marginLine n (l.flatMap Bit.written) := by
  unfold marginLine Text.marginLine
  split
  · assumption
  · simp [List.flatMap_replicate, Bit.written]

theorem written_margin (n : Nat) (b : Block) :
    (b.margin n).written =
      String.ofList (['\n'].intercalate ((b.lines.map (List.flatMap Bit.written)).map (Text.marginLine n))) := by
  rw [written, flatMap_margin, List.map_map]
  simp only [Function.comp_def, written_marginLine]
  rfl

theorem documents_margin (n : Nat) (b : Block) : (b.margin n).documents = b.documents := by
  have hline : ∀ l : Block, (marginLine n l).flatMap Bit.documents = l.flatMap Bit.documents := by
    intro l
    unfold marginLine
    split
    · rfl
    · simp [List.flatMap_replicate, Bit.documents]
  rw [documents, flatMap_margin, documents, flatMap_lines]
  simp only [hline]

/-- The margin adds blanks only. -/
theorem mem_margin {n : Nat} {b : Block} {bit : Bit} (h : bit ∈ b.margin n) :
    bit ∈ b ∨ bit = .layout ' ' ∨ bit = .layout '\n' := by
  rcases of_mem_intercalate h with h | ⟨_, hl, hbit⟩
  · exact .inr (.inr h)
  · obtain ⟨l, hline, rfl⟩ := List.mem_map.1 hl
    unfold marginLine at hbit
    split at hbit
    · exact .inl (mem_of_mem_lines hline hbit)
    · rcases List.mem_append.1 hbit with hbit | hbit
      · exact .inr (.inl (List.eq_of_mem_replicate hbit))
      · exact .inl (mem_of_mem_lines hline hbit)

/-! ### Reading it back -/

/-- After each piece the reader starts afresh, so a block is read as it is meant. -/
theorem unshield_written {b : Block} (h : Bit.layout marker ∉ b) : unshield b.written = b.meant := by
  have hread : unshieldChars (b.flatMap Bit.written) = b.flatMap Bit.meant := by
    induction b with
    | nil => rfl
    | cons bit b ih =>
      rw [List.mem_cons, not_or] at h
      rw [List.flatMap_cons, List.flatMap_cons, ← ih h.2]
      cases bit with
      | layout c => exact unshieldChars_cons (fun hc => h.1 (by rw [hc])) _
      | document text => exact unshieldChars_shieldChars _ _
  rw [unshield, written, String.toList_ofList, hread, meant]

end Block

theorem unshield_shield (text : String) : unshield (shield text) = text := by
  have hread := unshieldChars_shieldChars text.toList []
  rw [List.append_nil] at hread
  rw [unshield, shield, String.toList_ofList, hread]
  simp [unshieldChars]

/-- Shielding commutes with the layout: a block that is indented `k` times and read back is
the block with `2 * k` blanks in front of each line that is not empty, and with the texts of
the document unchanged, their line breaks included. -/
theorem unshield_indent_iterate (b : Block) (hfits : ∀ bit ∈ b, bit.Fits)
    (hend : b.written.toList.getLast? ≠ some '\n') (k : Nat) :
    unshield (indent^[k] b.written) = (b.margin (2 * k)).meant ∧
      (b.margin (2 * k)).written.toList =
        ['\n'].intercalate ((b.written.toList.splitOn '\n').map (marginLine (2 * k))) ∧
      (b.margin (2 * k)).documents = b.documents ∧ ∀ text, unshield (shield text) = text := by
  have hlines := Block.areLines hfits hend
  refine ⟨?_, ?_, b.documents_margin _, unshield_shield⟩
  · have hmarker : Bit.layout marker ∉ b.margin (2 * k) := by
      intro h
      rcases Block.mem_margin h with h | h | h
      · exact (hfits _ h).1 rfl
      · exact absurd h (by decide)
      · exact absurd h (by decide)
    rw [b.written_eq, iterate_indent_intercalate hlines, ← b.written_margin, Block.unshield_written hmarker]
  · rw [b.written_margin, b.written_eq, String.toList_ofList, String.toList_ofList,
      List.splitOn_intercalate '\n' hlines.unbroken hlines.ne_nil]

/-- Texts with markers and line breaks of their own, in a block that is indented twice. -/
theorem unshield_indent_iterate_markers :
    let b : Block := Block.ofLayout "run(\n\n" ++ [.document "say(`a\nb`); \uE000n", .document "\n"] ++
      Block.ofLayout "\n)"
    (∀ bit ∈ b, bit.Fits) ∧ b.written.toList.getLast? ≠ some '\n' ∧
      unshield (indent^[2] b.written) = "    run(\n\n    say(`a\nb`); \uE000n\n\n    )" := by
  intro b
  have hfits : ∀ bit ∈ b, bit.Fits := by decide
  have hend : b.written.toList.getLast? ≠ some '\n' := by decide
  exact ⟨hfits, hend, (unshield_indent_iterate b hfits hend 2).1.trans (by decide)⟩

end ViewTree.Text
