import ViewTree.Json.Value
import ViewTree.Proofs.Text.Identifier
import ViewTree.Proofs.Text.Shield

/-!
# JSON text is one line

Line breaks in strings are escaped, and nothing else of a JSON value has any. So the text
of a value never breaks the line it is written on (`oneLine_render`).
-/

namespace ViewTree

namespace Text

/-- The text has no line break. -/
def OneLine (s : String) : Prop := '\n' ∉ s.toList

instance (s : String) : Decidable (OneLine s) := inferInstanceAs (Decidable (_ ∉ _))

theorem oneLine_append {a b : String} : OneLine (a ++ b) ↔ OneLine a ∧ OneLine b := by
  simp [OneLine]

theorem oneLine_ofList {cs : List Char} : OneLine (String.ofList cs) ↔ '\n' ∉ cs := by
  simp [OneLine]

theorem oneLine_join {separator : String} (hs : OneLine separator) {ts : List String} (h : ∀ t ∈ ts, OneLine t) :
    OneLine (join separator ts) := by
  intro hbreak
  obtain ⟨t, ht, hmem⟩ := (mem_join hs).1 hbreak
  exact h t ht hmem

theorem oneLine_of_isIdentifier {s : String} (h : isIdentifier s = true) : OneLine s := fun hmem =>
  absurd (List.all_eq_true.1 (continues_of_isIdentifier h) '\n' hmem) (by decide)

theorem toDigits_unbroken (n : Nat) : '\n' ∉ Nat.toDigits 10 n := by
  intro h
  rw [← toList_decimal] at h
  exact absurd (isDigit_of_mem_decimal h) (by decide)

theorem oneLine_decimal (n : Nat) : OneLine (decimal n) := oneLine_ofList.2 (toDigits_unbroken n)

end Text

namespace Json

open Text

/-! ## Numbers -/

theorem oneLine_fixedPoint {digits : List Char} (h : '\n' ∉ digits) (order : Int) :
    OneLine (fixedPoint digits order) := by
  have hzeros : ∀ n, '\n' ∉ List.replicate n '0' := fun n hn => absurd (List.eq_of_mem_replicate hn) (by decide)
  unfold fixedPoint
  dsimp only
  split
  · simp only [oneLine_append, oneLine_ofList, List.mem_append, not_or]
    exact ⟨by decide, hzeros _, h⟩
  · split
    · simp only [oneLine_append, oneLine_ofList, List.mem_append, not_or]
      exact ⟨⟨h, hzeros _⟩, by decide⟩
    · simp only [oneLine_append, oneLine_ofList]
      exact ⟨⟨fun hc => h (List.mem_of_mem_take hc), by decide⟩, fun hc => h (List.mem_of_mem_drop hc)⟩

theorem oneLine_scientific {layout : Layout} (hl : OneLine layout.plus) {digits : List Char} (h : '\n' ∉ digits)
    (order : Int) : OneLine (scientific layout digits order) := by
  unfold scientific
  simp only [oneLine_append]
  refine ⟨⟨⟨?_, by decide⟩, ?_⟩, oneLine_decimal _⟩
  · split
    · decide
    · exact oneLine_ofList.2 h
    · rw [oneLine_ofList]
      simpa using h
  · split
    · decide
    · exact hl

theorem oneLine_toText (n : Number) : OneLine n.toText := by
  cases n with
  | natural n => exact oneLine_decimal n
  | negative n => exact oneLine_append.2 ⟨by decide, oneLine_decimal n⟩
  | double d =>
    have hbody : OneLine (if d.magnitude.significand = 0 then "0.0" else Number.layout.write d.magnitude.shortest) := by
      split
      · decide
      · unfold Layout.write
        dsimp only
        split
        · exact oneLine_fixedPoint (toDigits_unbroken _) _
        · exact oneLine_scientific (by decide) (toDigits_unbroken _) _
    unfold Number.toText Layout.writeDouble
    dsimp only
    split
    · exact oneLine_append.2 ⟨by decide, hbody⟩
    · exact hbody

/-! ## Values -/

theorem escapeChar_unbroken (c : Char) : '\n' ∉ escapeChar c := by
  have hhex : ∀ n < 16, hexDigit n ≠ '\n' := by decide
  unfold escapeChar
  split_ifs with h1 h2 h3 h4 h5 h6 h7 h8
  all_goals try decide
  · have hhigh := hhex (c.toNat / 16) (by omega)
    have hlow := hhex (c.toNat % 16) (by omega)
    simp [Ne.symm hhigh, Ne.symm hlow]
  · simpa using Ne.symm h3

theorem oneLine_quote (s : String) : OneLine (quote s) := by
  rw [quote, oneLine_ofList]
  simp [escapeChar_unbroken]

mutual

/-- The text of a value is one line. -/
theorem oneLine_render : ∀ v : Json, OneLine v.render
  | .null => by decide
  | .bool true => by decide
  | .bool false => by decide
  | .number n => oneLine_toText n
  | .string s => oneLine_quote s
  | .array items => by
    rw [render, oneLine_append, oneLine_append]
    exact ⟨⟨by decide, oneLine_join (by decide) (oneLine_renderItems items)⟩, by decide⟩
  | .object fields => by
    rw [render, oneLine_append, oneLine_append]
    exact ⟨⟨by decide, oneLine_join (by decide) (oneLine_renderFields fields)⟩, by decide⟩

theorem oneLine_renderItems : ∀ items : List Json, ∀ t ∈ renderItems items, OneLine t
  | [] => by simp [renderItems]
  | v :: rest => by
    intro t ht
    rw [renderItems] at ht
    rcases List.mem_cons.1 ht with rfl | ht
    · exact oneLine_render v
    · exact oneLine_renderItems rest t ht

theorem oneLine_renderFields : ∀ fields : List (String × Json), ∀ t ∈ renderFields fields, OneLine t
  | [] => by simp [renderFields]
  | (k, v) :: rest => by
    intro t ht
    rw [renderFields] at ht
    rcases List.mem_cons.1 ht with rfl | ht
    · rw [oneLine_append, oneLine_append]
      exact ⟨⟨oneLine_quote k, by decide⟩, oneLine_render v⟩
    · exact oneLine_renderFields rest t ht

end

end Json

end ViewTree
