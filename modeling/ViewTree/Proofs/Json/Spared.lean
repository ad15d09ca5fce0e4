import Mathlib.Data.Nat.Init
import ViewTree.Json.Reader
import ViewTree.Proofs.Text.Divided

/-!
# What readers leave alone

No reader takes a zero character: it is no blank, no digit and no part of a word, and a
string holds it as an escape only. So each reader leaves every zero character to what
follows, and the text of a document has none (`parse_zero`).
-/

namespace ViewTree

theorem exists_of_bind_ok {ε α β : Type} {x : Except ε α} {f : α → Except ε β} {b : β} (h : x >>= f = .ok b) :
    ∃ a, x = .ok a ∧ f a = .ok b := by
  cases x with
  | error e => cases h
  | ok a => exact ⟨a, rfl, h⟩

theorem exists_of_map_ok {ε α β : Type} {x : Except ε α} {f : α → β} {b : β} (h : x.map f = .ok b) :
    ∃ a, x = .ok a ∧ f a = b := by
  cases x with
  | error e => cases h
  | ok a => exact ⟨a, rfl, Except.ok.inj h⟩

namespace Json

open Text (zero)

/-- A zero character in the text is still in what is left of it. -/
def Spares (cs rest : List Char) : Prop := zero ∈ cs → zero ∈ rest

namespace Spares

theorem refl (cs : List Char) : Spares cs cs := id

theorem trans {a b c : List Char} (h : Spares a b) (h' : Spares b c) : Spares a c := fun ha => h' (h ha)

theorem cons {c : Char} (hc : c ≠ zero) {cs rest : List Char} (h : Spares cs rest) : Spares (c :: cs) rest := by
  intro hmem
  rcases List.mem_cons.1 hmem with hzero | hmem
  · exact absurd hzero.symm hc
  · exact h hmem

end Spares

theorem skipSpace_spares (cs : List Char) : Spares cs (skipSpace cs) := by
  unfold skipSpace
  induction cs with
  | nil => exact Spares.refl []
  | cons c cs ih =>
    rw [List.dropWhile_cons]
    split
    · rename_i hc
      refine Spares.cons ?_ ih
      rintro rfl
      exact absurd hc (by decide)
    · exact Spares.refl _

/-- What is left after a first character that is not zero and after what else is taken. -/
theorem spares_of_skipSpace {cs rest : List Char} {c : Char} {tail : List Char} (h : skipSpace cs = c :: tail)
    (hc : c ≠ zero) (hrest : Spares tail rest) : Spares cs rest :=
  (skipSpace_spares cs).trans (h ▸ Spares.cons hc hrest)

/-! ## Numbers -/

theorem digit?_zero : digit? zero = none := by decide

theorem takeDigits_spares (cs : List Char) : Spares cs (takeDigits cs).2 := by
  induction cs with
  | nil => exact Spares.refl []
  | cons c cs ih =>
    rw [takeDigits]
    split
    · rename_i d hd
      refine Spares.cons ?_ ih
      rintro rfl
      simp [digit?_zero] at hd
    · exact Spares.refl _

theorem spares_of_takeDigits {cs rest : List Char} {ds : List Nat} (h : takeDigits cs = (ds, rest)) :
    Spares cs rest := by
  have hspares := takeDigits_spares cs
  rwa [h] at hspares

theorem doubleOf_rest {negative : Bool} {significand : Nat} {exponent : Int} {cs rest : List Char} {n : Number}
    (h : doubleOf negative significand exponent cs = .ok (n, rest)) : rest = cs := by
  unfold doubleOf at h
  split at h
  · cases h
    rfl
  · cases h

theorem readExponent_spares {negative : Bool} {significand : Nat} {scale : Int} {cs rest : List Char} {n : Number}
    (h : readExponent negative significand scale cs = .ok (n, rest)) : Spares cs rest := by
  unfold readExponent at h
  split at h
  rename_i below digits hsign
  have hspares : Spares cs digits := by
    split at hsign
    · cases hsign
      exact Spares.cons (by decide) (Spares.refl _)
    · cases hsign
      exact Spares.cons (by decide) (Spares.refl _)
    · cases hsign
      exact Spares.refl _
  refine hspares.trans ?_
  split at h
  · cases h
  · split at h
    · cases h
    · rename_i htake
      split at h
      · exact doubleOf_rest h ▸ spares_of_takeDigits htake
      · split at h
        · cases h
        · cases h
          exact spares_of_takeDigits htake

theorem readScaled_spares {negative : Bool} {significand : Nat} {scale : Int} {cs rest : List Char} {n : Number}
    (h : readScaled negative significand scale cs = .ok (n, rest)) : Spares cs rest := by
  unfold readScaled at h
  split at h
  · exact Spares.cons (by decide) (readExponent_spares h)
  · exact Spares.cons (by decide) (readExponent_spares h)
  · exact doubleOf_rest h ▸ Spares.refl cs

theorem readFraction_spares {negative : Bool} {significand scale : Nat} {cs rest : List Char} {n : Number}
    (h : readFraction negative significand scale cs = .ok (n, rest)) : Spares cs rest := by
  unfold readFraction at h
  split at h
  · cases h
  · cases h
  · rename_i htake
    exact (spares_of_takeDigits htake).trans (readScaled_spares h)

theorem readNumber_spares {negative : Bool} {cs rest : List Char} {n : Number}
    (h : readNumber negative cs = .ok (n, rest)) : Spares cs rest := by
  unfold readNumber at h
  split at h
  · cases h
  · split at h
    · cases h
    · cases h
    · rename_i htake
      refine (spares_of_takeDigits htake).trans ?_
      dsimp only at h
      split at h
      · exact Spares.cons (by decide) (readFraction_spares h)
      · split at h
        · split at h
          · cases h
            exact Spares.refl _
          · split at h
            · cases h
              exact Spares.refl _
            · cases h
              exact Spares.refl _
        · exact readScaled_spares h

/-! ## Strings -/

theorem hexValue?_zero : hexValue? zero = none := by decide

theorem ne_zero_of_hexValue? {c : Char} {n : Nat} (h : hexValue? c = some n) : c ≠ zero := by
  rintro rfl
  simp [hexValue?_zero] at h

theorem readHex_spares {cs rest : List Char} {n : Nat} (h : readHex cs = .ok (n, rest)) : Spares cs rest := by
  unfold readHex at h
  split at h
  · cases h
  · split at h
    · split at h
      · rename_i a b c d tail m hquad
        cases h
        simp only [hexQuad?, Option.pure_def, Option.bind_eq_bind, Option.bind_eq_some_iff] at hquad
        obtain ⟨_, ha, _, hb, _, hc, _, hd, -⟩ := hquad
        exact Spares.cons (ne_zero_of_hexValue? ha) (Spares.cons (ne_zero_of_hexValue? hb)
          (Spares.cons (ne_zero_of_hexValue? hc) (Spares.cons (ne_zero_of_hexValue? hd) (Spares.refl _))))
      · cases h
    · cases h

theorem readLowSurrogate_spares {high : Nat} {cs rest : List Char} {c : Char}
    (h : readLowSurrogate high cs = .ok (c, rest)) : Spares cs rest := by
  unfold readLowSurrogate at h
  split at h
  · cases h
  · cases h
  · obtain ⟨⟨low, tail⟩, hhex, h⟩ := exists_of_bind_ok h
    dsimp only at h
    split at h
    · obtain ⟨-, rfl⟩ := Prod.mk.inj (Except.ok.inj h)
      exact Spares.cons (by decide) (Spares.cons (by decide) (readHex_spares hhex))
    · cases h
  · cases h
  · cases h

theorem readUnicode_spares {cs rest : List Char} {c : Char} (h : readUnicode cs = .ok (c, rest)) : Spares cs rest := by
  unfold readUnicode at h
  obtain ⟨⟨n, tail⟩, hhex, h⟩ := exists_of_bind_ok h
  refine (readHex_spares hhex).trans ?_
  dsimp only at h
  split at h
  · cases h
  · split at h
    · exact readLowSurrogate_spares h
    · obtain ⟨-, rfl⟩ := Prod.mk.inj (Except.ok.inj h)
      exact Spares.refl _

theorem readEscape_spares {cs rest : List Char} {c : Char} (h : readEscape cs = .ok (c, rest)) : Spares cs rest := by
  unfold readEscape at h
  split at h
  case h_10 => exact Spares.cons (by decide) (readUnicode_spares h)
  all_goals
    cases h
    try exact Spares.cons (by decide) (Spares.refl _)

theorem readString_spares {steps : Nat} {taken cs rest : List Char} {s : String}
    (h : readString steps taken cs = .ok (s, rest)) : Spares cs rest := by
  fun_induction readString steps taken cs with
  | case1 => cases h
  | case2 => cases h
  | case3 steps taken cs =>
    cases h
    exact Spares.cons (by decide) (Spares.refl _)
  | case4 steps taken cs d tail hescape hquote ih =>
    exact Spares.cons (by decide) ((readEscape_spares hescape).trans (ih h))
  | case5 => cases h
  | case6 => cases h
  | case7 steps taken c cs hquote hslash hcontrol ih =>
    refine Spares.cons ?_ (ih h)
    rintro rfl
    exact hcontrol (by decide)

/-! ## Values -/

theorem readWord_spares {word cs rest : List Char} {u : Unit} (hword : zero ∉ word)
    (h : readWord word cs = .ok (u, rest)) : Spares cs rest := by
  fun_induction readWord word cs with
  | case1 =>
    cases h
    exact Spares.refl _
  | case2 => cases h
  | case3 w ws cs ih =>
    rw [List.mem_cons, not_or] at hword
    exact Spares.cons (Ne.symm hword.1) (ih hword.2 h)
  | case4 => cases h

/-- What a place in an array or object is followed by. -/
def Next.text : Next → List Char
  | .close rest => rest
  | .entry start => start

theorem nextItem_spares {first : Bool} {cs : List Char} {next : Next} (h : nextItem first cs = .ok next) :
    Spares cs next.text := by
  unfold nextItem at h
  split at h
  · cases h
  · rename_i hskip
    cases h
    exact spares_of_skipSpace hskip (by decide) (Spares.refl _)
  · rename_i c tail _ hskip
    split at h
    · cases h
      exact hskip ▸ skipSpace_spares cs
    · split at h
      · rename_i hcomma
        split at h
        · cases h
        · cases h
        · cases h
          exact spares_of_skipSpace hskip (by rw [hcomma]; decide) (skipSpace_spares tail)
      · cases h

theorem nextField_spares {first : Bool} {cs : List Char} {next : Next} (h : nextField first cs = .ok next) :
    Spares cs next.text := by
  unfold nextField at h
  split at h
  · cases h
  · rename_i hskip
    cases h
    exact spares_of_skipSpace hskip (by decide) (Spares.refl _)
  · rename_i c tail _ hskip
    split at h
    · split at h
      · rename_i hquote
        cases h
        exact spares_of_skipSpace hskip (by rw [hquote]; decide) (Spares.refl _)
      · cases h
    · split at h
      · rename_i hcomma
        split at h
        · cases h
        · rename_i hname
          cases h
          exact spares_of_skipSpace hskip (by rw [hcomma]; decide)
            (spares_of_skipSpace hname (by decide) (Spares.refl _))
        · cases h
        · cases h
      · cases h

theorem readColon_spares {cs rest : List Char} {u : Unit} (h : readColon cs = .ok (u, rest)) : Spares cs rest := by
  unfold readColon at h
  split at h
  · cases h
  · rename_i hskip
    cases h
    exact spares_of_skipSpace hskip (by decide) (Spares.refl _)
  · cases h

section

variable {item : List Char → Reading Json}
  (hitem : ∀ {cs rest : List Char} {v : Json}, item cs = .ok (v, rest) → Spares cs rest)

include hitem

theorem readItems_spares {steps : Nat} {taken : List Json} {cs rest : List Char} {v : Json}
    (h : readItems item steps taken cs = .ok (v, rest)) : Spares cs rest := by
  fun_induction readItems item steps taken cs with
  | case1 => cases h
  | case2 => cases h
  | case3 steps taken cs tail hnext =>
    cases h
    exact nextItem_spares hnext
  | case4 => cases h
  | case5 steps taken cs start hnext v tail hread ih =>
    exact (nextItem_spares hnext).trans ((hitem hread).trans (ih h))

theorem readFields_spares {steps : Nat} {first : Bool} {taken : Keyed Json} {cs rest : List Char} {v : Json}
    (h : readFields item steps first taken cs = .ok (v, rest)) : Spares cs rest := by
  induction steps generalizing first taken cs with
  | zero => cases h
  | succ steps ih =>
    rw [readFields] at h
    split at h
    · cases h
    · rename_i hnext
      cases h
      exact nextField_spares hnext
    · rename_i start hnext
      obtain ⟨⟨name, afterName⟩, hname, h⟩ := exists_of_bind_ok h
      obtain ⟨⟨_, afterColon⟩, hcolon, h⟩ := exists_of_bind_ok h
      obtain ⟨⟨w, afterValue⟩, hvalue, h⟩ := exists_of_bind_ok h
      exact (nextField_spares hnext).trans ((readString_spares hname).trans
        ((readColon_spares hcolon).trans ((hitem hvalue).trans (ih h))))

end

theorem readValue_spares {steps depth : Nat} {cs rest : List Char} {v : Json}
    (h : readValue steps depth cs = .ok (v, rest)) : Spares cs rest := by
  induction depth using Nat.strong_induction_on generalizing cs rest v with
  | _ depth ih =>
    revert h
    fun_cases readValue steps depth cs with
    | case1 | case8 | case10 | case12 => exact fun h => by cases h
    | case2 | case3 | case4 =>
      intro h
      rename_i hskip
      obtain ⟨_, hword, h⟩ := exists_of_map_ok h
      cases h
      exact spares_of_skipSpace hskip (by decide) (readWord_spares (by decide) hword)
    | case5 =>
      intro h
      rename_i hskip
      obtain ⟨_, hnumber, h⟩ := exists_of_map_ok h
      cases h
      exact spares_of_skipSpace hskip (by decide) (readNumber_spares hnumber)
    | case6 =>
      intro h
      rename_i hskip
      obtain ⟨_, hnumber, h⟩ := exists_of_map_ok h
      cases h
      exact (hskip ▸ skipSpace_spares cs).trans (readNumber_spares hnumber)
    | case7 =>
      intro h
      rename_i hskip
      obtain ⟨_, hstring, h⟩ := exists_of_map_ok h
      cases h
      exact spares_of_skipSpace hskip (by decide) (readString_spares hstring)
    | case9 =>
      intro h
      rename_i hskip
      exact spares_of_skipSpace hskip (by decide) (readItems_spares (ih _ (Nat.lt_succ_self _)) h)
    | case11 =>
      intro h
      rename_i hskip
      exact spares_of_skipSpace hskip (by decide) (readFields_spares (ih _ (Nat.lt_succ_self _)) h)

theorem readAll_spares {cs : List Char} {v : Json} (h : readAll cs = .ok v) : zero ∉ cs := by
  unfold readAll at h
  obtain ⟨⟨w, rest⟩, hvalue, h⟩ := exists_of_bind_ok h
  intro hmem
  have hskip := skipSpace_spares rest (readValue_spares hvalue hmem)
  dsimp only at h
  split at h
  · rename_i hnil
    rw [hnil] at hskip
    cases hskip
  · cases h

/-- The text of a document holds no zero character. -/
theorem parse_zero {source : String} {document : Json} (h : parse source = .ok document) : zero ∉ source.toList := by
  unfold parse at h
  split at h
  · rename_i hread
    exact readAll_spares hread
  · cases h

end Json

end ViewTree
