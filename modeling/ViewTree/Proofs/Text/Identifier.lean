import Mathlib.Data.List.Basic
import ViewTree.Text.Basic
import ViewTree.Text.Identifier
import ViewTree.Text.Uppercase

/-!
# Identifiers

What the names of an app are made of keeps them identifiers: cleaning a text makes
one, digits and identifiers can follow one, and so can a capital letter stand at its
start. Decimal numbers tell numbers apart.
-/

namespace ViewTree.Text

/-! ## Digits -/

theorem toList_decimal (n : Nat) : (decimal n).toList = Nat.toDigits 10 n := by
  unfold decimal
  exact String.toList_ofList

theorem decimal_injective {m n : Nat} (h : decimal m = decimal n) : m = n := by
  have hd : Nat.toDigits 10 m = Nat.toDigits 10 n := by
    rw [← toList_decimal, h, toList_decimal]
  have hm := @Nat.ofDigitChars_ten_toDigits m
  rw [hd, Nat.ofDigitChars_ten_toDigits] at hm
  exact hm.symm

theorem isDigit_of_mem_decimal {n : Nat} {c : Char} (h : c ∈ (decimal n).toList) : isDigit c = true := by
  rw [toList_decimal] at h
  have hc := Nat.isDigit_of_mem_toDigits (by omega) (by omega) h
  simpa [isDigit, Char.isDigit, Char.le_def] using hc

/-! ## Texts that can go on in an identifier -/

/-- Every character can stand in an identifier after its first. -/
def continues (s : String) : Bool := s.toList.all continuesIdentifier

theorem continues_append (s t : String) : continues (s ++ t) = (continues s && continues t) := by
  simp [continues]

theorem continues_of_isIdentifier {s : String} (h : isIdentifier s = true) : continues s = true := by
  unfold isIdentifier isIdentifierChars at h
  unfold continues
  split at h
  · cases h
  · rename_i c cs hs
    rw [hs]
    simp only [Bool.and_eq_true] at h
    simp [continuesIdentifier, h.1, h.2]

theorem continues_decimal (n : Nat) : continues (decimal n) = true := by
  simp only [continues, List.all_eq_true]
  intro c hc
  simp [continuesIdentifier, isDigit_of_mem_decimal hc]

theorem isIdentifier_append {s t : String} (hs : isIdentifier s = true) (ht : continues t = true) :
    isIdentifier (s ++ t) = true := by
  unfold isIdentifier at hs ⊢
  rw [String.toList_append]
  cases hl : s.toList with
  | nil => simp [hl, isIdentifierChars] at hs
  | cons c cs =>
    rw [hl] at hs
    unfold continues at ht
    simp only [isIdentifierChars, List.cons_append, List.all_append, Bool.and_eq_true] at hs ⊢
    exact ⟨hs.1, hs.2, ht⟩

theorem continues_join {separator : String} (hsep : continues separator = true) (ts : List String)
    (h : ∀ t ∈ ts, continues t = true) : continues (join separator ts) = true := by
  induction ts with
  | nil => rfl
  | cons t ts ih =>
    cases ts with
    | nil => exact h t (by simp)
    | cons u rest =>
      have hrest := ih (fun v hv => h v (by simp [hv]))
      simp [join, continues_append, h t (by simp), hsep, hrest]

/-! ## Blanks -/

theorem isSpace_bounds {c : Char} (h : isSpace c = true) : c.toNat ≤ 32 ∨ 133 ≤ c.toNat := by
  simp only [isSpace, Bool.or_eq_true, Bool.and_eq_true, decide_eq_true_eq, beq_iff_eq] at h
  omega

theorem startsIdentifier_bounds {c : Char} (h : startsIdentifier c = true) : 36 ≤ c.toNat ∧ c.toNat ≤ 122 := by
  simp only [startsIdentifier, isUpper, isLower, Bool.or_eq_true, Bool.and_eq_true, decide_eq_true_eq,
    beq_iff_eq, Char.le_def, UInt32.le_iff_toNat_le] at h
  rcases h with ((h | h) | rfl) | rfl
  · change 65 ≤ c.toNat ∧ c.toNat ≤ 90 at h
    omega
  · change 97 ≤ c.toNat ∧ c.toNat ≤ 122 at h
    omega
  · decide
  · decide

theorem isSpace_of_starts {c : Char} (h : startsIdentifier c = true) : isSpace c = false := by
  rw [Bool.eq_false_iff]
  intro hspace
  have hlow := startsIdentifier_bounds h
  have hhigh := isSpace_bounds hspace
  omega

/-! ## Cleaning -/

/-- Collapsing leaves only characters to keep, and marks. -/
theorem mem_collapse {keep : Char → Bool} {mark : Char} {inRun : Bool} {cs : List Char} {c : Char}
    (h : c ∈ collapse keep mark inRun cs) : keep c = true ∨ c = mark := by
  induction cs generalizing inRun with
  | nil => simp [collapse] at h
  | cons d cs ih =>
    unfold collapse at h
    split at h
    · rename_i hd
      rcases List.mem_cons.1 h with rfl | h
      · exact .inl hd
      · exact ih h
    · split at h
      · exact ih h
      · rcases List.mem_cons.1 h with rfl | h
        · exact .inr rfl
        · exact ih h

theorem collapse_continues (inRun : Bool) (cs : List Char) :
    ∀ c ∈ collapse continuesIdentifier '_' inRun cs, continuesIdentifier c = true := by
  intro c hc
  rcases mem_collapse hc with h | rfl
  · exact h
  · decide

/-- Cleaning a text makes it an identifier. -/
theorem isIdentifier_toIdentifier (name : String) : isIdentifier (toIdentifier name) = true := by
  unfold toIdentifier
  split
  · assumption
  · have hall := collapse_continues false (dropAroundWhile isSpace name.toList)
    split
    · decide
    · rename_i c cs hc
      rw [hc] at hall
      have hcs : cs.all continuesIdentifier = true := by
        rw [List.all_eq_true]
        exact fun d hd => hall d (by simp [hd])
      have hfirst := hall c (by simp)
      unfold isIdentifier
      rw [String.toList_ofList]
      split
      · simp [isIdentifierChars, hfirst, hcs, startsIdentifier]
      · rename_i hd
        simp only [continuesIdentifier, hd, Bool.or_false] at hfirst
        simp [isIdentifierChars, hfirst, hcs]

/-! ## Capitals -/

theorem toNat_of_startsIdentifier {c : Char} (h : startsIdentifier c = true) : c.toNat < 128 := by
  simp only [startsIdentifier, isUpper, isLower, Bool.or_eq_true, Bool.and_eq_true, decide_eq_true_eq,
    beq_iff_eq, Char.le_def, UInt32.le_iff_toNat_le] at h
  rcases h with ((h | h) | rfl) | rfl
  · exact Nat.lt_of_le_of_lt h.2 (by decide)
  · exact Nat.lt_of_le_of_lt h.2 (by decide)
  · decide
  · decide

theorem upperChar_ascii : ∀ n : Fin 128, startsIdentifier (Char.ofNat n) = true →
    (upperChar (Char.ofNat n)).length = 1 ∧
      (upperChar (Char.ofNat n)).all (fun d => startsIdentifier d && !isLower d) = true := by
  decide +kernel

/-- The upper case of what can start an identifier is one character that can, too, and is
no lower-case letter. -/
theorem upperChar_of_startsIdentifier {c : Char} (h : startsIdentifier c = true) :
    ∃ d, upperChar c = [d] ∧ startsIdentifier d = true ∧ isLower d = false := by
  have ha := upperChar_ascii ⟨c.toNat, toNat_of_startsIdentifier h⟩
  simp only [Char.ofNat_toNat] at ha
  obtain ⟨hlen, hall⟩ := ha h
  obtain ⟨d, hd⟩ := List.length_eq_one_iff.1 hlen
  refine ⟨d, hd, ?_⟩
  simpa [hd] using hall

theorem isIdentifier_capitalize {s : String} (h : isIdentifier s = true) : isIdentifier (capitalize s) = true := by
  unfold isIdentifier at h
  unfold capitalize
  cases hs : s.toList with
  | nil => simp [hs, isIdentifierChars] at h
  | cons c cs =>
    rw [hs] at h
    simp only [isIdentifierChars, Bool.and_eq_true] at h
    obtain ⟨d, hd, hstart, -⟩ := upperChar_of_startsIdentifier h.1
    simp [isIdentifier, hd, isIdentifierChars, hstart, h.2]

/-- A capitalized identifier does not start with a lower-case letter, and it is as long as
before. -/
theorem toList_capitalize {s : String} (h : isIdentifier s = true) :
    ∃ d cs, (capitalize s).toList = d :: cs ∧ isLower d = false ∧ s.toList.length = cs.length + 1 := by
  unfold isIdentifier at h
  unfold capitalize
  cases hs : s.toList with
  | nil => simp [hs, isIdentifierChars] at h
  | cons c cs =>
    rw [hs] at h
    simp only [isIdentifierChars, Bool.and_eq_true] at h
    obtain ⟨d, hd, -, hlower⟩ := upperChar_of_startsIdentifier h.1
    exact ⟨d, cs, by simp [hd], hlower, rfl⟩

end ViewTree.Text
