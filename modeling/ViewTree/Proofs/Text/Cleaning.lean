import ViewTree.Proofs.Text.Blank
import ViewTree.Proofs.Text.Identifier

/-!
# Cleaned names

Cleaning a name gives one of a fixed shape, and a name of that shape is left as it is
(`cleaning_normalises`). The shape of an identifier is `isIdentifier`; that of a stem is
`Hyphenated`: groups of lower-case letters and digits, joined by single hyphens. Of the
lower-casing in between only its ASCII part matters (`LowersAscii`), so what is shown of
stems holds for the whole Unicode mapping as well as for the part of it that stems can tell.
-/

namespace ViewTree.Text

/-! ## Stems -/

/-- Groups of lower-case letters and digits, none of them empty, joined by single hyphens. -/
def Hyphenated (cs : List Char) : Prop :=
  ∃ groups : List (List Char), groups ≠ [] ∧ (∀ g ∈ groups, g ≠ [] ∧ ∀ c ∈ g, isStemChar c = true) ∧
    cs = ['-'].intercalate groups

/-- Such groups, character by character. -/
inductive IsStem : List Char → Prop
  | single {c : Char} : isStemChar c = true → IsStem [c]
  | cons {c : Char} {cs : List Char} : isStemChar c = true → IsStem cs → IsStem (c :: cs)
  | hyphen {c : Char} {cs : List Char} : isStemChar c = true → IsStem cs → IsStem (c :: '-' :: cs)

namespace IsStem

theorem ne_nil {cs : List Char} (h : IsStem cs) : cs ≠ [] := by
  cases h <;> exact List.cons_ne_nil _ _

theorem chars {cs : List Char} (h : IsStem cs) : ∀ c ∈ cs, isStemChar c = true ∨ c = '-' := by
  induction h with
  | single hc => simpa using .inl hc
  | cons hc _ ih => simpa [hc] using ih
  | hyphen hc _ ih => simpa [hc] using ih

theorem hyphenated {cs : List Char} (h : IsStem cs) : Hyphenated cs := by
  induction h with
  | @single c hc => exact ⟨[[c]], by simp, by simpa using hc, by simp⟩
  | @cons c cs hc _ ih =>
    obtain ⟨groups, hne, hall, rfl⟩ := ih
    obtain ⟨g, gs, rfl⟩ := List.exists_cons_of_ne_nil hne
    simp only [List.forall_mem_cons] at hall
    refine ⟨(c :: g) :: gs, by simp, ?_, by rw [List.intercalate_cons_cons_left]⟩
    simp only [List.forall_mem_cons]
    exact ⟨⟨by simp, hc, hall.1.2⟩, hall.2⟩
  | @hyphen c cs hc _ ih =>
    obtain ⟨groups, hne, hall, rfl⟩ := ih
    refine ⟨[c] :: groups, by simp, ?_, by rw [List.intercalate_cons_of_ne_nil hne]; rfl⟩
    simp only [List.forall_mem_cons]
    exact ⟨⟨by simp, hc, by simp⟩, hall⟩

end IsStem

/-! ## Collapsing and trimming -/

/-- What is dropped at the end, character by character from the front. -/
theorem dropEndWhile_cons (p : Char → Bool) (c : Char) (cs : List Char) :
    dropEndWhile p (c :: cs) =
      if dropEndWhile p cs = [] then (if p c then [] else [c]) else c :: dropEndWhile p cs := by
  unfold dropEndWhile
  rw [List.reverse_cons, List.dropWhile_append]
  cases h : cs.reverse.dropWhile p with
  | nil => cases hc : p c <;> simp [hc]
  | cons d ds => simp

/-- A character to keep is not the mark. -/
theorem beq_mark {keep : Char → Bool} {mark c : Char} (hmark : keep mark = false) (hc : keep c = true) :
    (c == mark) = false := by
  rw [beq_eq_false_iff_ne]
  rintro rfl
  rw [hc] at hmark
  cases hmark

/-- The mark at the start is dropped with the run that it stands for. -/
theorem dropWhile_collapse {keep : Char → Bool} {mark : Char} (hmark : keep mark = false) (inRun : Bool)
    (cs : List Char) : (collapse keep mark inRun cs).dropWhile (· == mark) = collapse keep mark true cs := by
  induction cs generalizing inRun with
  | nil => rfl
  | cons c cs ih =>
    cases hc : keep c with
    | true => simp [collapse, hc, beq_mark hmark hc]
    | false =>
      cases inRun with
      | true => simpa [collapse, hc] using ih true
      | false => simpa [collapse, hc] using ih true

theorem beq_hyphen {c : Char} (hc : isStemChar c = true) : (c == '-') = false := beq_mark (by decide) hc

/-- A collapsed text without its last mark: nothing, a stem, or the mark of a run at the
start and a stem. -/
theorem dropEndWhile_collapse (inRun : Bool) (cs : List Char) :
    let rest := dropEndWhile (· == '-') (collapse isStemChar '-' inRun cs)
    rest = [] ∨ IsStem rest ∨ inRun = false ∧ ∃ stem, rest = '-' :: stem ∧ IsStem stem := by
  induction cs generalizing inRun with
  | nil => exact .inl rfl
  | cons c cs ih =>
    dsimp only at ih ⊢
    cases hc : isStemChar c with
    | true =>
      rw [collapse, if_pos hc, dropEndWhile_cons]
      rcases ih false with hnil | hstem | ⟨-, stem, hrest, hstem⟩
      · rw [if_pos hnil, beq_hyphen hc]
        exact .inr (.inl (.single hc))
      · rw [if_neg hstem.ne_nil]
        exact .inr (.inl (.cons hc hstem))
      · rw [hrest, if_neg (List.cons_ne_nil _ _)]
        exact .inr (.inl (.hyphen hc hstem))
    | false =>
      rw [collapse, if_neg (by simp [hc])]
      cases inRun with
      | true => exact ih true
      | false =>
        rw [if_neg (by simp), dropEndWhile_cons]
        rcases ih true with hnil | hstem | ⟨hfalse, -⟩
        · rw [if_pos hnil]
          exact .inl rfl
        · rw [if_neg hstem.ne_nil]
          exact .inr (.inr ⟨rfl, _, rfl, hstem⟩)
        · cases hfalse

/-- Collapsing and trimming leaves a stem, or nothing. -/
theorem dropAroundWhile_collapse (cs : List Char) :
    let rest := dropAroundWhile (· == '-') (collapse isStemChar '-' false cs)
    rest = [] ∨ IsStem rest := by
  dsimp only
  rw [dropAroundWhile, dropWhile_collapse (by decide)]
  rcases dropEndWhile_collapse true cs with hnil | hstem | ⟨hfalse, -⟩
  · exact .inl hnil
  · exact .inr hstem
  · cases hfalse

/-! ## Stems are left as they are -/

namespace IsStem

theorem collapse_eq {cs : List Char} (h : IsStem cs) (inRun : Bool) : collapse isStemChar '-' inRun cs = cs := by
  induction h generalizing inRun with
  | single hc => simp [collapse, hc]
  | cons hc _ ih => simp [collapse, hc, ih]
  | hyphen hc _ ih =>
    have hhyphen : isStemChar '-' = false := by decide
    simp [collapse, hc, hhyphen, ih]

theorem dropEndWhile_eq {cs : List Char} (h : IsStem cs) : dropEndWhile (· == '-') cs = cs := by
  induction h with
  | single hc => simp [dropEndWhile, beq_hyphen hc]
  | cons hc hcs ih => rw [dropEndWhile_cons, ih, if_neg hcs.ne_nil]
  | hyphen hc hcs ih =>
    rw [dropEndWhile_cons, dropEndWhile_cons, ih, if_neg hcs.ne_nil, if_neg (List.cons_ne_nil _ _)]

theorem dropAroundWhile_eq {cs : List Char} (h : IsStem cs) : dropAroundWhile (· == '-') cs = cs := by
  have hstart : cs.dropWhile (· == '-') = cs := by
    cases h with
    | single hc => simp [beq_hyphen hc]
    | cons hc _ => simp [beq_hyphen hc]
    | hyphen hc _ => simp [beq_hyphen hc]
  rw [dropAroundWhile, hstart, h.dropEndWhile_eq]

end IsStem

theorem splitCamel_of_not_upper {cs : List Char} (h : ∀ c ∈ cs, isUpper c = false) : splitCamel cs = cs := by
  fun_induction splitCamel cs with
  | case1 => rfl
  | case2 c => rfl
  | case3 c d rest hupper ih => simp [h d (by simp)] at hupper
  | case4 c d rest _ ih => rw [ih fun e he => h e (List.mem_cons_of_mem c he)]

/-! ## Lower case -/

/-- A lower-casing of texts that maps ASCII as usual. -/
def LowersAscii (lower : List Char → List Char) : Prop :=
  ∀ cs : List Char, (∀ c ∈ cs, c.toNat < 128) → lower cs = cs.map Char.toLower

/-- The stem of a name, with a lower-casing for texts. -/
def kebabWith (lower : List Char → List Char) (name : String) : String :=
  match dropAroundWhile (· == '-') (collapse isStemChar '-' false (lower (splitCamel name.toList))) with
  | [] => "node"
  | c :: cs => String.ofList (c :: cs)

theorem toKebab_eq (name : String) : toKebab name = kebabWith (·.flatMap lowerStem) name := rfl

theorem lowerStem_ascii : ∀ n : Fin 128, lowerStem (Char.ofNat n) = [(Char.ofNat n).toLower] := by
  decide +kernel

/-- What stems can tell of the lower case agrees with it in ASCII. -/
theorem lowersAscii_lowerStem : LowersAscii (·.flatMap lowerStem) := by
  intro cs hcs
  rw [List.map_eq_flatMap]
  refine List.flatMap_congr fun c hc => ?_
  simpa using lowerStem_ascii ⟨c.toNat, hcs c hc⟩

/-- What can stand in a stem is its own lower case. -/
theorem stem_ascii : ∀ n : Fin 128, isStemChar (Char.ofNat n) = true ∨ Char.ofNat n = '-' →
    isUpper (Char.ofNat n) = false ∧ (Char.ofNat n).toLower = Char.ofNat n := by
  decide +kernel

theorem toNat_of_isStemChar {c : Char} (h : isStemChar c = true) : c.toNat < 128 := by
  simp only [isStemChar, isLower, isDigit, Bool.or_eq_true, Bool.and_eq_true, decide_eq_true_eq, Char.le_def,
    UInt32.le_iff_toNat_le] at h
  rcases h with h | h
  · exact Nat.lt_of_le_of_lt h.2 (by decide)
  · exact Nat.lt_of_le_of_lt h.2 (by decide)

theorem IsStem.toNat_lt {cs : List Char} (h : IsStem cs) : ∀ c ∈ cs, c.toNat < 128 := by
  intro c hc
  rcases h.chars c hc with hstem | rfl
  · exact toNat_of_isStemChar hstem
  · decide

theorem IsStem.lower_case {cs : List Char} (h : IsStem cs) {c : Char} (hc : c ∈ cs) :
    isUpper c = false ∧ c.toLower = c := by
  simpa using stem_ascii ⟨c.toNat, h.toNat_lt c hc⟩ (by simpa using h.chars c hc)

/-- Whatever the lower-casing, a cleaned name is a stem. -/
theorem isStem_kebabWith (lower : List Char → List Char) (name : String) : IsStem (kebabWith lower name).toList := by
  have hrest := dropAroundWhile_collapse (lower (splitCamel name.toList))
  dsimp only at hrest
  unfold kebabWith
  split
  · exact .cons (by decide) (.cons (by decide) (.cons (by decide) (.single (by decide))))
  · rename_i c cs hcs
    rw [hcs] at hrest
    rw [String.toList_ofList]
    exact hrest.resolve_left (List.cons_ne_nil c cs)

/-- A name that is a stem is left as it is. -/
theorem kebabWith_of_isStem {lower : List Char → List Char} (hlower : LowersAscii lower) {name : String}
    (h : IsStem name.toList) : kebabWith lower name = name := by
  have hsplit : splitCamel name.toList = name.toList := splitCamel_of_not_upper fun c hc => (h.lower_case hc).1
  have hcase : lower name.toList = name.toList := by
    rw [hlower _ h.toNat_lt, List.map_congr_left fun c hc => (h.lower_case hc).2, List.map_id']
  unfold kebabWith
  rw [hsplit, hcase, h.collapse_eq, h.dropAroundWhile_eq]
  split
  · rename_i hnil
    exact absurd hnil h.ne_nil
  · rename_i c cs hcs
    rw [← hcs, String.ofList_toList]

theorem isStem_toKebab (name : String) : IsStem (toKebab name).toList := isStem_kebabWith _ name

theorem toKebab_of_isStem {name : String} (h : IsStem name.toList) : toKebab name = name :=
  (toKebab_eq name).trans (kebabWith_of_isStem lowersAscii_lowerStem h)

example : toKebab "-2ndPrimaryButton \u0130d_" = "2nd-primary-button-i-d" := by decide

/-! ## Both cleanings -/

/-- A name is left as it is exactly if it is an identifier. -/
theorem toIdentifier_eq_iff {name : String} : toIdentifier name = name ↔ isIdentifier name = true := by
  constructor
  · intro h
    rw [← h]
    exact isIdentifier_toIdentifier name
  · intro h
    rw [toIdentifier, if_pos h]

/-- Cleaning is normalising: an identifier or a stem comes out of any name, and cleaning it
once more changes nothing. -/
theorem cleaning_normalises (name : String) :
    (isIdentifier (toIdentifier name) = true ∧ (toIdentifier name = name ↔ isIdentifier name = true) ∧
      toIdentifier (toIdentifier name) = toIdentifier name) ∧
    (Hyphenated (toKebab name).toList ∧ toKebab (toKebab name) = toKebab name) ∧
    ∀ lower, LowersAscii lower → Hyphenated (kebabWith lower name).toList ∧
      kebabWith lower (kebabWith lower name) = kebabWith lower name := by
  refine ⟨⟨isIdentifier_toIdentifier name, toIdentifier_eq_iff, ?_⟩, ⟨?_, ?_⟩, fun lower hlower => ⟨?_, ?_⟩⟩
  · exact toIdentifier_eq_iff.2 (isIdentifier_toIdentifier name)
  · exact (isStem_toKebab name).hyphenated
  · exact toKebab_of_isStem (isStem_toKebab name)
  · exact (isStem_kebabWith lower name).hyphenated
  · exact kebabWith_of_isStem hlower (isStem_kebabWith lower name)

/-- The part of the lower case that stems can tell is one that maps ASCII as usual. -/
theorem cleaning_normalises_lowerStem :
    LowersAscii (·.flatMap lowerStem) ∧ isIdentifier "2nd PrimaryButton" = false ∧
      Hyphenated (kebabWith (·.flatMap lowerStem) "2nd PrimaryButton").toList ∧
      toIdentifier "2nd PrimaryButton" ≠ "2nd PrimaryButton" := by
  obtain ⟨⟨-, hkept, -⟩, -, hstem⟩ := cleaning_normalises "2nd PrimaryButton"
  have hclean : isIdentifier "2nd PrimaryButton" = false := by decide
  exact ⟨lowersAscii_lowerStem, hclean, (hstem _ lowersAscii_lowerStem).1, fun h => by simp [hkept.1 h] at hclean⟩

end ViewTree.Text
