import Mathlib.Algebra.GroupWithZero.Nat
import Mathlib.Data.List.TakeWhile
import ViewTree.Pattern
import ViewTree.Proofs.Json.Spared
import ViewTree.Text.Identifier

/-!
# Reading binding patterns

A reader of the patterns that the emitted code binds names with: a name, properties between
braces, or items between brackets, with commas between them and perhaps a rest at the end. A
key is an identifier or a quoted string, and a quoted key needs another name after it. A text
is first cut into tokens, and reading takes at least as many characters, blanks aside, as the
tokens have (`ink_tokens`).
-/

namespace ViewTree

/-! ## Escapes -/

namespace Json

theorem readHex_suffix {cs rest : List Char} {n : Nat} (h : readHex cs = .ok (n, rest)) : rest <:+ cs := by
  unfold readHex at h
  split at h
  · cases h
  · split at h
    · rename_i a b c d more _
      split at h
      · cases h
        exact ⟨[a, b, c, d], rfl⟩
      · cases h
    · cases h

theorem readLowSurrogate_suffix {high : Nat} {cs rest : List Char} {c : Char}
    (h : readLowSurrogate high cs = .ok (c, rest)) : rest <:+ cs := by
  unfold readLowSurrogate at h
  split at h
  · cases h
  · cases h
  · rename_i more
    obtain ⟨⟨low, left⟩, hhex, hlow⟩ := exists_of_bind_ok h
    dsimp only at hlow
    split at hlow
    · obtain ⟨-, rfl⟩ := Prod.mk.inj (Except.ok.inj hlow)
      exact (readHex_suffix hhex).trans ⟨['\\', 'u'], rfl⟩
    · cases hlow
  · cases h
  · cases h

theorem readUnicode_suffix {cs rest : List Char} {c : Char} (h : readUnicode cs = .ok (c, rest)) : rest <:+ cs := by
  obtain ⟨⟨n, left⟩, hhex, hrest⟩ := exists_of_bind_ok h
  have hleft := readHex_suffix hhex
  dsimp only at hrest
  split at hrest
  · cases hrest
  · split at hrest
    · exact (readLowSurrogate_suffix hrest).trans hleft
    · obtain ⟨-, rfl⟩ := Prod.mk.inj (Except.ok.inj hrest)
      exact hleft

/-- An escape leaves an end of the characters. -/
theorem readEscape_suffix {cs rest : List Char} {c : Char} (h : readEscape cs = .ok (c, rest)) : rest <:+ cs := by
  unfold readEscape at h
  split at h
  case h_10 more => exact (readUnicode_suffix h).trans (List.suffix_cons _ _)
  case h_1 => cases h
  case h_11 => cases h
  all_goals
    cases h
    exact List.suffix_cons _ _

end Json

namespace Pattern

/-! ## Tokens -/

/-- A token of a pattern. -/
inductive Token where
  | word (s : String)
  /-- A quoted string. -/
  | text (s : String)
  /-- The dots before a rest. -/
  | dots
  | mark (c : Char)
deriving DecidableEq

/-- The characters that are tokens of their own. -/
def marks : List Char := [',', ':', '[', ']', '\x7b', '\x7d']

/-- The token that starts with a character and what follows it, or only what follows if
the character is blank. -/
def nextToken (c : Char) (cs : List Char) : Option (Option Token × List Char) :=
  if Text.isSpace c then some (none, cs)
  else if Text.startsIdentifier c then
    some (some (.word (String.ofList (c :: cs.takeWhile Text.continuesIdentifier))),
      cs.dropWhile Text.continuesIdentifier)
  else if c = '"' then
    match Json.readString cs.length [] cs with
    | .ok (s, rest) => some (some (.text s), rest)
    | .error _ => none
  else if c = '.' ∧ cs.take 2 = ['.', '.'] then some (some .dots, cs.drop 2)
  else if c ∈ marks then some (some (.mark c), cs)
  else none

/-- The tokens of a text. Each step takes a character, so as many steps as there are
characters are enough. -/
def tokens : (steps : Nat) → List Char → Option (List Token)
  | _, [] => some []
  | 0, _ :: _ => none
  | steps + 1, c :: cs =>
    (nextToken c cs).bind fun (found, rest) => (tokens steps rest).map (found.toList ++ ·)

/-! ## Patterns -/

/-- Reads a property. -/
def readField : List Token → Option ObjectField
  | [.word key] => some ⟨key, none, none⟩
  | [.word key, .mark ':', .word bound] => some ⟨key, some bound, none⟩
  | [.text key, .mark ':', .word bound] => some ⟨key, some bound, none⟩
  | _ => none

/-- Reads an item; nothing is a hole. -/
def readItem : List Token → Option (Option ArrayItem)
  | [] => some none
  | [.word n] => some (some ⟨n, none⟩)
  | _ => none

section
variable {α : Type} (one : List Token → Option α)

/-- Reads what follows the last comma: nothing, a rest, or one more part. -/
def readLast : List Token → Option (List α × Option String)
  | [] => some ([], none)
  | [.dots, .word r] => some ([], some r)
  | part => (one part).map fun a => ([a], none)

/-- Reads the parts between commas. -/
def readParts : List (List Token) → Option (List α × Option String)
  | [] => some ([], none)
  | [part] => readLast one part
  | part :: next :: parts =>
    match one part, readParts (next :: parts) with
    | some a, some (as, rest) => some (a :: as, rest)
    | _, _ => none

/-- Reads parts up to a closing mark at the end. -/
def readEnclosed (close : Char) (ts : List Token) : Option (List α × Option String) :=
  if ts.getLast? = some (.mark close) then readParts one (ts.dropLast.splitOn (.mark ',')) else none

end

/-- The pattern that tokens stand for. -/
def readTokens : List Token → Option Pattern
  | [.word n] => some (.name n)
  | .mark '\x7b' :: ts => (readEnclosed readField '\x7d' ts).map fun (fields, rest) => .object fields rest
  | .mark '[' :: ts => (readEnclosed readItem ']' ts).map fun (items, rest) => .array items rest
  | _ => none

/-- Reads a pattern. -/
def read (s : String) : Option Pattern := (tokens s.toList.length s.toList).bind readTokens

/-! ## What tokens take -/

/-- The number of characters that are not blank. -/
def ink (cs : List Char) : Nat := cs.countP fun c => !Text.isSpace c

theorem ink_append (a b : List Char) : ink (a ++ b) = ink a + ink b := List.countP_append

theorem ink_cons {c : Char} (h : Text.isSpace c = false) (cs : List Char) : ink (c :: cs) = ink cs + 1 := by
  rw [ink, List.countP_cons_of_pos (by simp [h])]
  rfl

theorem ink_le_of_suffix {a b : List Char} (h : a <:+ b) : ink a ≤ ink b := h.sublist.countP_le

/-- The characters that a token takes, blanks aside. -/
def Token.ink : Token → Nat
  | word s => Pattern.ink s.toList
  | text s => Pattern.ink s.toList + 2
  | dots => 3
  | mark _ => 1

/-- What a list of tokens takes. -/
def inkOf (ts : List Token) : Nat := (ts.map Token.ink).sum

theorem inkOf_append (a b : List Token) : inkOf (a ++ b) = inkOf a + inkOf b := by
  simp [inkOf]

theorem ink_cons_le (c : Char) (cs : List Char) : ink (c :: cs) ≤ ink cs + 1 := by
  unfold ink
  rw [List.countP_cons]
  split <;> omega

theorem ink_le_cons (c : Char) (cs : List Char) : ink cs ≤ ink (c :: cs) := ink_le_of_suffix (List.suffix_cons c cs)

/-- A string takes all its characters and the quote after it. -/
theorem ink_readString {steps : Nat} {taken cs rest : List Char} {s : String}
    (h : Json.readString steps taken cs = .ok (s, rest)) : ink s.toList + ink rest + 1 ≤ ink taken + ink cs := by
  induction steps generalizing taken cs with
  | zero => cases cs <;> cases h
  | succ steps ih =>
    cases cs with
    | nil => cases h
    | cons c cs =>
      rw [Json.readString] at h
      split at h
      · rename_i hc
        cases h
        have hreverse : ink taken.reverse = ink taken := List.countP_reverse
        rw [hc, ink_cons (by decide), String.toList_ofList, hreverse]
        omega
      · split at h
        · rename_i hc
          split at h
          · rename_i d left hescape
            have hleft := ink_le_of_suffix (Json.readEscape_suffix hescape)
            have htaken := ink_cons_le d taken
            have hrest := ih h
            rw [hc, ink_cons (by decide)]
            omega
          · cases h
        · split at h
          · cases h
          · have hrest := ih h
            have hmove : ink (c :: taken) + ink cs = ink taken + ink (c :: cs) := by
              unfold ink
              rw [List.countP_cons, List.countP_cons]
              omega
            omega

/-- A token and what follows it take no more than the text has. -/
theorem ink_nextToken {c : Char} {cs rest : List Char} {found : Option Token}
    (h : nextToken c cs = some (found, rest)) : inkOf found.toList + ink rest ≤ ink (c :: cs) := by
  unfold nextToken at h
  split at h
  · cases h
    simpa [inkOf] using ink_le_cons c cs
  · rename_i hblank
    have hc := ink_cons (Bool.eq_false_iff.2 hblank) cs
    split at h
    · cases h
      have hsplit := List.takeWhile_append_dropWhile (p := Text.continuesIdentifier) (l := cs)
      have hword := ink_append (c :: cs.takeWhile Text.continuesIdentifier) (cs.dropWhile Text.continuesIdentifier)
      rw [List.cons_append, hsplit] at hword
      simp [inkOf, Token.ink, hword]
    · split at h
      · split at h
        · rename_i hread
          cases h
          have hstring := ink_readString hread
          have hnil : ink [] = 0 := rfl
          simp only [Option.toList, inkOf, List.map_cons, List.map_nil, List.sum_cons, List.sum_nil, Token.ink]
          omega
        · cases h
      · split at h
        · rename_i hdots
          cases h
          have hsplit := ink_append (cs.take 2) (cs.drop 2)
          have hdot : ink ['.', '.'] = 2 := by decide
          rw [List.take_append_drop, hdots.2, hdot] at hsplit
          simp only [Option.toList, inkOf, List.map_cons, List.map_nil, List.sum_cons, List.sum_nil, Token.ink]
          omega
        · split at h
          · cases h
            simp only [Option.toList, inkOf, List.map_cons, List.map_nil, List.sum_cons, List.sum_nil, Token.ink]
            omega
          · cases h

theorem tokens_cons {steps : Nat} {c : Char} {cs : List Char} {ts : List Token} :
    tokens (steps + 1) (c :: cs) = some ts ↔ ∃ found rest more,
      nextToken c cs = some (found, rest) ∧ tokens steps rest = some more ∧ ts = found.toList ++ more := by
  rw [tokens, Option.bind_eq_some_iff]
  constructor
  · rintro ⟨⟨found, rest⟩, hnext, h⟩
    obtain ⟨more, hmore, rfl⟩ := Option.map_eq_some_iff.1 h
    exact ⟨found, rest, more, hnext, hmore, rfl⟩
  · rintro ⟨found, rest, more, hnext, hmore, rfl⟩
    exact ⟨(found, rest), hnext, Option.map_eq_some_iff.2 ⟨more, hmore, rfl⟩⟩

/-- Tokens take no more characters than the text has, blanks aside. -/
theorem ink_tokens {steps : Nat} {cs : List Char} {ts : List Token} (h : tokens steps cs = some ts) :
    inkOf ts ≤ ink cs := by
  induction steps generalizing cs ts with
  | zero =>
    cases cs with
    | nil =>
      cases h
      exact Nat.le_refl 0
    | cons c cs => cases h
  | succ steps ih =>
    cases cs with
    | nil =>
      cases h
      exact Nat.le_refl 0
    | cons c cs =>
      obtain ⟨found, rest, more, hnext, hmore, rfl⟩ := tokens_cons.1 h
      have hfound := ink_nextToken hnext
      have hrest := ih hmore
      rw [inkOf_append]
      omega

theorem isIdentifier_of_nextToken {c : Char} {cs rest : List Char} {s : String}
    (h : nextToken c cs = some (some (.word s), rest)) : Text.isIdentifier s = true := by
  unfold nextToken at h
  split at h
  · simp at h
  · split at h
    · rename_i hstart
      simp only [Option.some.injEq, Prod.mk.injEq, Token.word.injEq] at h
      rw [← h.1, Text.isIdentifier, String.toList_ofList, Text.isIdentifierChars, hstart, Bool.true_and]
      exact List.all_takeWhile
    · split at h
      · split at h
        · simp at h
        · cases h
      · split at h
        · simp at h
        · split at h
          · simp at h
          · cases h

/-- Words are identifiers. -/
theorem isIdentifier_of_mem_tokens {steps : Nat} {cs : List Char} {ts : List Token} (h : tokens steps cs = some ts)
    {s : String} (hs : .word s ∈ ts) : Text.isIdentifier s = true := by
  induction steps generalizing cs ts with
  | zero =>
    cases cs with
    | nil =>
      cases h
      cases hs
    | cons c cs => cases h
  | succ steps ih =>
    cases cs with
    | nil =>
      cases h
      cases hs
    | cons c cs =>
      obtain ⟨found, rest, more, hnext, hmore, rfl⟩ := tokens_cons.1 h
      rcases List.mem_append.1 hs with hs | hs
      · obtain rfl := Option.mem_toList.1 hs
        exact isIdentifier_of_nextToken hnext
      · exact ih hmore hs

end Pattern

end ViewTree
