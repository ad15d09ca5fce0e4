import Mathlib.Algebra.Order.BigOperators.Group.List
import Mathlib.Algebra.Order.Group.Nat
import Mathlib.Data.List.DropRight
import ViewTree.Proofs.Load.Binders
import ViewTree.Proofs.Markup.Opaque
import ViewTree.Proofs.Pattern.Reading

/-!
# Patterns are read back

A pattern without defaults that loads is written as a text that is read back as the same
pattern, up to holes after its last bound element and names that equal their key, exactly if
all keys are identifiers (`render_read`). Others are written without quotes as well.

One direction reads the text piece by piece. For the other one, a pattern that is read
takes as many characters as the text has only if no key is quoted.
-/

namespace ViewTree

namespace Pattern

/-! ## What a pattern says -/

/-- The property keys of an object pattern. -/
def keys : Pattern → List String
  | object fields _ => fields.map ObjectField.key
  | _ => []

/-- What captures the rest. -/
def rest? : Pattern → Option String
  | name _ => none
  | object _ rest => rest
  | array _ rest => rest

/-- The items of an array pattern up to its last bound element: the names, and `none` for
holes. -/
def places : Pattern → List (Option String)
  | array items (some _) => items.map (Option.map ArrayItem.name)
  | array items none => (items.map (Option.map ArrayItem.name)).rdropWhile Option.isNone
  | _ => []

/-- The patterns bind the same names in the same way. -/
structure Agrees (q p : Pattern) : Prop where
  kind : q.ctorIdx = p.ctorIdx
  keys : q.keys = p.keys
  boundNames : q.boundNames = p.boundNames
  places : q.places = p.places
  rest : q.rest? = p.rest?

/-! ## Tokens of texts -/

/-- The tokens of a whole text. -/
def IsRead (cs : List Char) (ts : List Token) : Prop := tokens cs.length cs = some ts

instance (cs : List Char) (ts : List Token) : Decidable (IsRead cs ts) := inferInstanceAs (Decidable (_ = _))

/-- An identifier ends before these characters. -/
def Breaks (cs : List Char) : Prop := ∀ c ∈ cs.head?, Text.continuesIdentifier c = false

/-- Whatever breaks the last word, the characters before it are read as these tokens. -/
def Spells (cs : List Char) (ts : List Token) : Prop :=
  ∀ rest us, Breaks rest → IsRead rest us → IsRead (cs ++ rest) (ts ++ us)

theorem tokens_mono {n m : Nat} {cs : List Char} {ts : List Token} (h : tokens n cs = some ts) (hle : n ≤ m) :
    tokens m cs = some ts := by
  have hnil : ∀ k, tokens k [] = some [] := fun k => by cases k <;> rfl
  induction n generalizing m cs ts with
  | zero =>
    cases cs with
    | nil => rw [hnil, ← h, hnil]
    | cons c cs => cases h
  | succ n ih =>
    cases cs with
    | nil => rw [hnil, ← h, hnil]
    | cons c cs =>
      obtain ⟨k, rfl⟩ := Nat.exists_eq_succ_of_ne_zero (Nat.ne_of_gt (Nat.lt_of_lt_of_le n.succ_pos hle))
      obtain ⟨found, rest, more, hnext, hmore, rfl⟩ := tokens_cons.1 h
      exact tokens_cons.2 ⟨found, rest, more, hnext, ih hmore (Nat.le_of_succ_le_succ hle), rfl⟩

namespace IsRead

theorem step {c : Char} {cs rest : List Char} {found : Option Token} {us : List Token}
    (hnext : nextToken c cs = some (found, rest)) (hlen : rest.length ≤ cs.length) (h : IsRead rest us) :
    IsRead (c :: cs) (found.toList ++ us) :=
  tokens_cons.2 ⟨found, rest, us, hnext, tokens_mono h hlen, rfl⟩

variable {cs : List Char} {ts : List Token}

theorem blank (h : IsRead cs ts) : IsRead (' ' :: cs) ts := by
  have hnext : nextToken ' ' cs = some (none, cs) := rfl
  exact step hnext (Nat.le_refl _) h

theorem mark {c : Char} (hc : c ∈ marks) (h : IsRead cs ts) : IsRead (c :: cs) (.mark c :: ts) := by
  have hnext : nextToken c cs = some (some (.mark c), cs) := by
    simp only [marks, List.mem_cons, List.not_mem_nil, or_false] at hc
    rcases hc with rfl | rfl | rfl | rfl | rfl | rfl <;> rfl
  exact step hnext (Nat.le_refl _) h

theorem dots (h : IsRead cs ts) : IsRead ('.' :: '.' :: '.' :: cs) (.dots :: ts) := by
  have hnext : nextToken '.' ('.' :: '.' :: cs) = some (some .dots, cs) := rfl
  exact step hnext (by simp; omega) h

theorem word {s : String} (hs : Text.isIdentifier s = true) (hbreak : Breaks cs) (h : IsRead cs ts) :
    IsRead (s.toList ++ cs) (.word s :: ts) := by
  unfold Text.isIdentifier at hs
  cases hl : s.toList with
  | nil => simp [hl, Text.isIdentifierChars] at hs
  | cons c more =>
    rw [hl, Text.isIdentifierChars, Bool.and_eq_true, List.all_eq_true] at hs
    have hstop : cs.takeWhile Text.continuesIdentifier = [] ∧ cs.dropWhile Text.continuesIdentifier = cs := by
      cases cs with
      | nil => exact ⟨rfl, rfl⟩
      | cons d cs =>
        have hd := hbreak d rfl
        simp [hd]
    have hnext : nextToken c (more ++ cs) = some (some (.word s), cs) := by
      rw [nextToken, if_neg (by simp [Text.isSpace_of_starts hs.1]), if_pos hs.1, List.takeWhile_append_of_pos hs.2,
        List.dropWhile_append_of_pos hs.2, hstop.1, hstop.2, List.append_nil, ← hl, String.ofList_toList]
    exact step hnext (by simp) h

end IsRead

namespace Spells

theorem nil : Spells [] [] := fun _ _ _ h => h

theorem word {s : String} (hs : Text.isIdentifier s = true) : Spells s.toList [.word s] :=
  fun _ _ hbreak h => h.word hs hbreak

theorem append {a b : List Char} {ts us : List Token} (ha : Spells a ts) (hb : Spells b us) (hbreak : Breaks b) :
    Spells (a ++ b) (ts ++ us) := by
  intro rest vs hrest h
  have hnext : Breaks (b ++ rest) := by
    cases b with
    | nil => exact hrest
    | cons c b => exact hbreak
  rw [List.append_assoc, List.append_assoc]
  exact ha _ _ hnext (hb rest vs hrest h)

/-- Texts with commas between them are read as their tokens with commas between them. -/
theorem join {texts : List String} {parts : List (List Token)}
    (h : List.Forall₂ (fun (s : String) part => Spells s.toList part) texts parts) :
    Spells (Text.join ", " texts).toList ([.mark ','].intercalate parts) := by
  induction h with
  | nil => exact nil
  | @cons s part texts parts hs hrest ih =>
    cases hrest with
    | nil => simpa [Text.join] using hs
    | @cons t next texts parts ht hmore =>
      have hcomma : Spells (", ".toList ++ (Text.join ", " (t :: texts)).toList)
          (.mark ',' :: [.mark ','].intercalate (next :: parts)) :=
        fun rest us hbreak h => (ih rest us hbreak h).blank.mark (by decide)
      have hall := hs.append hcomma (fun c hc => by cases hc; decide)
      rw [List.intercalate_cons_cons, Text.join, String.toList_append, String.toList_append, List.append_assoc,
        List.append_assoc]
      exact hall

end Spells

/-! ## Parts of texts -/

/-- The tokens of a property. -/
def fieldTokens (f : ObjectField) : List Token :=
  if f.boundName = f.key then [.word f.key] else [.word f.key, .mark ':', .word f.boundName]

/-- The tokens of an item. -/
def itemTokens : Option ArrayItem → List Token
  | some i => [.word i.name]
  | none => []

/-- The tokens of a rest. -/
def restTokens (rest : Option String) : List (List Token) := rest.toList.map fun r => [.dots, .word r]

/-- A property without the name it is bound under, if that is its key. -/
def plainField (f : ObjectField) : ObjectField :=
  if f.boundName = f.key then ⟨f.key, none, none⟩ else ⟨f.key, some f.boundName, none⟩

theorem render_field {f : ObjectField} (h : f.default = none) :
    f.render = if f.boundName = f.key then f.key else f.key ++ ": " ++ f.boundName := by
  unfold ObjectField.render ObjectField.boundName
  rw [h, withDefault]
  cases f.renamed with
  | none => simp
  | some a => rfl

theorem spells_field {f : ObjectField} (hd : f.default = none) (hkey : Text.isIdentifier f.key = true)
    (hbound : Text.isIdentifier f.boundName = true) : Spells f.render.toList (fieldTokens f) := by
  rw [render_field hd, fieldTokens]
  split
  · exact Spells.word hkey
  · have hname : Spells (": ".toList ++ f.boundName.toList) [.mark ':', .word f.boundName] :=
      fun _ _ hbreak h => (h.word hbound hbreak).blank.mark (by decide)
    rw [String.toList_append, String.toList_append, List.append_assoc]
    exact (Spells.word hkey).append hname fun c hc => by cases hc; decide

theorem spells_item {i : Option ArrayItem} (hd : ∀ a ∈ i, a.default = none)
    (hname : ∀ a ∈ i, Text.isIdentifier a.name = true) : Spells (ArrayItem.renderOption i).toList (itemTokens i) := by
  cases i with
  | none => exact Spells.nil
  | some a =>
    rw [ArrayItem.renderOption, hd a rfl]
    exact Spells.word (hname a rfl)

theorem spells_rest {rest : Option String} (h : ∀ r ∈ rest, Text.isIdentifier r = true) :
    List.Forall₂ (fun (s : String) part => Spells s.toList part) (renderRest rest) (restTokens rest) := by
  cases rest with
  | none => exact .nil
  | some r =>
    refine .cons (fun _ _ hbreak hread => ?_) .nil
    have hrest := (hread.word (h r rfl) hbreak).dots
    simpa using hrest

theorem readField_tokens (f : ObjectField) : readField (fieldTokens f) = some (plainField f) := by
  unfold fieldTokens plainField
  split <;> rfl

theorem key_plainField (f : ObjectField) : (plainField f).key = f.key := by
  unfold plainField
  split <;> rfl

theorem boundName_plainField (f : ObjectField) : (plainField f).boundName = f.boundName := by
  unfold plainField
  split
  · rename_i h
    exact h.symm
  · rfl

theorem readItem_tokens {i : Option ArrayItem} (hd : ∀ a ∈ i, a.default = none) : readItem (itemTokens i) = some i := by
  cases i with
  | none => rfl
  | some a =>
    obtain ⟨n, d⟩ := a
    obtain rfl := hd _ rfl
    rfl

/-! ## Reading parts -/

theorem append_rest_ne_nil {β : Type} {parts : List β} {rest : Option String} (h : parts = [] → rest ≠ none)
    (f : String → β) : parts ++ rest.toList.map f ≠ [] := by
  cases rest with
  | none => simpa using h
  | some r => simp

section
variable {α : Type} {one : List Token → Option α} {text : α → String} {toks : α → List Token} {g : α → α}
  {items : List α} {rest : Option String}

/-- Parts and a rest after them are read as their tokens with commas between them. -/
theorem spells_parts (h : ∀ a ∈ items, Spells (text a).toList (toks a))
    (hrest : ∀ r ∈ rest, Text.isIdentifier r = true) :
    Spells (Text.join ", " (items.map text ++ renderRest rest)).toList
      ([.mark ','].intercalate (items.map toks ++ restTokens rest)) := by
  refine Spells.join (List.rel_append ?_ (spells_rest hrest))
  rw [List.forall₂_map_left_iff, List.forall₂_map_right_iff, List.forall₂_same]
  exact h

theorem comma_notMem_parts (h : ∀ a ∈ items, .mark ',' ∉ toks a) :
    ∀ part ∈ items.map toks ++ restTokens rest, .mark ',' ∉ part := by
  intro part hpart
  rcases List.mem_append.1 hpart with hpart | hpart
  · obtain ⟨a, ha, rfl⟩ := List.mem_map.1 hpart
    exact h a ha
  · obtain ⟨r, -, rfl⟩ := List.mem_map.1 hpart
    simp

theorem readParts_append (h : ∀ a ∈ items, one (toks a) = some (g a)) (last : List Token) :
    readParts one (items.map toks ++ [last]) =
      (readLast one last).map fun (more, rest) => (items.map g ++ more, rest) := by
  induction items with
  | nil => simp [readParts]
  | cons a items ih =>
    have hone := h a List.mem_cons_self
    have hrest := ih fun b hb => h b (List.mem_cons_of_mem _ hb)
    obtain ⟨next, parts, hparts⟩ := List.exists_cons_of_ne_nil (l := items.map toks ++ [last]) (by simp)
    rw [List.map_cons, List.cons_append, hparts, readParts, ← hparts, hone, hrest]
    cases readLast one last <;> rfl

/-- All parts before a rest are read. -/
theorem readParts_rest (h : ∀ a ∈ items, one (toks a) = some (g a)) (r : String) :
    readParts one (items.map toks ++ restTokens (some r)) = some (items.map g, some r) := by
  rw [restTokens, Option.toList_some, List.map_singleton, readParts_append h]
  simp [readLast]

/-- Parts between marks are read after the first mark. -/
theorem readEnclosed_intercalate {parts : List (List Token)} (close : Char) (hne : parts ≠ [])
    (hcomma : ∀ part ∈ parts, .mark ',' ∉ part) :
    readEnclosed one close ([.mark ','].intercalate parts ++ [.mark close]) = readParts one parts := by
  rw [readEnclosed, List.getLast?_concat, if_pos rfl, List.dropLast_concat, List.splitOn_intercalate _ hcomma hne]

end

/-- The text of an enclosed pattern is read as its parts between marks. -/
theorem read_enclosed {inner : String} {parts : List (List Token)}
    (hinner : Spells inner.toList ([.mark ','].intercalate parts)) (hne : parts ≠ [])
    (hcomma : ∀ part ∈ parts, .mark ',' ∉ part) :
    read ("\x7b " ++ inner ++ " \x7d") = (readParts readField parts).map (fun (fields, rest) => object fields rest) ∧
      read ("[" ++ inner ++ "]") = (readParts readItem parts).map fun (items, rest) => array items rest := by
  constructor
  · have hread : IsRead ("\x7b " ++ inner ++ " \x7d").toList
        (.mark '\x7b' :: ([.mark ','].intercalate parts ++ [.mark '\x7d'])) := by
      have hclose : IsRead " \x7d".toList [.mark '\x7d'] := by decide
      have hall := (hinner _ _ (fun c hc => by cases hc; decide) hclose).blank.mark (c := '\x7b') (by decide)
      simpa using hall
    rw [read, hread, Option.bind_some, readTokens, readEnclosed_intercalate '\x7d' hne hcomma]
  · have hread : IsRead ("[" ++ inner ++ "]").toList
        (.mark '[' :: ([.mark ','].intercalate parts ++ [.mark ']'])) := by
      have hclose : IsRead "]".toList [.mark ']'] := by decide
      have hall := (hinner _ _ (fun c hc => by cases hc; decide) hclose).mark (c := '[') (by decide)
      simpa using hall
    rw [read, hread, Option.bind_some, readTokens, readEnclosed_intercalate ']' hne hcomma]

/-- An object pattern is read back without the names that equal their key. -/
theorem read_object {fields : List ObjectField} {rest : Option String} (hd : ∀ f ∈ fields, f.default = none)
    (hkeys : ∀ f ∈ fields, Text.isIdentifier f.key = true) (hbound : ∀ f ∈ fields, Text.isIdentifier f.boundName = true)
    (hrest : ∀ r ∈ rest, Text.isIdentifier r = true) (hne : fields = [] → rest ≠ none) :
    read (object fields rest).render = some (object (fields.map plainField) rest) := by
  have hspells := spells_parts (fun f hf => spells_field (hd f hf) (hkeys f hf) (hbound f hf)) hrest
  have hcomma : ∀ f ∈ fields, .mark ',' ∉ fieldTokens f := by
    intro f _
    unfold fieldTokens
    split <;> simp
  have hparts : fields.map fieldTokens ++ restTokens rest ≠ [] := append_rest_ne_nil (by simpa using hne) _
  rw [render, (read_enclosed hspells hparts (comma_notMem_parts hcomma)).1]
  cases rest with
  | some r =>
    rw [readParts_rest fun f _ => readField_tokens f]
    rfl
  | none =>
    obtain ⟨front, f, rfl⟩ := (List.eq_nil_or_concat' fields).resolve_left fun hnil => hne hnil rfl
    have hlast : readLast readField (fieldTokens f) = some ([plainField f], none) := by
      unfold fieldTokens plainField
      split <;> rfl
    rw [restTokens, Option.toList_none, List.map_nil, List.append_nil, List.map_append, List.map_singleton,
      readParts_append fun f _ => readField_tokens f, hlast]
    simp

/-- An array pattern is read back, without a hole at its end. -/
theorem read_array {items : List (Option ArrayItem)} {rest : Option String}
    (hd : ∀ a, some a ∈ items → a.default = none) (hnames : ∀ a, some a ∈ items → Text.isIdentifier a.name = true)
    (hrest : ∀ r ∈ rest, Text.isIdentifier r = true) (hne : items = [] → rest ≠ none) :
    ∃ back, read (array items rest).render = some (array back rest) ∧
      (array back rest).places = (array items rest).places ∧
      (array back rest).boundNames = (array items rest).boundNames := by
  have hdefault : ∀ i ∈ items, ∀ a ∈ i, a.default = none := by
    rintro i hi a rfl
    exact hd a hi
  have hname : ∀ i ∈ items, ∀ a ∈ i, Text.isIdentifier a.name = true := by
    rintro i hi a rfl
    exact hnames a hi
  have hspells := spells_parts (fun i hi => spells_item (hdefault i hi) (hname i hi)) hrest
  have hcomma : ∀ i ∈ items, .mark ',' ∉ itemTokens i := by
    intro i _
    cases i <;> simp [itemTokens]
  have hparts : items.map itemTokens ++ restTokens rest ≠ [] := append_rest_ne_nil (by simpa using hne) _
  have hone : ∀ i ∈ items, readItem (itemTokens i) = some (id i) := fun i hi => readItem_tokens (hdefault i hi)
  rw [render, (read_enclosed hspells hparts (comma_notMem_parts hcomma)).2]
  cases rest with
  | some r =>
    rw [readParts_rest hone, List.map_id]
    exact ⟨items, rfl, rfl, rfl⟩
  | none =>
    obtain ⟨front, i, rfl⟩ := (List.eq_nil_or_concat' items).resolve_left fun hnil => hne hnil rfl
    rw [restTokens, Option.toList_none, List.map_nil, List.append_nil, List.map_append, List.map_singleton,
      readParts_append fun j hj => hone j (List.mem_append_left _ hj), List.map_id]
    cases i with
    | none =>
      -- nothing after the last comma is no hole
      refine ⟨front, by simp [readLast, itemTokens], ?_, by simp [boundNames]⟩
      rw [places, places, List.map_append, List.map_singleton, List.rdropWhile_concat_pos _ _ _ rfl]
    | some a =>
      obtain ⟨n, d⟩ := a
      obtain rfl := hd _ (List.mem_append_right _ List.mem_cons_self)
      exact ⟨front ++ [some ⟨n, none⟩], by simp [readLast, itemTokens, readItem], rfl, rfl⟩

/-! ## What a text takes -/

/-- The characters that a property takes at least. -/
def fieldInk (key bound : String) : Nat := ink key.toList + if bound = key then 0 else ink bound.toList + 1

/-- The characters that a rest takes, with the comma before it. -/
def restInk (rest : Option String) : Nat := (rest.toList.map fun r => ink r.toList + 4).sum

/-- The characters that a property takes beyond that, because its key is quoted. -/
def quoteInk (f : ObjectField) : Nat := if Text.isIdentifier f.key = true then 0 else 1

theorem ink_field {f : ObjectField} (h : f.default = none) : ink f.render.toList = fieldInk f.key f.boundName := by
  rw [render_field h, fieldInk]
  split
  · rfl
  · have hcolon : ink ": ".toList = 1 := by decide
    rw [String.toList_append, String.toList_append, ink_append, ink_append, hcolon]
    omega

theorem ink_rest (rest : Option String) : ((renderRest rest).map fun s => ink s.toList + 1).sum = restInk rest := by
  cases rest with
  | none => rfl
  | some r =>
    have hdots : ink "...".toList = 3 := by decide
    simp only [renderRest, restInk, Option.toList_some, List.map_singleton, List.sum_singleton, String.toList_append,
      ink_append, hdots]
    omega

theorem ink_join {texts : List String} (h : texts ≠ []) :
    ink (Text.join ", " texts).toList + 1 = (texts.map fun s => ink s.toList + 1).sum := by
  have hcomma : ink ", ".toList = 1 := by decide
  induction texts with
  | nil => exact absurd rfl h
  | cons s texts ih =>
    cases texts with
    | nil => simp [Text.join]
    | cons t texts =>
      have hrest := ih (List.cons_ne_nil t texts)
      rw [List.map_cons, List.sum_cons, ← hrest, Text.join, String.toList_append, String.toList_append, ink_append,
        ink_append, hcomma]
      omega

theorem inkOf_intercalate {parts : List (List Token)} (h : parts ≠ []) :
    inkOf ([.mark ','].intercalate parts) + 1 = (parts.map fun part => inkOf part + 1).sum := by
  have hcomma : inkOf [.mark ','] = 1 := rfl
  induction parts with
  | nil => exact absurd rfl h
  | cons part parts ih =>
    cases parts with
    | nil => simp
    | cons next parts =>
      have hrest := ih (List.cons_ne_nil next parts)
      rw [List.map_cons, List.sum_cons, ← hrest, List.intercalate_cons_cons, inkOf_append, inkOf_append, hcomma]
      omega

/-- A property that is read from tokens takes what it has to, and more if its key is quoted. -/
theorem ink_readField {part : List Token} {f : ObjectField} (h : readField part = some f)
    (hwords : ∀ s, .word s ∈ part → Text.isIdentifier s = true) :
    fieldInk f.key f.boundName + quoteInk f ≤ inkOf part := by
  have hfield : ∀ key bound, fieldInk key bound ≤ ink key.toList + ink bound.toList + 1 := by
    intro key bound
    unfold fieldInk
    split <;> omega
  have hquote : quoteInk f ≤ 1 := by
    unfold quoteInk
    split <;> omega
  have hword : Text.isIdentifier f.key = true → quoteInk f = 0 := fun hkey => if_pos hkey
  unfold readField at h
  split at h
  · rename_i key
    cases h
    simp [hword (hwords key List.mem_cons_self), fieldInk, ObjectField.boundName, inkOf, Token.ink]
  · rename_i key bound
    cases h
    have hle := hfield key bound
    simp only [hword (hwords key List.mem_cons_self), ObjectField.boundName, Option.getD_some, inkOf, List.map_cons,
      List.map_nil, List.sum_cons, List.sum_nil, Token.ink]
    omega
  · rename_i key bound
    cases h
    have hle := hfield key bound
    simp only [ObjectField.boundName, Option.getD_some, inkOf, List.map_cons, List.map_nil, List.sum_cons,
      List.sum_nil, Token.ink]
    omega
  · cases h

/-- Parts take what is read from them, with a comma for each. -/
theorem ink_readParts {α : Type} {one : List Token → Option α} {w : α → Nat} {parts : List (List Token)}
    (hone : ∀ part ∈ parts, ∀ a, one part = some a → w a ≤ inkOf part) {items : List α} {rest : Option String}
    (h : readParts one parts = some (items, rest)) :
    (items.map fun a => w a + 1).sum + restInk rest ≤ (parts.map fun part => inkOf part + 1).sum := by
  induction parts generalizing items with
  | nil =>
    cases h
    simp [restInk]
  | cons part parts ih =>
    cases parts with
    | nil =>
      rw [readParts] at h
      unfold readLast at h
      split at h
      · cases h
        simp [restInk]
      · cases h
        simp only [restInk, List.map_nil, List.sum_nil, Option.toList_some, inkOf, List.map_cons, List.sum_cons,
          Token.ink]
        omega
      · obtain ⟨a, ha, heq⟩ := Option.map_eq_some_iff.1 h
        cases heq
        have hle := hone part List.mem_cons_self a ha
        simpa [restInk] using hle
    | cons next parts =>
      rw [readParts] at h
      split at h
      · rename_i a as more ha hmore
        cases h
        have hle := hone part List.mem_cons_self a ha
        have hrest := ih (fun p hp => hone p (List.mem_cons_of_mem _ hp)) hmore
        rw [List.map_cons, List.sum_cons, List.map_cons, List.sum_cons]
        omega
      · cases h

theorem readTokens_object {ts : List Token} {fields : List ObjectField} {rest : Option String}
    (h : readTokens ts = some (object fields rest)) : ∃ body, ts = .mark '\x7b' :: (body ++ [.mark '\x7d']) ∧
      readParts readField (body.splitOn (.mark ',')) = some (fields, rest) := by
  unfold readTokens at h
  split at h
  · simp at h
  · rename_i more
    obtain ⟨⟨fields', rest'⟩, hparts, heq⟩ := Option.map_eq_some_iff.1 h
    cases heq
    unfold readEnclosed at hparts
    split at hparts
    · rename_i hclose
      exact ⟨more.dropLast, by rw [List.dropLast_append_getLast? _ hclose], hparts⟩
    · cases hparts
  · obtain ⟨x, -, heq⟩ := Option.map_eq_some_iff.1 h
    cases heq
  · cases h

/-- An object pattern takes what its properties and its rest take, and a brace more. -/
theorem ink_object {fields : List ObjectField} {rest : Option String} (hd : ∀ f ∈ fields, f.default = none)
    (hne : fields = [] → rest ≠ none) : ink (object fields rest).render.toList =
      (fields.map fun f => fieldInk f.key f.boundName + 1).sum + restInk rest + 1 := by
  have hnonempty : fields.map ObjectField.render ++ renderRest rest ≠ [] := append_rest_ne_nil (by simpa using hne) _
  have hfields : (fields.map ObjectField.render).map (fun s => ink s.toList + 1) =
      fields.map fun f => fieldInk f.key f.boundName + 1 := by
    rw [List.map_map]
    exact List.map_congr_left fun f hf => by rw [Function.comp_apply, ink_field (hd f hf)]
  have hopen : ink "\x7b ".toList = 1 := by decide
  have hclose : ink " \x7d".toList = 1 := by decide
  have hjoin := ink_join hnonempty
  rw [List.map_append, List.sum_append, hfields, ink_rest] at hjoin
  rw [render, String.toList_append, String.toList_append, ink_append, ink_append, hopen, hclose]
  omega

/-- What properties take at least depends on their keys and the names they bind. -/
theorem fieldInk_congr {fields fields' : List ObjectField}
    (hkeys : fields'.map ObjectField.key = fields.map ObjectField.key)
    (hbound : fields'.map ObjectField.boundName = fields.map ObjectField.boundName) :
    (fields'.map fun f => fieldInk f.key f.boundName + 1) = fields.map fun f => fieldInk f.key f.boundName + 1 := by
  have hzip : ∀ l : List ObjectField, (l.map fun f => fieldInk f.key f.boundName + 1) =
      List.zipWith (fun key bound => fieldInk key bound + 1) (l.map ObjectField.key) (l.map ObjectField.boundName) := by
    intro l
    rw [List.zipWith_map, List.zipWith_self]
  rw [hzip, hzip, hkeys, hbound]

/-- If a text is read as the properties it was written from, none of their keys was quoted:
each would take more characters than the text has. -/
theorem identifiers_of_read {fields fields' : List ObjectField} {rest : Option String}
    (hd : ∀ f ∈ fields, f.default = none) (hne : fields = [] → rest ≠ none)
    (hread : read (object fields rest).render = some (object fields' rest))
    (hkeys : fields'.map ObjectField.key = fields.map ObjectField.key)
    (hbound : fields'.map ObjectField.boundName = fields.map ObjectField.boundName) :
    ∀ f ∈ fields', Text.isIdentifier f.key = true := by
  obtain ⟨ts, htokens, hts⟩ := Option.bind_eq_some_iff.1 hread
  obtain ⟨body, rfl, hparts⟩ := readTokens_object hts
  have hbody : [Token.mark ','].intercalate (body.splitOn (.mark ',')) = body := List.intercalate_splitOn _
  -- the tokens between the braces take what is read from them, and more for every quoted key
  have htaken : (fields'.map fun f => fieldInk f.key f.boundName + quoteInk f + 1).sum + restInk rest ≤
      inkOf body + 1 := by
    have hsum := inkOf_intercalate (List.splitOn_ne_nil (.mark ',') body)
    rw [hbody] at hsum
    rw [hsum]
    refine ink_readParts (w := fun f => fieldInk f.key f.boundName + quoteInk f) (fun part hpart f hf => ?_) hparts
    refine ink_readField hf fun s hs => isIdentifier_of_mem_tokens htokens ?_
    have hmem : Token.word s ∈ [Token.mark ','].intercalate (body.splitOn (.mark ',')) := Text.mem_intercalate hpart hs
    rw [hbody] at hmem
    exact List.mem_cons_of_mem _ (List.mem_append_left _ hmem)
  have hmarks : inkOf (Token.mark '\x7b' :: (body ++ [.mark '\x7d'])) = inkOf body + 2 := by
    simp [inkOf, Token.ink]
    omega
  -- but the text has no more than that, quotes aside
  have hheld := ink_tokens htokens
  rw [hmarks, ink_object hd hne] at hheld
  have hsplit : (fields'.map fun f => fieldInk f.key f.boundName + quoteInk f + 1).sum =
      (fields.map fun f => fieldInk f.key f.boundName + 1).sum + (fields'.map quoteInk).sum := by
    rw [← fieldInk_congr hkeys hbound, ← List.sum_map_add]
    congr 1
    exact List.map_congr_left fun f _ => by omega
  have hnone : (fields'.map quoteInk).sum = 0 := by omega
  intro f hf
  have hzero := List.sum_eq_zero_iff.1 hnone (quoteInk f) (List.mem_map_of_mem hf)
  by_contra hkey
  rw [quoteInk, if_neg hkey] at hzero
  cases hzero

/-! ## Loaded patterns -/

theorem agrees_object {fields fields' : List ObjectField} {rest rest' : Option String}
    (h : (object fields' rest').Agrees (object fields rest)) : rest' = rest ∧
      fields'.map ObjectField.key = fields.map ObjectField.key ∧
      fields'.map ObjectField.boundName = fields.map ObjectField.boundName := by
  obtain rfl : rest' = rest := h.rest
  exact ⟨rfl, h.keys, List.append_cancel_right h.boundNames⟩

/-- A pattern without defaults that loads is written as a text that is read back as a
pattern of the same kind, with the same keys, bound names, places and rest, exactly if all
its keys are identifiers. Names and arrays have no keys, so they are always read back. -/
theorem render_read {value : Json} {path : String} {p : Pattern} (h : (Load.pattern value path).value = some p)
    (hplain : p.defaults = []) :
    (∃ q, read p.render = some q ∧ q.Agrees p) ↔ ∀ key ∈ p.keys, Text.isIdentifier key = true := by
  obtain ⟨hbinds, hnames⟩ := Load.pattern_binds h
  cases p with
  | name n =>
    refine iff_of_true ⟨name n, ?_, rfl, rfl, rfl, rfl, rfl⟩ (by simp [keys])
    have hword := Spells.word (hnames n List.mem_cons_self) [] [] (by simp [Breaks]) rfl
    rw [List.append_nil, List.append_nil] at hword
    rw [read, render, hword]
    rfl
  | object fields rest =>
    have hd : ∀ f ∈ fields, f.default = none := List.filterMap_eq_nil_iff.1 hplain
    have hne : fields = [] → rest ≠ none := by
      rintro rfl rfl
      exact hbinds rfl
    constructor
    · rintro ⟨q, hread, hagrees⟩
      cases q with
      | name n => cases hagrees.kind
      | array items rest' => cases hagrees.kind
      | object fields' rest' =>
        obtain ⟨rfl, hkeys, hbound⟩ := agrees_object hagrees
        intro key hkey
        rw [keys, ← hkeys] at hkey
        obtain ⟨f, hf, rfl⟩ := List.mem_map.1 hkey
        exact identifiers_of_read hd hne hread hkeys hbound f hf
    · intro hkeys
      have hbound : ∀ f ∈ fields, Text.isIdentifier f.boundName = true := fun f hf =>
        hnames _ (List.mem_append_left _ (List.mem_map_of_mem hf))
      have hrest : ∀ r ∈ rest, Text.isIdentifier r = true := fun r hr =>
        hnames r (List.mem_append_right _ (Option.mem_toList.2 hr))
      have hback := read_object hd (fun f hf => hkeys _ (List.mem_map_of_mem hf)) hbound hrest hne
      refine ⟨_, hback, rfl, ?_, ?_, rfl, rfl⟩
      · simp [keys, key_plainField]
      · simp [boundNames, boundName_plainField]
  | array items rest =>
    have hd : ∀ a, some a ∈ items → a.default = none := fun a ha =>
      List.filterMap_eq_nil_iff.1 hplain a (List.mem_filterMap.2 ⟨some a, ha, rfl⟩)
    have hbound : ∀ a, some a ∈ items → Text.isIdentifier a.name = true := fun a ha =>
      hnames _ (List.mem_append_left _ (List.mem_map_of_mem (List.mem_filterMap.2 ⟨some a, ha, rfl⟩)))
    have hrest : ∀ r ∈ rest, Text.isIdentifier r = true := fun r hr =>
      hnames r (List.mem_append_right _ (Option.mem_toList.2 hr))
    have hne : items = [] → rest ≠ none := by
      rintro rfl rfl
      exact hbinds rfl
    obtain ⟨back, hback, hplaces, hsame⟩ := read_array hd hbound hrest hne
    exact iff_of_true ⟨array back rest, hback, rfl, rfl, hsame, hplaces, rfl⟩ (by simp [keys])

/-- A property under its own key, one under another name, and a rest. -/
def layeredObject : Json := .object [("id", .null), ("class", .string "kind"), ("...more", .null)]

/-- A hole, a name, another hole and a rest. -/
def layeredArray : Json := .array [.null, .string "second", .null, .string "...more"]

theorem render_read_layered :
    (read "\x7b id, class: kind, ...more \x7d" =
        some (.object [⟨"id", none, none⟩, ⟨"class", some "kind", none⟩] "more") ∧
      read "[, second, , ...more]" = some (.array [none, some ⟨"second", none⟩, none] "more")) ∧
    (∃ p, (Load.pattern layeredObject "p").value = some p ∧ ∃ q, read p.render = some q ∧ q.Agrees p) ∧
    (∃ p, (Load.pattern layeredArray "p").value = some p ∧ ∃ q, read p.render = some q ∧ q.Agrees p) := by
  have hobject : (Load.pattern layeredObject "p").value =
      some (.object [⟨"id", none, none⟩, ⟨"class", some "kind", none⟩] "more") := by decide +kernel
  have harray : (Load.pattern layeredArray "p").value =
      some (.array [none, some ⟨"second", none⟩, none] "more") := by decide +kernel
  refine ⟨by decide +kernel, ⟨_, hobject, ?_⟩, ⟨_, harray, ?_⟩⟩
  · exact (render_read hobject rfl).2 (by decide)
  · exact (render_read harray rfl).2 (by simp [keys])

/-- A key with a hyphen loads with another name after it, and is not quoted. -/
theorem hyphened_key_unread :
    (Load.pattern (.object [("aria-label", .string "label")]) "p").value =
      some (.object [⟨"aria-label", some "label", none⟩] none) ∧
    (object [⟨"aria-label", some "label", none⟩] none).render = "\x7b aria-label: label \x7d" ∧
    read "\x7b aria-label: label \x7d" = none ∧
    read "\x7b \"aria-label\": label \x7d" = some (.object [⟨"aria-label", some "label", none⟩] none) := by
  decide +kernel

end Pattern

end ViewTree
