import Mathlib.Data.List.Forall2
import ViewTree.Json.Typed
import ViewTree.Proofs.Files.Path

/-!
# Reading what was written

The text of a value is read back by the reader of its type, whatever follows it (`Reads`).
Strings, choices, lists and records are covered: the text of a record is a brace, its
fields in order and a brace, and the record is read if each field adds to the draft what it
should (`RecordShape.Fills`).
-/

namespace ViewTree.Json

theorem ok_bind {ε α β : Type} (a : α) (f : α → Except ε β) : Except.ok a >>= f = f a := rfl

/-! ## Strings -/

theorem hexValue?_hexDigit : ∀ n < 16, hexValue? (Text.hexDigit n) = some n := by decide

theorem le_byteCount (a b c d : Char) (rest : List Char) : 4 ≤ byteCount (a :: b :: c :: d :: rest) := by
  have hfold : ∀ (cs : List Char) (n : Nat), n ≤ cs.foldl (fun n c => n + c.utf8Size) n := by
    intro cs
    induction cs with
    | nil => exact fun n => Nat.le_refl n
    | cons c cs ih => exact fun n => Nat.le_trans (Nat.le_add_right n _) (ih _)
  have hfour := hfold rest (0 + a.utf8Size + b.utf8Size + c.utf8Size + d.utf8Size)
  have ha := a.utf8Size_pos
  have hb := b.utf8Size_pos
  have hc := c.utf8Size_pos
  have hd := d.utf8Size_pos
  unfold byteCount
  simp only [List.foldl_cons]
  omega

/-- The four digits that stand for a control character are read back. -/
theorem readUnicode_control {c : Char} (h : c.toNat < 32) (rest : List Char) :
    readUnicode ('0' :: '0' :: Text.hexDigit (c.toNat / 16) :: Text.hexDigit (c.toNat % 16) :: rest) =
      .ok (c, rest) := by
  have hhigh := hexValue?_hexDigit (c.toNat / 16) (by omega)
  have hlow := hexValue?_hexDigit (c.toNat % 16) (by omega)
  have hquad : hexQuad? '0' '0' (Text.hexDigit (c.toNat / 16)) (Text.hexDigit (c.toNat % 16)) = some c.toNat := by
    simp only [hexQuad?, hhigh, hlow, show hexValue? '0' = some 0 from rfl, Option.pure_def, Option.bind_eq_bind,
      Option.bind_some]
    congr 1
    omega
  have hhex : readHex ('0' :: '0' :: Text.hexDigit (c.toNat / 16) :: Text.hexDigit (c.toNat % 16) :: rest) =
      .ok (c.toNat, rest) := by
    unfold readHex
    rw [if_neg (Nat.not_lt.2 (le_byteCount _ _ _ _ rest))]
    simp only [hquad]
  unfold readUnicode
  rw [hhex, ok_bind]
  dsimp only
  rw [if_neg (by simp; omega), if_neg (by simp; omega), Char.ofNat_toNat]

/-- The way a character is written in a string is read back. -/
theorem readString_escapeChar (c : Char) (steps : Nat) (taken rest : List Char) :
    readString (steps + 1) taken (escapeChar c ++ rest) = readString steps (c :: taken) rest := by
  have hescape : ∀ {d : Char} {cs : List Char}, readEscape (d :: cs) = .ok (c, rest) →
      readString (steps + 1) taken ('\\' :: d :: cs) = readString steps (c :: taken) rest := by
    intro d cs h
    rw [readString, if_neg (by decide), if_pos rfl, h]
  unfold escapeChar
  split
  · rename_i hc
    exact hescape (by rw [hc]; rfl)
  split
  · rename_i hc
    exact hescape (by rw [hc]; rfl)
  split
  · rename_i hc
    exact hescape (by rw [hc]; rfl)
  split
  · rename_i hc
    exact hescape (by rw [hc]; rfl)
  split
  · rename_i hc
    exact hescape (by rw [hc]; rfl)
  split
  · rename_i hc
    exact hescape (by rw [← Char.ofNat_toNat c, hc]; rfl)
  split
  · rename_i hc
    exact hescape (by rw [← Char.ofNat_toNat c, hc]; rfl)
  split
  · rename_i hc
    exact hescape (readUnicode_control hc rest)
  · rename_i hquote hslash _ _ _ _ _ hcontrol
    rw [List.singleton_append, readString, if_neg hquote, if_neg hslash, if_neg hcontrol]

theorem readString_escaped (cs : List Char) {steps : Nat} (h : cs.length < steps) (taken rest : List Char) :
    readString steps taken (cs.flatMap escapeChar ++ '"' :: rest) =
      .ok (String.ofList (taken.reverse ++ cs), rest) := by
  induction cs generalizing steps taken with
  | nil =>
    obtain ⟨n, rfl⟩ := Nat.exists_eq_succ_of_ne_zero (Nat.ne_of_gt h)
    rw [List.flatMap_nil, List.nil_append, readString, if_pos rfl, List.append_nil]
  | cons c cs ih =>
    obtain ⟨n, rfl⟩ := Nat.exists_eq_succ_of_ne_zero (Nat.ne_of_gt (Nat.lt_of_le_of_lt (Nat.zero_le _) h))
    rw [List.flatMap_cons, List.append_assoc, readString_escapeChar, ih (Nat.lt_of_succ_lt_succ h), List.reverse_cons,
      List.append_assoc, List.singleton_append]

theorem toList_quote (s : String) : (quote s).toList = '"' :: (s.toList.flatMap escapeChar ++ ['"']) := by
  unfold quote
  rw [String.toList_ofList, List.cons_append]

theorem length_le_escaped (cs : List Char) : cs.length ≤ (cs.flatMap escapeChar).length := by
  induction cs with
  | nil => exact Nat.le_refl 0
  | cons c cs ih =>
    have hc : 1 ≤ (escapeChar c).length := by
      refine List.length_pos_of_ne_nil ?_
      unfold escapeChar
      split_ifs <;> exact List.cons_ne_nil _ _
    rw [List.flatMap_cons, List.length_append, List.length_cons]
    omega

/-- A quoted string is read back after its first quote, if there are enough steps. -/
theorem readString_quote (s : String) (rest : List Char) {steps : Nat}
    (h : (s.toList.flatMap escapeChar).length < steps) :
    readString steps [] (s.toList.flatMap escapeChar ++ '"' :: rest) = .ok (s, rest) := by
  rw [readString_escaped s.toList (Nat.lt_of_le_of_lt (length_le_escaped s.toList) h), List.reverse_nil,
    List.nil_append, String.ofList_toList]

/-! ## Values of a known type -/

/-- A character that a value can start with: no blank, and no end of a list or object. -/
def isStart (c : Char) : Bool := !(c == ' ' || c == '\n' || c == '\t' || c == '\r') && c != ']' && c != '\x7d'

/-- A reader gives this value for this text and leaves what follows. -/
structure Reads {α : Type} (read : List Char → Except Fault (α × List Char)) (text : List Char) (a : α) : Prop where
  start : ∃ c tail, text = c :: tail ∧ isStart c = true
  ok : ∀ rest, read (text ++ rest) = .ok (a, rest)

theorem skipSpace_cons {c : Char} (h : isStart c = true) (rest : List Char) : skipSpace (c :: rest) = c :: rest := by
  unfold isStart at h
  unfold skipSpace
  simp only [Bool.and_eq_true, Bool.not_eq_true'] at h
  rw [List.dropWhile_cons, if_neg (by simp [h.1.1])]

theorem readText_reads (s : String) : Reads readText (quote s).toList s := by
  rw [toList_quote]
  refine ⟨⟨_, _, rfl, by decide⟩, fun rest => ?_⟩
  have hopen : ∀ cs, readText ('"' :: cs) = readString cs.length [] cs := fun _ => rfl
  rw [List.cons_append, hopen, List.append_assoc, List.singleton_append]
  exact readString_quote s rest (by simp)

theorem readBool_reads (b : Bool) : Reads readBool (render (.bool b)).toList b := by
  cases b with
  | true => exact ⟨⟨_, _, rfl, by decide⟩, fun rest => rfl⟩
  | false => exact ⟨⟨_, _, rfl, by decide⟩, fun rest => rfl⟩

/-- A choice is read by its name. -/
theorem readChoice_reads {α : Type} {choices : Choices α} {name : String} {a : α} (h : choices.lookup name = some a) :
    Reads (readChoice choices) (quote name).toList a := by
  rw [toList_quote]
  refine ⟨⟨_, _, rfl, by decide⟩, fun rest => ?_⟩
  have hopen : ∀ cs, readChoice choices ('"' :: cs) = readChoiceName choices cs := fun _ => rfl
  rw [List.cons_append, hopen, List.append_assoc, List.singleton_append]
  unfold readChoiceName
  rw [readString_quote name rest (by simp), ok_bind]
  simp only [h]

/-! ## Lists -/

/-- What follows the bracket of a list, or an item of it. -/
def listText (first : Bool) : List (List Char) → List Char
  | [] => [']']
  | text :: texts => (if first then [] else [',']) ++ text ++ listText false texts

theorem listText_join (texts : List String) :
    (Text.join "," texts).toList ++ [']'] = listText true (texts.map String.toList) := by
  have hrest : ∀ (text : String) (texts : List String),
      (Text.join "," (text :: texts)).toList ++ [']'] = text.toList ++ listText false (texts.map String.toList) := by
    intro text texts
    induction texts generalizing text with
    | nil => rfl
    | cons next texts ih =>
      rw [Text.join, String.toList_append, String.toList_append, List.append_assoc, ih, List.map_cons, listText]
      simp
  cases texts with
  | nil => rfl
  | cons text texts => rw [hrest, List.map_cons, listText, if_pos rfl, List.nil_append]

section

variable {α : Type} {item : List Char → Except Fault (α × List Char)}

/-- The first character of a value is no end of a list. -/
theorem nextItem_start {c : Char} (hc : isStart c = true) (first : Bool) (rest : List Char) :
    nextItem first ((if first then [] else [',']) ++ c :: rest) = .ok (.entry (c :: rest)) := by
  have hclose : c ≠ ']' := by
    rintro rfl
    exact absurd hc (by decide)
  cases first with
  | true =>
    unfold nextItem
    rw [if_pos rfl, List.nil_append, skipSpace_cons hc]
    split
    · simp_all
    · simp_all
    · simp_all
  | false =>
    have hcomma : ∀ cs, skipSpace (',' :: cs) = ',' :: cs := fun _ => rfl
    rw [if_neg (by decide), List.singleton_append]
    unfold nextItem
    rw [hcomma]
    split
    · contradiction
    · simp_all
    · rename_i hlist
      obtain ⟨rfl, rfl⟩ := List.cons_eq_cons.1 hlist
      rw [if_neg (by decide), if_pos rfl, skipSpace_cons hc]
      split
      · simp_all
      · simp_all
      · rfl

theorem readListItems_reads {texts : List (List Char)} {as : List α} (h : List.Forall₂ (Reads item) texts as)
    {steps : Nat} (hsteps : texts.length < steps) (first : Bool) (rest : List Char) :
    readListItems item steps first (listText first texts ++ rest) = .ok (as, rest) := by
  induction h generalizing steps first with
  | nil =>
    obtain ⟨n, rfl⟩ := Nat.exists_eq_succ_of_ne_zero (Nat.ne_of_gt hsteps)
    rfl
  | @cons text a texts as hread hrest ih =>
    obtain ⟨n, rfl⟩ := Nat.exists_eq_succ_of_ne_zero (Nat.ne_of_gt (Nat.lt_of_le_of_lt (Nat.zero_le _) hsteps))
    obtain ⟨c, tail, htext, hc⟩ := hread.start
    have hnext : nextItem first (listText first (text :: texts) ++ rest) =
        .ok (.entry (text ++ (listText false texts ++ rest))) := by
      rw [listText, List.append_assoc, List.append_assoc, htext, List.cons_append]
      exact nextItem_start hc first _
    rw [readListItems, hnext]
    dsimp only
    rw [hread.ok, ok_bind]
    dsimp only
    rw [ih (Nat.lt_of_succ_lt_succ hsteps), ok_bind]

theorem length_le_listText (texts : List (List Char)) : texts.length ≤ (listText true texts).length := by
  have hrest : ∀ texts, texts.length + 1 ≤ (listText false texts).length := by
    intro texts
    induction texts with
    | nil => exact Nat.le_refl 1
    | cons text texts ih => simp [listText]; omega
  cases texts with
  | nil => exact Nat.zero_le _
  | cons text texts =>
    have htexts := hrest texts
    simp only [listText, if_true, List.nil_append, List.length_append, List.length_cons]
    omega

/-- A list is read item by item. -/
theorem readList_reads {texts : List String} {as : List α}
    (h : List.Forall₂ (Reads item) (texts.map String.toList) as) :
    Reads (readList item) ("[" ++ Text.join "," texts ++ "]").toList as := by
  have htext : ("[" ++ Text.join "," texts ++ "]").toList = '[' :: listText true (texts.map String.toList) := by
    rw [String.toList_append, String.toList_append, ← listText_join]
    rfl
  have hopen : ∀ cs, readList item ('[' :: cs) = readListItems item (cs.length + 1) true cs := fun _ => rfl
  rw [htext]
  refine ⟨⟨_, _, rfl, by decide⟩, fun rest => ?_⟩
  rw [List.cons_append, hopen]
  refine readListItems_reads h ?_ true rest
  have hlength := length_le_listText (texts.map String.toList)
  rw [List.length_append]
  omega

end

/-! ## Records -/

/-- What follows the brace of an object, or a field of it. -/
def fieldsText (first : Bool) : List (String × String) → List Char
  | [] => ['\x7d']
  | (name, text) :: fields =>
    (if first then [] else [',']) ++ (quote name).toList ++ ':' :: text.toList ++ fieldsText false fields

theorem render_object (fields : List (String × Json)) :
    (render (.object fields)).toList = '\x7b' :: fieldsText true (fields.map fun f => (f.1, render f.2)) := by
  have hrest : ∀ (field : String × Json) (fields : List (String × Json)),
      (Text.join "," (renderFields (field :: fields))).toList ++ ['\x7d'] =
        (quote field.1).toList ++ ':' :: (render field.2).toList ++
          fieldsText false (fields.map fun f => (f.1, render f.2)) := by
    intro field fields
    induction fields generalizing field with
    | nil => simp [renderFields, Text.join, fieldsText]
    | cons next fields ih =>
      rw [renderFields, renderFields, Text.join, ← renderFields, String.toList_append, String.toList_append,
        List.append_assoc, ih, List.map_cons, fieldsText]
      simp
  rw [render, String.toList_append, String.toList_append]
  cases fields with
  | nil => rfl
  | cons field fields =>
    rw [List.append_assoc, show "\x7d".toList = ['\x7d'] from rfl, hrest, List.map_cons, fieldsText, if_pos rfl,
      show "\x7b".toList = ['\x7b'] from rfl, List.singleton_append, List.nil_append]

namespace RecordShape

variable {σ : Type} {shape : RecordShape σ}

/-- Fields take a draft from one state to another, each read as a field of the shape and
none for the second time. -/
inductive Fills (shape : RecordShape σ) : List String → σ → List (String × String) → σ → Prop where
  | done (seen : List String) (draft : σ) : Fills shape seen draft [] draft
  | field {seen : List String} {draft next last : σ} {name text : String} {fields : List (String × String)}
      (hname : shape.names.contains name = true) (hnew : seen.contains name = false)
      (hread : ∀ rest, shape.read draft name (text.toList ++ rest) = .ok (next, rest))
      (hfields : Fills shape (name :: seen) next fields last) : Fills shape seen draft ((name, text) :: fields) last

/-- A field whose value is read as a part of the draft. -/
theorem Fills.part {seen : List String} {draft last : σ} {name text : String} {fields : List (String × String)}
    {α : Type} {read : List Char → Except Fault (α × List Char)} {a : α} (put : α → σ)
    (hname : shape.names.contains name = true) (hnew : seen.contains name = false)
    (hshape : ∀ cs, shape.read draft name cs = (read cs).map fun (a, rest) => (put a, rest))
    (hread : Reads read text.toList a) (hfields : Fills shape (name :: seen) (put a) fields last) :
    Fills shape seen draft ((name, text) :: fields) last :=
  .field hname hnew (fun rest => by rw [hshape, hread.ok]; rfl) hfields

theorem readFields_fills {seen : List String} {draft last : σ} {fields : List (String × String)}
    (h : Fills shape seen draft fields last) {steps : Nat} (first : Bool)
    (hsteps : (fieldsText first fields).length ≤ steps) (rest : List Char) :
    shape.readFields steps first seen draft (fieldsText first fields ++ rest) = .ok (last, rest) := by
  induction h generalizing steps first with
  | done seen draft =>
    obtain ⟨n, rfl⟩ := Nat.exists_eq_succ_of_ne_zero (Nat.ne_of_gt hsteps)
    rfl
  | @field seen draft next last name text fields hname hnew hread hfields ih =>
    have hlength : (name.toList.flatMap escapeChar).length + 2 + (fieldsText false fields).length ≤
        (fieldsText first ((name, text) :: fields)).length := by
      simp only [fieldsText, toList_quote, List.length_append, List.length_cons, List.length_nil]
      omega
    obtain ⟨n, rfl⟩ : ∃ n, steps = n + 1 := Nat.exists_eq_succ_of_ne_zero (by omega)
    have hnext : ∀ cs, nextField first ((if first then [] else [',']) ++ '"' :: cs) = .ok (.entry cs) := by
      intro cs
      cases first <;> rfl
    have hcolon : ∀ cs, readColon (':' :: cs) = .ok ((), cs) := fun _ => rfl
    have hcs : fieldsText first ((name, text) :: fields) ++ rest = (if first then [] else [',']) ++
        '"' :: (name.toList.flatMap escapeChar ++
          '"' :: ':' :: (text.toList ++ (fieldsText false fields ++ rest))) := by
      simp [fieldsText, toList_quote]
    rw [hcs, readFields, hnext]
    dsimp only
    rw [readString_quote name _ (by omega), ok_bind]
    dsimp only
    rw [hname, hnew, if_neg (by decide), if_neg (by decide), hcolon, ok_bind]
    dsimp only
    rw [hread, ok_bind]
    exact ih false (by omega)

/-- A record is read field by field. -/
theorem readRecord_fills {draft last : σ} {fields : List (String × Json)}
    (h : Fills shape [] draft (fields.map fun f => (f.1, render f.2)) last) :
    Reads (shape.readRecord draft) (render (.object fields)).toList last := by
  have hopen : ∀ cs, shape.readRecord draft ('\x7b' :: cs) = shape.readFields (cs.length + 1) true [] draft cs :=
    fun _ => rfl
  rw [render_object]
  refine ⟨⟨_, _, rfl, by decide⟩, fun rest => ?_⟩
  rw [List.cons_append, hopen]
  refine readFields_fills h true ?_ rest
  rw [List.length_append]
  omega

end RecordShape

end ViewTree.Json
