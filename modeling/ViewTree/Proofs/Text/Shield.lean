import Mathlib.Data.List.Infix
import ViewTree.Text.Lines

/-!
# Shielded text survives the layout

A shielded text has no line break, so indenting a block leaves it in one piece as long
as it does not touch the end of a line. `Shielded t s` says that `t` stands in `s` in
its shielded form, between two characters that keep it away from line ends and from
stray markers. Everything the layout does keeps that, and in the end `unshield` gives
`t` back unchanged (`Shielded.unshield`).
-/

namespace ViewTree.Text

/-! ## Joined texts -/

theorem join_cons (separator s : String) (ts : List String) :
    ∃ rest, join separator (s :: ts) = s ++ rest := by
  cases ts with
  | nil => exact ⟨"", by simp [join]⟩
  | cons t ts => exact ⟨separator ++ join separator (t :: ts), by rw [join, String.append_assoc]⟩

/-- Each text is a part of the joined one, with separators or the ends around it. -/
theorem join_split (separator : String) {s : String} {ts : List String} (h : s ∈ ts) :
    ∃ a b, join separator ts = a ++ s ++ b ∧ (a = "" ∨ ∃ a', a = a' ++ separator) ∧
      (b = "" ∨ ∃ b', b = separator ++ b') := by
  induction ts with
  | nil => cases h
  | cons t ts ih =>
    cases ts with
    | nil =>
      obtain rfl := List.mem_singleton.1 h
      exact ⟨"", "", by simp [join], .inl rfl, .inl rfl⟩
    | cons u ts =>
      rw [join]
      rcases List.mem_cons.1 h with rfl | h
      · exact ⟨"", separator ++ join separator (u :: ts), by simp [String.append_assoc], .inl rfl, .inr ⟨_, rfl⟩⟩
      · obtain ⟨a, b, hab, ha, hb⟩ := ih h
        refine ⟨t ++ separator ++ a, b, by rw [hab]; simp only [String.append_assoc], .inr ?_, hb⟩
        rcases ha with rfl | ⟨a', rfl⟩
        · exact ⟨t, by simp⟩
        · exact ⟨t ++ separator ++ a', by simp only [String.append_assoc]⟩

theorem infix_join (separator : String) {s : String} {ts : List String} (h : s ∈ ts) :
    s.toList <:+: (join separator ts).toList := by
  obtain ⟨a, b, hab, -, -⟩ := join_split separator h
  rw [hab, String.toList_append, String.toList_append]
  exact List.infix_append _ _ _

theorem toList_join_cons (separator s : String) (ts : List String) :
    (join separator (s :: ts)).toList = s.toList ++ ts.flatMap fun t => separator.toList ++ t.toList := by
  induction ts generalizing s with
  | nil => simp [join]
  | cons t ts ih =>
    rw [join, String.toList_append, ih, String.toList_append, List.flatMap_cons]
    simp only [List.append_assoc]

theorem mem_join {separator : String} {c : Char} (h : c ∉ separator.toList) {ts : List String} :
    c ∈ (join separator ts).toList ↔ ∃ t ∈ ts, c ∈ t.toList := by
  cases ts with
  | nil => simp [join]
  | cons t ts => simp [toList_join_cons, h]

theorem toList_join (separator : String) (ts : List String) :
    (join separator ts).toList = separator.toList.intercalate (ts.map String.toList) := by
  induction ts with
  | nil => rfl
  | cons t ts ih =>
    cases ts with
    | nil => simp [join]
    | cons u ts =>
      rw [join, String.toList_append, String.toList_append, ih]
      exact List.intercalate_cons_cons.symm

theorem flatMap_intercalate {α β : Type} (f : α → List β) (separator : α) (ls : List (List α)) :
    ([separator].intercalate ls).flatMap f = (f separator).intercalate (ls.map (List.flatMap f)) := by
  induction ls with
  | nil => rfl
  | cons l ls ih =>
    cases ls with
    | nil => simp
    | cons l' ls =>
      rw [List.intercalate_cons_cons, List.flatMap_append, List.flatMap_append, List.flatMap_singleton, ih]
      exact List.intercalate_cons_cons.symm

theorem of_mem_intercalate {α : Type} {separator x : α} {parts : List (List α)}
    (h : x ∈ [separator].intercalate parts) : x = separator ∨ ∃ part ∈ parts, x ∈ part := by
  induction parts with
  | nil => cases h
  | cons part parts ih =>
    cases parts with
    | nil => exact .inr ⟨part, List.mem_cons_self, by simpa using h⟩
    | cons next parts =>
      rw [List.intercalate_cons_cons, List.mem_append, List.mem_append, List.mem_singleton] at h
      rcases h with (h | h) | h
      · exact .inr ⟨part, List.mem_cons_self, h⟩
      · exact .inl h
      · obtain h | ⟨other, hother, hx⟩ := ih h
        · exact .inl h
        · exact .inr ⟨other, List.mem_cons_of_mem part hother, hx⟩

theorem mem_intercalate {α : Type} {separator x : α} {part : List α} {parts : List (List α)} (hpart : part ∈ parts)
    (hx : x ∈ part) : x ∈ [separator].intercalate parts := by
  induction parts with
  | nil => cases hpart
  | cons first parts ih =>
    cases parts with
    | nil =>
      obtain rfl := List.mem_singleton.1 hpart
      simpa using hx
    | cons next parts =>
      rw [List.intercalate_cons_cons]
      rcases List.mem_cons.1 hpart with rfl | hpart
      · exact List.mem_append_left _ (List.mem_append_left _ hx)
      · exact List.mem_append_right _ (ih hpart)

/-! ## Lines -/

/-- A character that neither breaks a line nor goes with a line break. -/
def KeepsLine (c : Char) : Prop := c ≠ '\n' ∧ c ≠ '\r'

instance (c : Char) : Decidable (KeepsLine c) := inferInstanceAs (Decidable (_ ∧ _))

theorem lines_cons {c : Char} (cs : List Char) (hc : c ≠ '\n') (hcs : ∀ y, c = '\r' → cs ≠ '\n' :: y) :
    ∃ l ls, lines (c :: cs) = (c :: l) :: ls ∧ (lines cs = l :: ls ∨ lines cs = [] ∧ l = [] ∧ ls = []) := by
  rw [lines]
  · cases lines cs with
    | nil => exact ⟨[], [], rfl, .inr ⟨rfl, rfl, rfl⟩⟩
    | cons l ls => exact ⟨l, ls, rfl, .inl rfl⟩
  · exact hc
  · exact hcs

/-- A piece at the start of a text that no line break ends is at the start of the first
line. -/
theorem lines_append (m : List Char) {d : Char} (y : List Char) (hm : '\n' ∉ m) (hd : KeepsLine d) :
    ∃ l ls, lines (m ++ d :: y) = l :: ls ∧ m ++ [d] <+: l := by
  induction m with
  | nil =>
    obtain ⟨l, ls, hl, -⟩ := lines_cons y hd.1 (fun _ h => absurd h hd.2)
    exact ⟨d :: l, ls, hl, by simp⟩
  | cons a m ih =>
    simp only [List.mem_cons, not_or] at hm
    obtain ⟨l, ls, hl, hp⟩ := ih hm.2
    have hnext : ∀ z, m ++ d :: y ≠ '\n' :: z := by
      intro z hz
      cases m with
      | nil => exact hd.1 (List.cons_eq_cons.1 hz).1
      | cons b m => exact hm.2 ((List.cons_eq_cons.1 hz).1 ▸ List.mem_cons_self)
    obtain ⟨l', ls', hl', hrest⟩ := lines_cons _ (Ne.symm hm.1) (fun z _ => hnext z)
    rw [hl] at hrest
    rcases hrest with hrest | ⟨hrest, -, -⟩
    · obtain ⟨rfl, rfl⟩ := List.cons_eq_cons.1 hrest
      exact ⟨a :: l, ls, hl', List.cons_prefix_cons.2 ⟨rfl, hp⟩⟩
    · cases hrest

/-- A piece of a line stays one when a character is put in front of the text. -/
theorem lines_infix_cons {a : Char} {cs w l : List Char} (ha : a ≠ '\n') (hcs : ∀ y, a = '\r' → cs ≠ '\n' :: y)
    (hl : l ∈ lines cs) (hw : w <:+: l) : ∃ l' ∈ lines (a :: cs), w <:+: l' := by
  obtain ⟨first, rest, he, hrest⟩ := lines_cons cs ha hcs
  rw [he]
  rcases hrest with hrest | ⟨hrest, -, -⟩
  · rw [hrest] at hl
    rcases List.mem_cons.1 hl with rfl | hl
    · exact ⟨a :: l, List.mem_cons_self, List.infix_cons hw⟩
    · exact ⟨l, List.mem_cons_of_mem _ hl, hw⟩
  · rw [hrest] at hl
    cases hl

/-- A piece without line breaks, between two characters that keep the line, is part of
one line. -/
theorem lines_infix {c d : Char} {m : List Char} (hc : KeepsLine c) (hm : '\n' ∉ m) (hd : KeepsLine d)
    {x : List Char} (h : c :: m ++ [d] <:+: x) : ∃ l ∈ lines x, c :: m ++ [d] <:+: l := by
  -- The piece does not start with a line break, and one that starts at another character
  -- is at the start of a line.
  have hbreak : ∀ {a : Char} {y : List Char}, a ≠ c → c :: m ++ [d] <:+: a :: y → c :: m ++ [d] <:+: y := by
    intro a y hne h
    rcases List.infix_cons_iff.1 h with h | h
    · exact absurd (List.cons_prefix_cons.1 h).1.symm hne
    · exact h
  have hchar : ∀ {a : Char} {cs : List Char}, a ≠ '\n' → (∀ y, a = '\r' → cs ≠ '\n' :: y) →
      (c :: m ++ [d] <:+: cs → ∃ l ∈ lines cs, c :: m ++ [d] <:+: l) → c :: m ++ [d] <:+: a :: cs →
      ∃ l ∈ lines (a :: cs), c :: m ++ [d] <:+: l := by
    intro a cs ha hcs ih h
    rcases List.infix_cons_iff.1 h with ⟨y, h⟩ | h
    · obtain ⟨l, ls, hl, hp⟩ := lines_append (c :: m) y (by simp [hm, Ne.symm hc.1]) hd
      rw [← h, List.append_assoc, List.singleton_append, hl]
      exact ⟨l, List.mem_cons_self, hp.isInfix⟩
    · obtain ⟨l, hl, hw⟩ := ih h
      exact lines_infix_cons ha hcs hl hw
  induction x using lines.induct with
  | case1 => simp at h
  | case2 cs ih =>
    obtain ⟨l, hl, hw⟩ := ih (hbreak (Ne.symm hc.1) h)
    exact ⟨l, List.mem_cons_of_mem _ hl, hw⟩
  | case3 cs ih =>
    obtain ⟨l, hl, hw⟩ := ih (hbreak (Ne.symm hc.1) (hbreak (Ne.symm hc.2) h))
    exact ⟨l, List.mem_cons_of_mem _ hl, hw⟩
  | case4 a cs hn hr _ ih => exact hchar hn hr ih h
  | case5 a cs hn hr _ _ _ ih => exact hchar hn hr ih h

theorem infix_indentLine (l : List Char) : l <:+: indentLine l := by
  cases l with
  | nil => exact List.infix_refl _
  | cons c cs => exact (List.suffix_append [' ', ' '] (c :: cs)).isInfix

theorem infix_indent {s : String} {l : List Char} (h : l ∈ lines s.toList) : l <:+: (indent s).toList := by
  have hm := infix_join "\n" (List.mem_map_of_mem (f := fun l => String.ofList (indentLine l)) h)
  rw [String.toList_ofList] at hm
  exact (infix_indentLine l).trans hm

/-! ## Shielding -/

theorem shieldChars_append (a b : List Char) : shieldChars (a ++ b) = shieldChars a ++ shieldChars b := by
  induction a with
  | nil => rfl
  | cons c a ih =>
    rw [List.cons_append, shieldChars, shieldChars]
    split
    · rw [ih]; rfl
    · split
      · rw [ih]; rfl
      · rw [ih]; rfl

theorem shieldChars_unbroken (cs : List Char) : '\n' ∉ shieldChars cs := by
  induction cs with
  | nil => simp [shieldChars]
  | cons c cs ih =>
    rw [shieldChars]
    split
    · simp [ih, marker]
    · split
      · simp [ih, marker]
      · rename_i hc _
        simp [ih, Ne.symm hc]

theorem shieldChars_of_plain {cs : List Char} (h : ∀ c ∈ cs, c ≠ '\n' ∧ c ≠ marker) : shieldChars cs = cs := by
  induction cs with
  | nil => rfl
  | cons c cs ih =>
    obtain ⟨hn, hm⟩ := h c List.mem_cons_self
    rw [shieldChars, if_neg hn, if_neg hm, ih fun d hd => h d (List.mem_cons_of_mem _ hd)]

theorem unshieldChars_cons {c : Char} (hc : c ≠ marker) (cs : List Char) :
    unshieldChars (c :: cs) = c :: unshieldChars cs := by
  cases cs with
  | nil => rfl
  | cons d cs => rw [unshieldChars, if_neg hc]

/-- Reading a shielded text back gives it and goes on right after it. -/
theorem unshieldChars_shieldChars (t rest : List Char) :
    unshieldChars (shieldChars t ++ rest) = t ++ unshieldChars rest := by
  induction t with
  | nil => rfl
  | cons c t ih =>
    rw [shieldChars]
    split
    · rename_i hc
      rw [List.cons_append, List.cons_append, unshieldChars, if_pos rfl, if_pos rfl, ih, hc, List.cons_append]
    · split
      · rename_i hc
        have hn : marker ≠ 'n' := by decide
        rw [List.cons_append, List.cons_append, unshieldChars, if_pos rfl, if_neg hn, if_pos rfl, ih, hc,
          List.cons_append]
      · rename_i hc
        rw [List.cons_append, unshieldChars_cons hc, ih, List.cons_append]

/-- After a character other than the marker, reading goes on with the next character,
whatever stands before. -/
theorem unshieldChars_append (p : List Char) {c : Char} (hc : c ≠ marker) (rest : List Char) :
    ∃ q, unshieldChars (p ++ c :: rest) = q ++ unshieldChars rest := by
  induction p using unshieldChars.induct with
  | case1 => exact ⟨[c], unshieldChars_cons hc rest⟩
  | case2 a =>
    -- A marker right before `c` is read together with it; `rest` is untouched either way.
    rw [List.singleton_append, unshieldChars]
    split
    · split
      · exact ⟨['\n'], rfl⟩
      · exact ⟨[a, c], rfl⟩
    · exact ⟨[a, c], by rw [unshieldChars_cons hc]; rfl⟩
  | case3 p ih =>
    obtain ⟨q, hq⟩ := ih
    exact ⟨'\n' :: q, by simp [unshieldChars, hq]⟩
  | case4 p h ih =>
    obtain ⟨q, hq⟩ := ih
    exact ⟨marker :: q, by simp [unshieldChars, hq, h]⟩
  | case5 b p hn hm ih =>
    obtain ⟨q, hq⟩ := ih
    exact ⟨marker :: b :: q, by simp [unshieldChars, hq, hn, hm]⟩
  | case6 a b p ha ih =>
    obtain ⟨q, hq⟩ := ih
    exact ⟨a :: q, by rw [List.cons_append, List.cons_append, unshieldChars_cons ha]; simpa using hq⟩

/-- A character that is no part of an escape is read as itself, and what stands before it is
read without looking at it. -/
theorem unshieldChars_split (p : List Char) {c : Char} (hm : c ≠ marker) (hn : c ≠ 'n') (rest : List Char) :
    unshieldChars (p ++ c :: rest) = unshieldChars p ++ c :: unshieldChars rest := by
  induction p using unshieldChars.induct with
  | case1 => exact unshieldChars_cons hm rest
  | case2 a =>
    -- a marker at the end of what stands before stays in either reading
    show unshieldChars (a :: c :: rest) = a :: c :: unshieldChars rest
    rw [unshieldChars, if_neg hn, if_neg hm, unshieldChars_cons hm, ite_self]
  | case3 p ih => simp [unshieldChars, ih]
  | case4 p h ih => simp [unshieldChars, ih, h]
  | case5 b p hb hb' ih => simp [unshieldChars, ih, hb, hb']
  | case6 a b p ha ih =>
    rw [List.cons_append, unshieldChars_cons ha, ih, unshieldChars_cons ha, List.cons_append]

/-! ## Texts kept by the layout -/

/-- The text stands in `s` in its shielded form, away from line ends and after a
character that is no marker. -/
def Shielded (t s : String) : Prop :=
  ∃ c d, KeepsLine c ∧ c ≠ marker ∧ KeepsLine d ∧ c :: shieldChars t.toList ++ [d] <:+: s.toList

/-- The text stands in `s` as it is, between two characters that shielding keeps away
from it. -/
def Enclosed (t s : String) : Prop :=
  ∃ c d, c ≠ '\r' ∧ c ≠ marker ∧ d ≠ '\r' ∧ c :: t.toList ++ [d] <:+: s.toList

/-- A text whose last character can stand before one that is shielded. -/
def Opens (a : String) : Prop := ∃ c, a.toList.getLast? = some c ∧ c ≠ '\r' ∧ c ≠ marker

/-- A text whose first character can stand after one that is shielded. -/
def Closes (b : String) : Prop := ∃ d, b.toList.head? = some d ∧ d ≠ '\r'

theorem Opens.append_left {b : String} (h : Opens b) (a : String) : Opens (a ++ b) := by
  obtain ⟨c, hb, hc⟩ := h
  exact ⟨c, by rw [String.toList_append, List.getLast?_append, hb, Option.some_or], hc⟩

theorem Closes.append_right {a : String} (h : Closes a) (b : String) : Closes (a ++ b) := by
  obtain ⟨d, ha, hd⟩ := h
  exact ⟨d, by rw [String.toList_append, List.head?_append, ha, Option.some_or], hd⟩

/-! ### Enclosed texts -/

theorem Enclosed.between {a b : String} (ha : Opens a) (hb : Closes b) (t : String) : Enclosed t (a ++ t ++ b) := by
  obtain ⟨c, ha, hr, hm⟩ := ha
  obtain ⟨d, hb, hd⟩ := hb
  obtain ⟨a', ha⟩ := List.getLast?_eq_some_iff.1 ha
  obtain ⟨b', hb⟩ := List.head?_eq_some_iff.1 hb
  refine ⟨c, d, hr, hm, hd, a', b', ?_⟩
  rw [String.toList_append, String.toList_append, ha, hb]
  simp

theorem Enclosed.of_infix {t s s' : String} (h : Enclosed t s) (hs : s.toList <:+: s'.toList) : Enclosed t s' := by
  obtain ⟨c, d, hr, hm, hd, hi⟩ := h
  exact ⟨c, d, hr, hm, hd, hi.trans hs⟩

theorem Enclosed.append_left {t s : String} (h : Enclosed t s) (a : String) : Enclosed t (a ++ s) :=
  h.of_infix (by rw [String.toList_append]; exact (List.suffix_append _ _).isInfix)

theorem Enclosed.append_right {t s : String} (h : Enclosed t s) (a : String) : Enclosed t (s ++ a) :=
  h.of_infix (by rw [String.toList_append]; exact (List.prefix_append _ _).isInfix)

/-- The end of an enclosed text, after a character that can stand before it. -/
theorem Enclosed.drop_left {a t s : String} (ha : Opens a) (h : Enclosed (a ++ t) s) : Enclosed t s := by
  obtain ⟨c, ha, hr, hm⟩ := ha
  obtain ⟨a', ha⟩ := List.getLast?_eq_some_iff.1 ha
  obtain ⟨e, d, -, -, hd, hi⟩ := h
  refine ⟨c, d, hr, hm, hd, List.IsInfix.trans ⟨e :: a', [], ?_⟩ hi⟩
  rw [String.toList_append, ha]
  simp

/-- A text of a list whose texts are joined between two ends. -/
theorem Enclosed.join {a b separator : String} (ha : Opens a) (hb : Closes b) (ho : Opens separator)
    (hc : Closes separator) {t : String} {ts : List String} (h : t ∈ ts) :
    Enclosed t (a ++ Text.join separator ts ++ b) := by
  obtain ⟨p, q, hpq, hp, hq⟩ := join_split separator h
  have hopen : Opens (a ++ p) := by
    rcases hp with rfl | ⟨p', rfl⟩
    · simpa using ha
    · exact (ho.append_left p').append_left a
  have hclose : Closes (q ++ b) := by
    rcases hq with rfl | ⟨q', rfl⟩
    · simpa using hb
    · exact (hc.append_right q').append_right b
  have he := Enclosed.between hopen hclose t
  simpa only [hpq, String.append_assoc] using he

/-! ### Shielded texts -/

/-- A shielded text between two others, at whose borders it touches no line end. -/
theorem Shielded.between {a b : String} {c d : Char} (ha : a.toList.getLast? = some c) (hb : b.toList.head? = some d)
    (hc : KeepsLine c ∧ c ≠ marker) (hd : KeepsLine d) (t : String) : Shielded t (a ++ shield t ++ b) := by
  obtain ⟨a', ha⟩ := List.getLast?_eq_some_iff.1 ha
  obtain ⟨b', hb⟩ := List.head?_eq_some_iff.1 hb
  refine ⟨c, d, hc.1, hc.2, hd, a', b', ?_⟩
  rw [String.toList_append, String.toList_append, ha, hb, shield, String.toList_ofList]
  simp

theorem Shielded.of_infix {t s s' : String} (h : Shielded t s) (hs : s.toList <:+: s'.toList) : Shielded t s' := by
  obtain ⟨c, d, hc, hm, hd, hi⟩ := h
  exact ⟨c, d, hc, hm, hd, hi.trans hs⟩

theorem Shielded.append_left {t s : String} (h : Shielded t s) (a : String) : Shielded t (a ++ s) :=
  h.of_infix (by rw [String.toList_append]; exact (List.suffix_append _ _).isInfix)

theorem Shielded.append_right {t s : String} (h : Shielded t s) (a : String) : Shielded t (s ++ a) :=
  h.of_infix (by rw [String.toList_append]; exact (List.prefix_append _ _).isInfix)

theorem Shielded.join {t s : String} (h : Shielded t s) {ts : List String} (hs : s ∈ ts) (separator : String) :
    Shielded t (Text.join separator ts) :=
  h.of_infix (infix_join separator hs)

/-- Indenting leaves a shielded text alone. -/
theorem Shielded.indent {t s : String} (h : Shielded t s) : Shielded t (Text.indent s) := by
  obtain ⟨c, d, hc, hm, hd, hi⟩ := h
  obtain ⟨l, hl, hw⟩ := lines_infix hc (shieldChars_unbroken _) hd hi
  exact ⟨c, d, hc, hm, hd, hw.trans (infix_indent hl)⟩

theorem shieldChars_last {c : Char} (hr : c ≠ '\r') (hm : c ≠ marker) :
    ∃ a c', shieldChars [c] = a ++ [c'] ∧ KeepsLine c' ∧ c' ≠ marker := by
  by_cases hn : c = '\n'
  · subst hn
    exact ⟨[marker], 'n', rfl, by decide, by decide⟩
  · exact ⟨[], c, by simp [shieldChars, hn, hm], ⟨hn, hr⟩, hm⟩

theorem shieldChars_first {d : Char} (hr : d ≠ '\r') : ∃ d' b, shieldChars [d] = d' :: b ∧ KeepsLine d' := by
  by_cases hn : d = '\n'
  · subst hn
    exact ⟨marker, ['n'], rfl, by decide⟩
  · by_cases hm : d = marker
    · subst hm
      exact ⟨marker, [marker], rfl, by decide⟩
    · exact ⟨d, [], by simp [shieldChars, hn, hm], hn, hr⟩

/-- A text that stands in a shielded one is shielded there itself. -/
theorem Enclosed.shield {t s : String} (h : Enclosed t s) : Shielded t (Text.shield s) := by
  obtain ⟨c, d, hr, hm, hd, a, b, hab⟩ := h
  obtain ⟨a', c', ha', hc', hm'⟩ := shieldChars_last hr hm
  obtain ⟨d', b', hb', hd'⟩ := shieldChars_first hd
  refine ⟨c', d', hc', hm', hd', shieldChars a ++ a', b' ++ shieldChars b, ?_⟩
  have hsplit : s.toList = a ++ ([c] ++ (t.toList ++ ([d] ++ b))) := by
    rw [← hab]
    simp
  rw [Text.shield, String.toList_ofList, hsplit, shieldChars_append, shieldChars_append, shieldChars_append,
    shieldChars_append, ha', hb']
  simp only [List.append_assoc, List.cons_append, List.nil_append]

/-- Reading back gives every shielded text unchanged. -/
theorem Shielded.unshield {t s : String} (h : Shielded t s) : t.toList <:+: (Text.unshield s).toList := by
  obtain ⟨c, d, -, hm, -, a, b, hab⟩ := h
  rw [Text.unshield, String.toList_ofList, ← hab]
  obtain ⟨q, hq⟩ := unshieldChars_append a hm (shieldChars t.toList ++ ([d] ++ b))
  simp only [List.append_assoc, List.cons_append, List.nil_append] at hq ⊢
  rw [hq, unshieldChars_shieldChars, ← List.append_assoc]
  exact List.infix_append _ _ _

end ViewTree.Text
