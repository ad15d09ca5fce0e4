import ViewTree.Proofs.Text.Shield

/-!
# Texts one after the other

`InOrder ts cs` says that the texts `ts` stand in `cs` in this order and do not overlap.
A text that fills lines of its own in an indented block is followed by a line break of
the layout, and the carriage return before a line break goes with it: of a text that
ends in one, everything else is kept (`dropReturn`). Texts that are lines of a block
stand in it one after the other in their shielded form (`ShieldedInOrder.of_sublist`),
and `unshield` gives all of them back (`ShieldedInOrder.unshield`).
-/

namespace ViewTree.Text

/-- The texts stand in the characters one after the other. -/
def InOrder : List String → List Char → Prop
  | [], _ => True
  | t :: ts, cs => ∃ before rest, cs = before ++ (t.toList ++ rest) ∧ InOrder ts rest

/-- The texts stand in the characters one after the other in their shielded form, each
after a character that is no marker. -/
def ShieldedInOrder : List String → List Char → Prop
  | [], _ => True
  | t :: ts, cs => ∃ before c rest, c ≠ marker ∧ cs = before ++ c :: (shieldChars t.toList ++ rest) ∧
      ShieldedInOrder ts rest

theorem InOrder.append_left {ts : List String} {cs : List Char} (h : InOrder ts cs) (more : List Char) :
    InOrder ts (more ++ cs) := by
  cases ts with
  | nil => trivial
  | cons t ts =>
    obtain ⟨before, rest, rfl, hts⟩ := h
    exact ⟨more ++ before, rest, by simp, hts⟩

theorem InOrder.append_right {ts : List String} {cs : List Char} (h : InOrder ts cs) (more : List Char) :
    InOrder ts (cs ++ more) := by
  induction ts generalizing cs with
  | nil => trivial
  | cons t ts ih =>
    obtain ⟨before, rest, rfl, hts⟩ := h
    exact ⟨before, rest ++ more, by simp, ih hts⟩

/-- Each of the texts is a part of the characters. -/
theorem InOrder.isInfix {ts : List String} {cs : List Char} (h : InOrder ts cs) {t : String} (ht : t ∈ ts) :
    t.toList <:+: cs := by
  induction ts generalizing cs with
  | nil => cases ht
  | cons u ts ih =>
    obtain ⟨before, rest, rfl, hts⟩ := h
    rcases List.mem_cons.1 ht with rfl | ht
    · exact ⟨before, rest, by simp⟩
    · exact (ih hts ht).trans ((List.suffix_append _ _).trans (List.suffix_append _ _)).isInfix

theorem InOrder.self (t : String) : InOrder [t] t.toList := ⟨[], [], by simp, trivial⟩

theorem InOrder.append {ts us : List String} {cs ds : List Char} (ht : InOrder ts cs) (hu : InOrder us ds) :
    InOrder (ts ++ us) (cs ++ ds) := by
  induction ts generalizing cs with
  | nil => exact hu.append_left cs
  | cons t ts ih =>
    obtain ⟨before, rest, rfl, hts⟩ := ht
    exact ⟨before, rest ++ ds, by simp, ih hts⟩

/-- Joining more texts leaves those before in one piece. -/
theorem join_append (separator : String) (ts us : List String) :
    ∃ middle, join separator (ts ++ us) = join separator ts ++ middle ++ join separator us := by
  induction ts with
  | nil => exact ⟨"", by simp [join]⟩
  | cons t ts ih =>
    obtain ⟨middle, hmiddle⟩ := ih
    cases ts with
    | nil =>
      cases us with
      | nil => exact ⟨"", by simp [join]⟩
      | cons u us => exact ⟨separator, rfl⟩
    | cons t' ts =>
      refine ⟨middle, ?_⟩
      rw [List.cons_append, List.cons_append, join, join, ← List.cons_append, hmiddle]
      simp only [String.append_assoc]

/-- What stands in the pieces of each item in order does so once all pieces are joined. -/
theorem InOrder.join_flatMap {α : Type} {texts pieces : α → List String} (separator : String) {items : List α}
    (h : ∀ a ∈ items, InOrder (texts a) (Text.join separator (pieces a)).toList) :
    InOrder (items.flatMap texts) (Text.join separator (items.flatMap pieces)).toList := by
  induction items with
  | nil => trivial
  | cons a items ih =>
    obtain ⟨middle, hjoin⟩ := join_append separator (pieces a) (items.flatMap pieces)
    rw [List.flatMap_cons, List.flatMap_cons, hjoin, String.toList_append, String.toList_append, List.append_assoc]
    refine (h a List.mem_cons_self).append ?_
    exact (ih fun b hb => h b (List.mem_cons_of_mem _ hb)).append_left _

theorem InOrder.join_map {α : Type} {texts : α → List String} {piece : α → String} (separator : String)
    {items : List α} (h : ∀ a ∈ items, InOrder (texts a) (piece a).toList) :
    InOrder (items.flatMap texts) (Text.join separator (items.map piece)).toList := by
  rw [List.map_eq_flatMap]
  exact join_flatMap separator h

namespace ShieldedInOrder

variable {ts : List String} {cs : List Char}

theorem append_left (h : ShieldedInOrder ts cs) (more : List Char) : ShieldedInOrder ts (more ++ cs) := by
  cases ts with
  | nil => trivial
  | cons t ts =>
    obtain ⟨before, c, rest, hc, rfl, hts⟩ := h
    exact ⟨more ++ before, c, rest, hc, by simp, hts⟩

theorem append_right (h : ShieldedInOrder ts cs) (more : List Char) : ShieldedInOrder ts (cs ++ more) := by
  induction ts generalizing cs with
  | nil => trivial
  | cons t ts ih =>
    obtain ⟨before, c, rest, hc, rfl, hts⟩ := h
    exact ⟨before, c, rest ++ more, hc, by simp, ih hts⟩

/-- Reading shielded texts back gives them in the same order. -/
theorem unshield (h : ShieldedInOrder ts cs) : InOrder ts (unshieldChars cs) := by
  induction ts generalizing cs with
  | nil => trivial
  | cons t ts ih =>
    obtain ⟨before, c, rest, hc, rfl, hts⟩ := h
    obtain ⟨q, hq⟩ := unshieldChars_append before hc (shieldChars t.toList ++ rest)
    refine ⟨q, unshieldChars rest, ?_, ih hts⟩
    rw [hq, unshieldChars_shieldChars]

/-- Shielded texts that are lines of a block, in order, stand one after the other in it. -/
theorem of_sublist {lines : List (List Char)} (h : (ts.map fun t => shieldChars t.toList).Sublist lines) :
    ShieldedInOrder ts (lines.flatMap fun l => '\n' :: indentLine l) := by
  induction lines generalizing ts with
  | nil =>
    rw [List.sublist_nil, List.map_eq_nil_iff] at h
    subst h
    trivial
  | cons l lines ih =>
    rw [List.flatMap_cons]
    rcases List.sublist_cons_iff.1 h with h | ⟨rest, hrest, h⟩
    · exact (ih h).append_left _
    · obtain ⟨t, ts, rfl, rfl, rfl⟩ := List.map_eq_cons_iff.1 hrest
      -- an empty line gets no blanks, so the text then stands right after the line break
      cases ht : shieldChars t.toList with
      | nil => exact ⟨[], '\n', _, by decide, by rw [ht]; rfl, ih h⟩
      | cons c cs => exact ⟨['\n', ' '], ' ', _, by decide, by rw [ht]; rfl, ih h⟩

end ShieldedInOrder

/-! ## Lines of joined texts -/

/-- The characters without a carriage return at their end. -/
def dropReturnChars (cs : List Char) : List Char := if cs.getLast? = some '\r' then cs.dropLast else cs

/-- The text without a carriage return at its end; further ones before it stay. -/
def dropReturn (s : String) : String := String.ofList (dropReturnChars s.toList)

theorem dropReturn_of_ne {s : String} (h : s.toList.getLast? ≠ some '\r') : dropReturn s = s := by
  rw [dropReturn, dropReturnChars, if_neg h, String.ofList_toList]

theorem lines_cons_eq {c : Char} {cs : List Char} (hc : c ≠ '\n') (hcs : ∀ y, c = '\r' → cs ≠ '\n' :: y) :
    lines (c :: cs) = (c :: (lines cs).headD []) :: (lines cs).tail := by
  rw [lines]
  · cases lines cs with
    | nil => rfl
    | cons l ls => rfl
  · exact hc
  · exact hcs

theorem lines_ne_nil {cs : List Char} (h : cs ≠ []) : lines cs ≠ [] := by
  unfold lines
  split
  · contradiction
  · simp
  · simp
  · split <;> simp

/-- A line has no line break. -/
theorem unbroken_of_mem_lines {cs l : List Char} (h : l ∈ lines cs) : '\n' ∉ l := by
  have hchar : ∀ (c : Char) (cs : List Char), c ≠ '\n' → (∀ y, c = '\r' → cs ≠ '\n' :: y) →
      (∀ l ∈ lines cs, '\n' ∉ l) → ∀ l ∈ lines (c :: cs), '\n' ∉ l := by
    intro c cs hc hcs ih l hl
    rw [lines_cons_eq hc hcs] at hl
    rcases List.mem_cons.1 hl with rfl | hl
    · cases hlines : lines cs with
      | nil => simpa using Ne.symm hc
      | cons first rest =>
        have hfirst := ih first (by rw [hlines]; exact List.mem_cons_self)
        simpa [Ne.symm hc] using hfirst
    · exact ih l (List.mem_of_mem_tail hl)
  induction cs using lines.induct generalizing l with
  | case1 => cases h
  | case2 cs ih =>
    rcases List.mem_cons.1 h with rfl | h
    · exact List.not_mem_nil
    · exact ih h
  | case3 cs ih =>
    rcases List.mem_cons.1 h with rfl | h
    · exact List.not_mem_nil
    · exact ih h
  | case4 c cs hn hr _ ih => exact hchar c cs hn hr (fun _ => ih) l h
  | case5 c cs hn hr _ _ _ ih => exact hchar c cs hn hr (fun _ => ih) l h

/-- Lines end at line breaks, whatever follows. -/
theorem lines_append_break (a b : List Char) : lines (a ++ '\n' :: b) = lines (a ++ ['\n']) ++ lines b := by
  have hchar : ∀ (c : Char) (cs : List Char), c ≠ '\n' → (∀ y, c = '\r' → cs ≠ '\n' :: y) →
      lines (cs ++ '\n' :: b) = lines (cs ++ ['\n']) ++ lines b →
      lines (c :: cs ++ '\n' :: b) = lines (c :: cs ++ ['\n']) ++ lines b := by
    intro c cs hc hcs ih
    cases cs with
    | nil =>
      by_cases hr : c = '\r'
      · subst hr
        simp [lines]
      · simp [lines_cons_eq hc (fun _ h => absurd h hr), lines]
    | cons d cs =>
      have hnext : ∀ more y, c = '\r' → d :: cs ++ more ≠ '\n' :: y := by
        intro more y hr h
        exact hcs cs hr (by rw [(List.cons_eq_cons.1 h).1])
      rw [List.cons_append (a := c), List.cons_append (a := c), lines_cons_eq hc (hnext _),
        lines_cons_eq hc (hnext _), ih]
      cases hl : lines (d :: cs ++ ['\n']) with
      | nil => exact absurd hl (lines_ne_nil (by simp))
      | cons l ls => rfl
  induction a using lines.induct with
  | case1 => simp [lines]
  | case2 cs ih => simp [lines, ih]
  | case3 cs ih => simp [lines, ih]
  | case4 c cs hn hr _ ih => exact hchar c cs hn hr ih
  | case5 c cs hn hr _ _ _ ih => exact hchar c cs hn hr ih

/-- A piece without line breaks is a line, less a carriage return at its end. -/
theorem lines_unbroken {cs : List Char} (h : '\n' ∉ cs) : lines (cs ++ ['\n']) = [dropReturnChars cs] := by
  induction cs with
  | nil => rfl
  | cons c cs ih =>
    simp only [List.mem_cons, not_or] at h
    cases cs with
    | nil =>
      by_cases hr : c = '\r'
      · subst hr
        rfl
      · rw [List.singleton_append, lines_cons_eq (Ne.symm h.1) (fun _ he => absurd he hr)]
        simp [lines, dropReturnChars, hr]
    | cons d cs =>
      have hnext : ∀ y, c = '\r' → d :: cs ++ ['\n'] ≠ '\n' :: y := by
        intro y _ he
        exact h.2 ((List.cons_eq_cons.1 he).1 ▸ List.mem_cons_self)
      rw [List.cons_append (a := c), lines_cons_eq (Ne.symm h.1) hnext, ih h.2]
      simp only [dropReturnChars, List.getLast?_cons_cons, List.dropLast_cons_cons]
      split <;> rfl

/-- Without line breaks, a text is one line. -/
theorem lines_singleton {cs : List Char} (hne : cs ≠ []) (h : '\n' ∉ cs) : lines cs = [cs] := by
  induction cs with
  | nil => exact absurd rfl hne
  | cons c cs ih =>
    simp only [List.mem_cons, not_or] at h
    have hnext : ∀ y, c = '\r' → cs ≠ '\n' :: y := by
      rintro y - rfl
      exact h.2 List.mem_cons_self
    rw [lines_cons_eq (Ne.symm h.1) hnext]
    cases cs with
    | nil => rfl
    | cons d cs => rw [ih (List.cons_ne_nil d cs) h.2]; rfl

theorem dropReturnChars_append {front : List Char} {c : Char} (h : c ≠ '\r') :
    dropReturnChars (front ++ [c]) = front ++ [c] := by
  simp [dropReturnChars, h]

/-- A carriage return at the end can be dropped before or after shielding. -/
theorem dropReturnChars_shieldChars (cs : List Char) :
    dropReturnChars (shieldChars cs) = shieldChars (dropReturnChars cs) := by
  rcases List.eq_nil_or_concat' cs with rfl | ⟨front, c, rfl⟩
  · rfl
  · rw [shieldChars_append]
    by_cases hr : c = '\r'
    · subst hr
      have hreturn : shieldChars ['\r'] = ['\r'] := by decide
      rw [hreturn]
      simp [dropReturnChars]
    · have hlast : ∃ a d, shieldChars [c] = a ++ [d] ∧ d ≠ '\r' := by
        simp only [shieldChars]
        split
        · exact ⟨[marker], 'n', rfl, by decide⟩
        · split
          · exact ⟨[marker], marker, rfl, by decide⟩
          · exact ⟨[], c, rfl, hr⟩
      obtain ⟨a, d, hshield, hd⟩ := hlast
      rw [dropReturnChars_append hr, shieldChars_append, hshield, ← List.append_assoc, dropReturnChars_append hd]

/-! ## Blocks -/

/-- The lines of texts that are joined by line breaks. -/
theorem lines_join (ts : List String) (last : String) :
    lines (join "\n" (ts ++ [last])).toList =
      (ts.flatMap fun t => lines (t.toList ++ ['\n'])) ++ lines last.toList := by
  induction ts with
  | nil => rfl
  | cons t ts ih =>
    have hjoin : join "\n" (t :: ts ++ [last]) = t ++ "\n" ++ join "\n" (ts ++ [last]) := by
      cases ts with
      | nil => rfl
      | cons u ts => rfl
    rw [hjoin, List.flatMap_cons, List.append_assoc, ← ih]
    simp only [String.toList_append, List.append_assoc]
    exact lines_append_break _ _

theorem join_breaks {ts : List String} (h : ts ≠ []) :
    '\n' :: (join "\n" ts).toList = ts.flatMap fun t => '\n' :: t.toList := by
  obtain ⟨t, ts, rfl⟩ := List.exists_cons_of_ne_nil h
  rw [toList_join_cons, List.flatMap_cons]
  rfl

/-- An indented block after a line break: its lines, each after a line break. -/
theorem indent_breaks {s : String} (h : s ≠ "") :
    '\n' :: (indent s).toList = (lines s.toList).flatMap fun l => '\n' :: indentLine l := by
  have hne : lines s.toList ≠ [] := lines_ne_nil (by simpa using h)
  unfold indent
  rw [join_breaks (by simpa using hne), List.flatMap_map]
  simp

/-- Shielded texts that are lines of a text, in order, stay so when the text is indented. -/
theorem ShieldedInOrder.indent {ts : List String} {s : String}
    (h : (ts.map fun t => shieldChars t.toList).Sublist (lines s.toList)) :
    ShieldedInOrder ts ('\n' :: (Text.indent s).toList) := by
  by_cases hs : s = ""
  · subst hs
    have hnil : ts = [] := by simpa [lines] using h
    subst hnil
    trivial
  · rw [indent_breaks hs]
    exact of_sublist h

/-! ## Pieces that start with shielded texts -/

section

variable {α : Type} {text piece : α → String} {separator : String}

/-- Pieces that start with shielded texts have them in order, each piece after a separator. -/
theorem ShieldedInOrder.of_pieces (hseparator : Opens separator) {items : List α}
    (h : ∀ a ∈ items, ∃ rest, (piece a).toList = shieldChars (text a).toList ++ rest) :
    ShieldedInOrder (items.map text) (items.flatMap fun a => separator.toList ++ (piece a).toList) := by
  obtain ⟨c, hlast, -, hmarker⟩ := hseparator
  obtain ⟨before, hsplit⟩ := List.getLast?_eq_some_iff.1 hlast
  induction items with
  | nil => trivial
  | cons a items ih =>
    obtain ⟨rest, hpiece⟩ := h a List.mem_cons_self
    refine ⟨before, c, _, hmarker, ?_, (ih fun b hb => h b (List.mem_cons_of_mem _ hb)).append_left rest⟩
    rw [List.flatMap_cons, hsplit, hpiece]
    simp

/-- Once pieces are joined, the shielded texts that they start with are read back in order. -/
theorem InOrder.of_pieces (hseparator : Opens separator) {items : List α}
    (h : ∀ a ∈ items, ∃ rest, (piece a).toList = shieldChars (text a).toList ++ rest) :
    InOrder (items.map text) (unshieldChars (join separator (items.map piece)).toList) := by
  cases items with
  | nil => trivial
  | cons a items =>
    obtain ⟨rest, hpiece⟩ := h a List.mem_cons_self
    have hitems := ShieldedInOrder.of_pieces hseparator fun b hb => h b (List.mem_cons_of_mem _ hb)
    refine ⟨[], _, ?_, (hitems.append_left rest).unshield⟩
    rw [List.map_cons, toList_join_cons, hpiece, List.append_assoc, unshieldChars_shieldChars, List.flatMap_map]
    rfl

end

end ViewTree.Text
