import Mathlib.Data.List.Chain
import ViewTree.Compile
import ViewTree.Proofs.Markup.Children
import ViewTree.Proofs.Markup.Pieces
import ViewTree.Proofs.Text.Blank
import ViewTree.Proofs.Text.InOrder

/-!
# Texts in the layout of an element

The children of an element stand on its line or on lines of their own. Around a string
between braces that changes nothing, but raw texts on lines of their own are lines of one
run, which are read with single blanks between them. So the text between the tags is what
the children say exactly if no two of them that are raw are neighbours
(`text_children_read`).
-/

namespace ViewTree

namespace Text

/-! ## Blocks of single lines -/

/-- A text that is one line as it stands. -/
def IsLine (s : String) : Prop := s ≠ "" ∧ '\n' ∉ s.toList ∧ dropReturnChars s.toList = s.toList

/-- Lines that are joined by line breaks are found again. -/
theorem lines_join_isLine {ts : List String} (h : ∀ t ∈ ts, IsLine t) :
    lines (join "\n" ts).toList = ts.map String.toList := by
  induction ts with
  | nil => rfl
  | cons t ts ih =>
    obtain ⟨hne, hunbroken, hreturn⟩ := h t List.mem_cons_self
    cases ts with
    | nil =>
      have hne' : t.toList ≠ [] := by simpa using hne
      exact lines_singleton hne' hunbroken
    | cons u ts =>
      have hjoin : (join "\n" (t :: u :: ts)).toList = t.toList ++ '\n' :: (join "\n" (u :: ts)).toList := by
        simp [join]
      rw [hjoin, lines_append_break, lines_unbroken hunbroken, hreturn, ih fun v hv => h v (List.mem_cons_of_mem t hv)]
      rfl

/-- Texts on indented lines of their own, each after a line break. -/
def spread (ts : List (List Char)) : List Char := ts.flatMap fun t => '\n' :: ' ' :: ' ' :: t

/-- Each text takes its line break and the two blanks. -/
theorem length_le_spread (ts : List (List Char)) : 3 * ts.length ≤ (spread ts).length := by
  induction ts with
  | nil => exact Nat.le_refl 0
  | cons t ts ih =>
    simp only [spread, List.flatMap_cons, List.length_append, List.length_cons] at ih ⊢
    omega

theorem spread_append (ts us : List (List Char)) : spread (ts ++ us) = spread ts ++ spread us := List.flatMap_append

/-- Lines that are joined by line breaks and indented are spread. -/
theorem indent_join_isLine {ts : List String} (hne : ts ≠ []) (h : ∀ t ∈ ts, IsLine t) :
    '\n' :: (indent (join "\n" ts)).toList = spread (ts.map String.toList) := by
  obtain ⟨t, ts, rfl⟩ := List.exists_cons_of_ne_nil hne
  have hjoin : join "\n" (t :: ts) ≠ "" := by
    obtain ⟨rest, hrest⟩ := join_cons "\n" t ts
    have ht := (h t List.mem_cons_self).1
    rw [hrest]
    simp [ht]
  rw [indent_breaks hjoin, lines_join_isLine h, spread, List.flatMap_map, List.flatMap_map]
  refine List.flatMap_congr fun u hu => ?_
  have hu' : u.toList ≠ [] := by simpa using (h u hu).1
  obtain ⟨c, cs, hcs⟩ := List.exists_cons_of_ne_nil hu'
  rw [hcs]
  rfl

/-- Shielded texts that are spread are read back one by one. -/
theorem unshieldChars_spread (ts : List (List Char)) (rest : List Char) :
    unshieldChars (spread (ts.map shieldChars) ++ rest) = spread ts ++ unshieldChars rest := by
  induction ts with
  | nil => rfl
  | cons t ts ih =>
    have hbreak : '\n' ≠ marker := by decide
    have hblank : ' ' ≠ marker := by decide
    simp only [spread, List.map_cons, List.flatMap_cons, List.cons_append, List.append_assoc] at ih ⊢
    rw [unshieldChars_cons hbreak, unshieldChars_cons hblank, unshieldChars_cons hblank, unshieldChars_shieldChars, ih]

end Text

namespace Markup

open Text

/-! ## Children that are texts -/

theorem textItem_last (s : String) : ∃ front c, (textItem s).toList = front ++ [c] ∧ c ≠ '\r' := by
  rw [textItem_eq]
  split
  · rename_i h
    rcases List.eq_nil_or_concat' s.toList with hnil | ⟨front, c, hlast⟩
    · exact absurd hnil h.ne_nil
    · refine ⟨front, c, hlast, ?_⟩
      rintro rfl
      exact absurd (h.isBreak '\r' (by rw [hlast]; simp)) (by decide)
  · exact ⟨'\x7b' :: (Json.quote s).toList, '\x7d', toList_braces _, by decide⟩

/-- A text child fits on a line. -/
theorem isLine_textItem (s : String) : IsLine (shield (textItem s)) := by
  obtain ⟨front, c, hlast, hc⟩ := textItem_last s
  have hreturn : dropReturnChars (shieldChars (textItem s).toList) = shieldChars (textItem s).toList := by
    rw [dropReturnChars_shieldChars, hlast, dropReturnChars_append hc]
  have hne : shieldChars (textItem s).toList ≠ [] := by
    rw [hlast, shieldChars_append]
    refine List.append_ne_nil_of_right_ne_nil _ ?_
    simp only [shieldChars]
    split
    · exact List.cons_ne_nil _ _
    · split <;> exact List.cons_ne_nil _ _
  refine ⟨?_, ?_, ?_⟩
  · rwa [shield, Ne, ← String.toList_inj, String.toList_ofList]
  · rw [shield, String.toList_ofList]
    exact shieldChars_unbroken _
  · rw [shield, String.toList_ofList]
    exact hreturn

/-- Items between tags stand there on the line of the tags or on lines of their own. -/
theorem elementText_items (tag : String) (attributes items : List String) (hne : items ≠ [])
    (hlines : ∀ i ∈ items, IsLine (shield i)) :
    ∃ inner, (unshield (elementText tag attributes (items.map shield))).toList =
        (unshield ("<" ++ tagStart tag attributes)).toList ++ '>' :: (inner ++ (unshield ("</" ++ tag ++ ">")).toList) ∧
      (inner = spread (items.map String.toList) ++ ['\n'] ∨ ∃ item, items = [item] ∧ inner = item.toList) := by
  obtain ⟨item, rest, rfl⟩ := List.exists_cons_of_ne_nil hne
  have hopening : ∀ cs, unshieldChars (("<" ++ tagStart tag attributes).toList ++ '>' :: cs) =
      (unshield ("<" ++ tagStart tag attributes)).toList ++ '>' :: unshieldChars cs := fun cs => by
    rw [unshieldChars_split _ (by decide) (by decide), unshield, String.toList_ofList]
  have hclosing : unshieldChars ("</" ++ tag ++ ">").toList = (unshield ("</" ++ tag ++ ">")).toList := by
    rw [unshield, String.toList_ofList]
  unfold elementText
  dsimp only
  rw [show (if attributes.isEmpty then tag else tag ++ " " ++ join " " attributes) = tagStart tag attributes from rfl,
    List.map_cons, wrap]
  split
  · rename_i hinline
    -- a single item on the line of the tags
    simp only [Bool.and_eq_true, beq_iff_eq, List.length_cons, List.length_map, Nat.add_eq_right,
      List.length_eq_zero_iff] at hinline
    obtain ⟨⟨rfl, -⟩, -⟩ := hinline
    refine ⟨item.toList, ?_, .inr ⟨item, rfl, rfl⟩⟩
    have htext : ("<" ++ tagStart tag attributes ++ ">" ++ join "" (shield item :: List.map shield []) ++ "</" ++ tag ++
        ">").toList = ("<" ++ tagStart tag attributes).toList ++ '>' :: (shieldChars item.toList ++
          ("</" ++ tag ++ ">").toList) := by
      simp [join, shield]
    rw [unshield, String.toList_ofList, htext, hopening, unshieldChars_shieldChars, hclosing]
  · -- the items on lines of their own, with a break before each and one after the last
    refine ⟨_, ?_, .inl rfl⟩
    have hspread : '\n' :: (indent (join "\n" (shield item :: rest.map shield))).toList =
        spread (((item :: rest).map String.toList).map shieldChars) := by
      rw [← List.map_cons, indent_join_isLine (by simp) (by simpa using hlines), List.map_map, List.map_map]
      simp [shield, Function.comp_def]
    have htext : ("<" ++ tagStart tag attributes ++ ">\n" ++ indent (join "\n" (shield item :: rest.map shield)) ++ "\n</" ++
        tag ++ ">").toList = ("<" ++ tagStart tag attributes).toList ++ '>' ::
          (spread (((item :: rest).map String.toList).map shieldChars) ++ '\n' :: ("</" ++ tag ++ ">").toList) := by
      rw [← hspread]
      simp
    rw [unshield, String.toList_ofList, htext, hopening, unshieldChars_spread, unshieldChars_cons (by decide), hclosing]
    simp

/-! ## Reading spread texts -/

theorem intercalate_append_singleton (ws : List (List Char)) (w : List Char) :
    [' '].intercalate (ws ++ [w]) = [' '].intercalate ws ++ ((if ws.isEmpty then [] else [' ']) ++ w) := by
  induction ws with
  | nil => simp
  | cons v ws ih =>
    cases ws with
    | nil => simp [List.intercalate_cons_cons]
    | cons u ws =>
      simp only [List.cons_append, List.intercalate_cons_cons, List.append_assoc] at ih ⊢
      rw [ih]
      simp

/-- The lines of a run of raw texts that are spread. -/
theorem runLines_spread {ws : List String} (h : ∀ w ∈ ws, IsRaw w) {blanks : List Char}
    (hblanks : runLines blanks = []) : runLines (spread (ws.map String.toList) ++ '\n' :: blanks) = ws.map String.toList := by
  have hbreak : ∀ cs, runLines ('\n' :: cs) = runLines cs := fun cs => runLines_append [] cs
  induction ws with
  | nil => rw [List.map_nil, spread, List.flatMap_nil, List.nil_append, hbreak, hblanks]
  | cons w ws ih =>
    have hw := h w List.mem_cons_self
    have hline : runLines (' ' :: ' ' :: w.toList) = [w.toList] := by
      rw [← hw.runLines, runLines_unbroken (by simpa [isBreak] using hw.isBreak), runLines_unbroken hw.isBreak]
      rfl
    -- whatever follows starts with a break, which ends the line of `w`
    obtain ⟨more, hmore⟩ : ∃ more, spread (ws.map String.toList) ++ '\n' :: blanks = '\n' :: more := by
      cases ws with
      | nil => exact ⟨blanks, rfl⟩
      | cons v ws => exact ⟨_, rfl⟩
    have hrest := ih fun v hv => h v (List.mem_cons_of_mem w hv)
    rw [hmore, hbreak] at hrest
    rw [List.map_cons, spread, List.flatMap_cons, ← spread, List.append_assoc, hmore, List.cons_append, hbreak,
      List.cons_append, List.cons_append, ← List.cons_append, ← List.cons_append, runLines_append, hline, hrest]
    rfl

variable (reference : List Char → Option Char)

theorem readReferences_of_notMem {cs : List Char} (h : '&' ∉ cs) : readReferences reference cs = cs := by
  rw [readReferences_eq_iff]
  rintro ⟨name, c, -, -, hname⟩
  exact h (hname.subset List.mem_cons_self)

/-- A run of raw texts that are spread is read as the texts with single blanks between them. -/
theorem readRun_spread {ws : List String} (h : ∀ w ∈ ws, IsRaw w ∧ '&' ∉ w.toList) {blanks : List Char}
    (hblanks : runLines blanks = []) :
    readRun reference (spread (ws.map String.toList) ++ '\n' :: blanks) = [' '].intercalate (ws.map String.toList) := by
  rw [readRun, runLines_spread (fun w hw => (h w hw).1) hblanks]
  refine readReferences_of_notMem reference fun hmem => ?_
  rcases of_mem_intercalate hmem with hblank | ⟨w, hw, hc⟩
  · exact absurd hblank (by decide)
  · obtain ⟨t, ht, rfl⟩ := List.mem_map.1 hw
    exact (h t ht).2 hc

theorem endsRun_spread {ws : List String} (h : ∀ w ∈ ws, IsRaw w) {blanks : List Char}
    (hblanks : ∀ c ∈ blanks, endsRun c = false) :
    ∀ c ∈ spread (ws.map String.toList) ++ '\n' :: blanks, endsRun c = false := by
  intro c hc
  rw [List.mem_append, spread, List.mem_flatMap, List.mem_cons] at hc
  rcases hc with ⟨l, hl, hc⟩ | rfl | hc
  · obtain ⟨w, hw, rfl⟩ := List.mem_map.1 hl
    simp only [List.mem_cons] at hc
    rcases hc with rfl | rfl | rfl | hc
    · rfl
    · rfl
    · rfl
    · exact (h w hw).endsRun c hc
  · rfl
  · exact hblanks c hc

/-- The texts one after the other, with a blank between two neighbours that are both raw;
`afterRaw` says that a raw text comes right before. -/
def spaced : (afterRaw : Bool) → List String → List Char
  | _, [] => []
  | afterRaw, t :: ts =>
    (if afterRaw && decide (IsRaw t) then [' '] else []) ++ t.toList ++ spaced (decide (IsRaw t)) ts

/-- Text children on lines of their own, where `ws` are the raw texts that the run at the
start already has. Each child takes at most two parts, a run before it and its braces. -/
theorem readParts_spread (ws ts : List String) (hws : ∀ w ∈ ws, IsRaw w ∧ '&' ∉ w.toList)
    (hts : ∀ t ∈ ts, '&' ∉ t.toList) (rest : List Char) {steps : Nat} (hsteps : 2 * ts.length + 2 ≤ steps) :
    readParts reference steps (spread (ws.map String.toList) ++
        (spread (ts.map fun t => (textItem t).toList) ++ '\n' :: '<' :: rest)) =
      some ([' '].intercalate (ws.map String.toList) ++ spaced (!ws.isEmpty) ts, '<' :: rest) := by
  have hraw : ∀ w ∈ ws, IsRaw w := fun w hw => (hws w hw).1
  induction ts generalizing ws steps with
  | nil =>
    obtain ⟨n, rfl⟩ : ∃ n, steps = n + 2 := ⟨steps - 2, by simp at hsteps; omega⟩
    have hrun := readParts_run reference (spread (ws.map String.toList) ++ ['\n']) ('<' :: rest) (by simp)
      (endsRun_spread hraw (by simp)) (by simp [endsRun]) (n + 1)
    rw [readParts_tag, readRun_spread reference hws rfl] at hrun
    simpa [spread, spaced] using hrun
  | cons t ts ih =>
    obtain ⟨ht, hts⟩ := List.forall_mem_cons.1 hts
    have hrest : 2 * ts.length + 4 ≤ steps := by simp at hsteps; omega
    by_cases h : IsRaw t
    · -- one more line of the run
      have hitem : textItem t = t := by rw [textItem_eq, if_pos h]
      have hws' : ∀ w ∈ ws ++ [t], IsRaw w ∧ '&' ∉ w.toList := by
        simpa [or_imp, forall_and] using ⟨⟨fun w hw => (hws w hw).1, h⟩, fun w hw => (hws w hw).2, ht⟩
      have hlines : 2 * ts.length + 2 ≤ steps := by omega
      have hread := ih (ws ++ [t]) hws' hts hlines fun w hw => (hws' w hw).1
      rw [List.map_append, spread_append, List.append_assoc] at hread
      rw [List.map_cons, hitem, ← List.singleton_append, spread_append, List.append_assoc]
      simp only [List.map_cons, List.map_nil] at hread
      have hlater : (ws ++ [t]).isEmpty = false := by simp
      rw [hread, intercalate_append_singleton, hlater]
      simp [spaced, h]
    · -- the run ends before the braces, and the next one starts after them
      obtain ⟨n, rfl⟩ : ∃ n, steps = n + 2 := ⟨steps - 2, by omega⟩
      have hitem : textItem t = braces (Json.quote t) := by rw [textItem_eq, if_neg h]
      have hparts : 2 * ts.length + 2 ≤ n := by omega
      have hread := ih [] (by simp) hts hparts (by simp)
      have hbraces := readParts_quote reference t
        (spread (ts.map fun t => (textItem t).toList) ++ '\n' :: '<' :: rest) n
      have hrun := readParts_run reference (spread (ws.map String.toList) ++ ['\n', ' ', ' '])
        ((braces (Json.quote t)).toList ++ (spread (ts.map fun t => (textItem t).toList) ++ '\n' :: '<' :: rest))
        (by simp) (endsRun_spread hraw (by simp [endsRun])) (by simp [toList_braces, endsRun]) (n + 1)
      rw [hbraces, readRun_spread reference hws rfl] at hrun
      simp only [List.map_nil, spread, List.flatMap_nil, List.nil_append] at hread
      rw [← spread] at hread
      rw [hread] at hrun
      simpa [spread, spaced, hitem, h] using hrun

theorem length_le_spaced (afterRaw : Bool) (ts : List String) :
    (ts.flatMap String.toList).length ≤ (spaced afterRaw ts).length := by
  induction ts generalizing afterRaw with
  | nil => exact Nat.le_refl 0
  | cons t ts ih =>
    have hts := ih (decide (IsRaw t))
    simp only [List.flatMap_cons, spaced, List.length_append] at hts ⊢
    omega

/-- No blank is added exactly if no two neighbours are both raw. -/
theorem spaced_eq_iff (afterRaw : Bool) (ts : List String) :
    spaced afterRaw ts = ts.flatMap String.toList ↔
      (afterRaw = true → ∀ t ∈ ts.head?, ¬ IsRaw t) ∧ ts.IsChain fun t u => ¬ (IsRaw t ∧ IsRaw u) := by
  induction ts generalizing afterRaw with
  | nil => simp [spaced]
  | cons t ts ih =>
    rw [spaced, List.flatMap_cons, List.isChain_cons]
    by_cases hblank : afterRaw = true ∧ IsRaw t
    · obtain ⟨rfl, ht⟩ := hblank
      refine iff_of_false (fun heq => ?_) fun h => h.1 rfl t rfl ht
      -- the blank in front makes the text longer
      have hle := length_le_spaced (decide (IsRaw t)) ts
      have hlength := congrArg List.length heq
      simp only [ht, decide_true, Bool.and_self, if_true, List.length_append, List.length_singleton] at hle hlength
      omega
    · rw [if_neg (by simpa using hblank), List.nil_append, List.append_cancel_left_eq, ih]
      have hhead : afterRaw = true → ∀ u ∈ (t :: ts).head?, ¬ IsRaw u := by
        rintro hafter u ⟨⟩ hu
        exact hblank ⟨hafter, hu⟩
      rw [and_iff_right hhead]
      refine and_congr_left fun _ => ?_
      rw [decide_eq_true_iff]
      exact ⟨fun h u hu ⟨ht, hraw⟩ => h ht u hu hraw, fun h ht u hu hraw => h u hu ⟨ht, hraw⟩⟩

/-! ## Elements -/

/-- What an element with texts between its tags is read as, given its start up to the end of
the opening tag. One that is closed at once is empty. -/
def readElement (opening closing markup : String) : Option String :=
  match afterLead? opening.toList markup.toList with
  | some [' ', '/', '>'] => some ""
  | some ('>' :: inner) =>
    match readParts reference inner.length inner with
    | some (text, rest) => if rest = closing.toList then some (String.ofList text) else none
    | none => none
  | _ => none

/-- An element whose inner text is read up to its closing tag. -/
theorem readElement_of_inner {opening closing markup : String} {inner text : List Char}
    (hmarkup : markup.toList = opening.toList ++ '>' :: (inner ++ closing.toList))
    (hinner : readParts reference (inner ++ closing.toList).length (inner ++ closing.toList) =
      some (text, closing.toList)) : readElement reference opening closing markup = some (String.ofList text) := by
  rw [readElement, hmarkup, afterLead?_eq_some.2 rfl]
  simp only [hinner, if_pos]

/-- An element without items. -/
theorem readElement_empty (tag : String) (attributes : List String) :
    readElement reference (unshield ("<" ++ tagStart tag attributes)) (unshield ("</" ++ tag ++ ">"))
      (unshield (elementText tag attributes [])) = some "" := by
  by_cases hempty : tagStart tag attributes = ""
  · -- a fragment
    have htag : tag = "" := by
      unfold tagStart at hempty
      split at hempty
      · exact hempty
      · simp at hempty
    have htext : elementText tag attributes [] = "<></>" := by
      show (if (tagStart tag attributes).isEmpty then "<></>" else _) = "<></>"
      rw [hempty]
      rfl
    rw [hempty, htag] at *
    rw [htext]
    rfl
  · have htext : elementText tag attributes [] = "<" ++ tagStart tag attributes ++ " />" := by
      show (if (tagStart tag attributes).isEmpty then "<></>" else "<" ++ tagStart tag attributes ++ " />") = _
      rw [if_neg (by simpa using hempty)]
    have hlist : (unshield (elementText tag attributes [])).toList =
        (unshield ("<" ++ tagStart tag attributes)).toList ++ [' ', '/', '>'] := by
      have hend : ("<" ++ tagStart tag attributes ++ " />").toList =
          ("<" ++ tagStart tag attributes).toList ++ ' ' :: ['/', '>'] := by simp
      rw [htext, unshield, String.toList_ofList, hend, unshieldChars_split _ (by decide) (by decide), unshield,
        String.toList_ofList]
      rfl
    rw [readElement, hlist, afterLead?_eq_some.2 rfl]
    rfl

/-- The text children of an element are read as the texts, with a blank between two that are
both raw. -/
theorem readElement_texts (s : Scope) (index : Nat) (tag : String) (attributes : List String) {ts : List String}
    (h : ∀ t ∈ ts, '&' ∉ t.toList) :
    readElement reference (unshield ("<" ++ tagStart tag attributes)) (unshield ("</" ++ tag ++ ">"))
      (unshield (elementText tag attributes (contents s index (ts.map .text)).value)) =
        some (String.ofList (spaced false ts)) := by
  have hitems : (contents s index (ts.map .text)).value = (ts.map textItem).map shield := by
    rw [contents_value, List.map_map, List.map_map]
    refine List.map_congr_left fun t _ => ?_
    simp only [Function.comp_apply, content]
    rfl
  obtain ⟨closing, hclosing⟩ : ∃ closing, (unshield ("</" ++ tag ++ ">")).toList = '<' :: closing := by
    refine ⟨unshieldChars ('/' :: (tag.toList ++ ['>'])), ?_⟩
    rw [unshield, String.toList_ofList, ← unshieldChars_cons (by decide)]
    simp
  rw [hitems]
  by_cases hne : ts = []
  · subst hne
    exact readElement_empty reference tag attributes
  obtain ⟨inner, hmarkup, hinner⟩ := elementText_items tag attributes (ts.map textItem) (by simpa using hne)
    (by simpa using fun t _ => isLine_textItem t)
  refine readElement_of_inner reference hmarkup ?_
  rw [hclosing]
  rcases hinner with rfl | ⟨item, hone, rfl⟩
  · have hsteps : 2 * ts.length + 2 ≤ (spread ((ts.map textItem).map String.toList) ++ ['\n'] ++ '<' :: closing).length := by
      have hspread := length_le_spread ((ts.map textItem).map String.toList)
      simp only [List.length_append, List.length_cons, List.length_nil, List.length_map] at hspread ⊢
      omega
    have hread := readParts_spread reference [] ts (by simp) h closing hsteps
    simpa [spread, List.map_map, Function.comp_def] using hread
  · -- one text on the line of the tags
    obtain ⟨t, rfl, rfl⟩ : ∃ t, ts = [t] ∧ textItem t = item := by simpa [List.map_eq_singleton_iff] using hone
    obtain ⟨n, hn⟩ : ∃ n, ((textItem t).toList ++ '<' :: closing).length = n + 2 := by
      obtain ⟨front, c, hlast, -⟩ := textItem_last t
      exact ⟨front.length + closing.length, by rw [hlast]; simp; omega⟩
    have hread := readParts_textItem reference t ('<' :: closing) (by simp [endsRun]) (n + 1)
    rw [readParts_tag, readReferences_of_notMem reference (h t List.mem_cons_self), ite_self] at hread
    rw [hn, hread]
    simp [spaced]

/-- Text children without character references are read as themselves, one after the other,
but for a blank between two neighbours that are both raw. So the layout keeps what they say
exactly if there are no such neighbours. -/
theorem text_children_read (s : Scope) (index : Nat) (tag : String) (attributes : List String) {ts : List String}
    (h : ∀ t ∈ ts, '&' ∉ t.toList) :
    ∃ text, readElement reference (unshield ("<" ++ tagStart tag attributes)) (unshield ("</" ++ tag ++ ">"))
        (unshield (elementText tag attributes (contents s index (ts.map .text)).value)) = some text ∧
      text = String.ofList (spaced false ts) ∧
      (text = join "" ts ↔ ts.IsChain fun t u => ¬ (IsRaw t ∧ IsRaw u)) := by
  refine ⟨_, readElement_texts reference s index tag attributes h, rfl, ?_⟩
  have hjoin : (join "" ts).toList = ts.flatMap String.toList := by
    cases ts with
    | nil => rfl
    | cons t ts => simp [toList_join_cons]
  rw [← String.toList_inj, String.toList_ofList, hjoin, spaced_eq_iff]
  simp

/-- Two raw texts around two that are quoted, each on a line of its own. -/
theorem text_children_read_quotedBetween :
    readElement (fun _ => none) (unshield ("<" ++ tagStart "p" ["id=\"x\""])) (unshield ("</" ++ "p" ++ ">"))
        (unshield (elementText "p" ["id=\"x\""] (contents ⟨{}, {}, {}, [], {}, .web⟩ 0
          (["plain", " padded ", "a < b", "tail"].map .text)).value)) = some "plain padded a < btail" ∧
      "plain padded a < btail" = join "" ["plain", " padded ", "a < b", "tail"] := by
  have hplain : ∀ t ∈ ["plain", " padded ", "a < b", "tail"], '&' ∉ t.toList := by simp
  obtain ⟨text, hread, hspaced, hjoin⟩ :=
    text_children_read (fun _ => none) ⟨{}, {}, {}, [], {}, .web⟩ 0 "p" ["id=\"x\""] hplain
  obtain rfl : text = "plain padded a < btail" := hspaced.trans (by decide)
  exact ⟨hread, hjoin.2 (by decide)⟩

/-- A paragraph with two texts. -/
def neighbours : Json :=
  .object [("components", .array [.object [("name", .string "App"), ("children", .object
    [("type", .string "p"), ("children", .array [.string "Hello", .string "World"])])]])]

/-- The two texts stand on lines of their own and are read with a blank between them. -/
theorem text_neighbours_read_apart :
    ((compile neighbours {}).toOption.bind fun output => output.files[0]?.map (·.contents)) =
      some ("import '../styles/global.css';\nimport '../styles/app.scss';\n\n" ++
        "export default function App() \x7b\n  return (\n    " ++ "<p>\n      Hello\n      World\n    </p>" ++
        "\n  );\n\x7d\n") ∧
    readElement (fun _ => none) "<p" "</p>" "<p>\n      Hello\n      World\n    </p>" = some "Hello World" ∧
    join "" ["Hello", "World"] = "HelloWorld" := by
  decide +kernel

end Markup

end ViewTree
