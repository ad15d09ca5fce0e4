import ViewTree.Proofs.Json.RoundTrip
import ViewTree.Proofs.Markup.Literals

/-!
# What the texts of a document are read as

Between two tags, the characters up to the next brace or tag are one run of raw text: it is
broken into lines, and of these the ones that are not blank are trimmed and strung together
with single blanks. A quoted string between braces stands for itself. Character references
are read in raw text and in quoted attributes, but not between braces.

So a text survives as a child exactly if it stands between braces or holds no reference, and
as an attribute exactly if it holds a quote, which puts it between braces, or no reference
(`literals_read`): neither choice looks at ampersands.
-/

namespace ViewTree.Markup

open Text

/-! ## Reading -/

/-- A character that ends a line. -/
def isBreak (c : Char) : Bool := c == '\n' || c == '\r'

/-- A character that ends a run of raw text. -/
def endsRun (c : Char) : Bool := c == '\x7b' || c == '\x7d' || c == '<' || c == '>'

/-- The lines of a run, trimmed, without those that are blank. -/
def runLines (run : List Char) : List (List Char) :=
  ((run.splitOnP isBreak).map (dropAroundWhile isSpace)).filter fun line => !line.isEmpty

/-- What a quoted string is read as whose opening brace is taken already, and what follows
its closing brace. -/
def readBraced : List Char → Option (List Char × List Char)
  | '"' :: cs =>
    match Json.readString cs.length [] cs with
    | .ok (s, '\x7d' :: rest) => some (s.toList, rest)
    | _ => none
  | _ => none

section

variable (reference : List Char → Option Char)

/-- What a run of raw text is read as. -/
def readRun (run : List Char) : List Char := readReferences reference ([' '].intercalate (runLines run))

/-- What the part that starts with a character is read as, and what follows. -/
def readPart (c : Char) (cs : List Char) : Option (List Char × List Char) :=
  if c = '\x7b' then readBraced cs
  else if endsRun c then none
  else some (readRun reference (c :: cs.takeWhile fun d => !endsRun d), cs.dropWhile fun d => !endsRun d)

/-- What the text up to the next tag is read as, and what follows. Each part takes a
character, so as many steps as there are characters are enough. -/
def readParts : (steps : Nat) → List Char → Option (List Char × List Char)
  | _, [] => some ([], [])
  | 0, _ :: _ => none
  | steps + 1, c :: cs =>
    if c = '<' then some ([], c :: cs)
    else (readPart reference c cs).bind fun (text, rest) =>
      (readParts steps rest).map fun (more, tail) => (text ++ more, tail)

/-- What a child that is no tag is read as. -/
def readChild (child : String) : Option String :=
  match readParts reference child.toList.length child.toList with
  | some (text, []) => some (String.ofList text)
  | _ => none

/-- What the value of an attribute is read as: a quoted text, up to the next quote, or a
quoted string between braces. -/
def readAttribute (value : String) : Option String :=
  match value.toList with
  | '"' :: cs =>
    if cs.dropWhile (· != '"') = ['"'] then
      some (String.ofList (readReferences reference (cs.takeWhile (· != '"'))))
    else none
  | '\x7b' :: cs =>
    match readBraced cs with
    | some (text, []) => some (String.ofList text)
    | _ => none
  | _ => none

end

/-! ## Texts between braces -/

theorem toList_braces (code : String) : (braces code).toList = '\x7b' :: (code.toList ++ ['\x7d']) := by
  simp [braces]

/-- A quoted string between braces is read as the string. -/
theorem readBraced_quote (s : String) (rest : List Char) :
    readBraced ((Json.quote s).toList ++ '\x7d' :: rest) = some (s.toList, rest) := by
  have hread : Json.readString (s.toList.flatMap Json.escapeChar ++ '"' :: '\x7d' :: rest).length []
      (s.toList.flatMap Json.escapeChar ++ '"' :: '\x7d' :: rest) = .ok (s, '\x7d' :: rest) :=
    Json.readString_quote s _ (by simp)
  rw [Json.toList_quote, List.cons_append, List.append_assoc, List.singleton_append, readBraced, hread]
  rfl

variable (reference : List Char → Option Char)

theorem readParts_quote (s : String) (rest : List Char) (steps : Nat) :
    readParts reference (steps + 1) ((braces (Json.quote s)).toList ++ rest) =
      (readParts reference steps rest).map fun (more, tail) => (s.toList ++ more, tail) := by
  have hpart : readPart reference '\x7b' ((Json.quote s).toList ++ '\x7d' :: rest) = some (s.toList, rest) := by
    rw [readPart, if_pos rfl, readBraced_quote]
  rw [toList_braces, List.cons_append, List.append_assoc, List.singleton_append, readParts, if_neg (by decide), hpart,
    Option.bind_some]

/-! ## Raw text -/

theorem readParts_nil (steps : Nat) : readParts reference steps [] = some ([], []) := by
  unfold readParts
  rfl

/-- A tag ends the text before it. -/
theorem readParts_tag (rest : List Char) (steps : Nat) :
    readParts reference (steps + 1) ('<' :: rest) = some ([], '<' :: rest) := by
  rw [readParts, if_pos rfl]

theorem endsRun_false {c : Char} (h : endsRun c = false) : c ≠ '\x7b' ∧ c ≠ '<' := by
  simp only [endsRun, Bool.or_eq_false_iff, beq_eq_false_iff_ne] at h
  exact ⟨h.1.1.1, h.1.2⟩

/-- A run of raw text that ends where the text does, or before a brace or a tag. -/
theorem readParts_run (run rest : List Char) (hne : run ≠ []) (hrun : ∀ c ∈ run, endsRun c = false)
    (hrest : ∀ c ∈ rest.head?, endsRun c = true) (steps : Nat) :
    readParts reference (steps + 1) (run ++ rest) =
      (readParts reference steps rest).map fun (more, tail) => (readRun reference run ++ more, tail) := by
  obtain ⟨c, cs, rfl⟩ := List.exists_cons_of_ne_nil hne
  obtain ⟨hbrace, htag⟩ := endsRun_false (hrun c List.mem_cons_self)
  have hkept : ∀ d ∈ cs, (!endsRun d) = true := fun d hd => by rw [hrun d (List.mem_cons_of_mem c hd)]; rfl
  have hstop : rest.takeWhile (fun d => !endsRun d) = [] ∧ rest.dropWhile (fun d => !endsRun d) = rest := by
    cases rest with
    | nil => exact ⟨rfl, rfl⟩
    | cons d rest =>
      have hd : ¬ (!endsRun d) = true := by rw [hrest d rfl]; decide
      exact ⟨List.takeWhile_cons_of_neg hd, List.dropWhile_cons_of_neg hd⟩
  have hpart : readPart reference c (cs ++ rest) = some (readRun reference (c :: cs), rest) := by
    rw [readPart, if_neg hbrace, hrun c List.mem_cons_self, if_neg (by decide), List.takeWhile_append_of_pos hkept,
      List.dropWhile_append_of_pos hkept, hstop.1, hstop.2, List.append_nil]
  rw [List.cons_append, readParts, if_neg htag, hpart, Option.bind_some]

theorem runLines_append (a b : List Char) : runLines (a ++ '\n' :: b) = runLines a ++ runLines b := by
  unfold runLines
  rw [List.splitOnP_append_cons a b rfl, List.map_append, List.filter_append]

/-- Unbroken text is one line, or none if it is blank. -/
theorem runLines_unbroken {cs : List Char} (h : ∀ c ∈ cs, isBreak c = false) :
    runLines cs = [dropAroundWhile isSpace cs].filter fun line => !line.isEmpty := by
  rw [runLines, List.splitOnP_eq_singleton h, List.map_singleton]

/-! ## Texts that are raw -/

/-- A text child that is written as it is. -/
def IsRaw (s : String) : Prop := (∀ c ∈ s.toList, isMarkupChar c = false) ∧ trim s = s ∧ s ≠ ""

theorem isRaw_iff (s : String) : (s.toList.any isMarkupChar || trim s != s || s.isEmpty) = false ↔ IsRaw s := by
  simp only [Bool.or_eq_false_iff, List.any_eq_false, Bool.not_eq_true, bne_eq_false_iff_eq,
    ← Bool.not_eq_true (s.isEmpty), String.isEmpty_iff, IsRaw, and_assoc, ne_eq]

instance : DecidablePred IsRaw := fun s => decidable_of_iff _ (isRaw_iff s)

/-- A text child is raw, or it is quoted and stands between braces. -/
theorem textItem_eq (s : String) : textItem s = if IsRaw s then s else braces (Json.quote s) := by
  unfold textItem
  by_cases h : IsRaw s
  · rw [if_pos h, (isRaw_iff s).2 h, if_neg (by decide)]
  · rw [if_neg h, if_pos (eq_true_of_ne_false (mt (isRaw_iff s).1 h))]

theorem IsRaw.ne_nil {s : String} (h : IsRaw s) : s.toList ≠ [] := by simpa using h.2.2

theorem IsRaw.endsRun {s : String} (h : IsRaw s) : ∀ c ∈ s.toList, endsRun c = false := by
  intro c hc
  have hplain := h.1 c hc
  simp only [isMarkupChar, Bool.or_eq_false_iff] at hplain
  simp only [Markup.endsRun, Bool.or_eq_false_iff]
  tauto

theorem IsRaw.isBreak {s : String} (h : IsRaw s) : ∀ c ∈ s.toList, isBreak c = false := by
  intro c hc
  have hplain := h.1 c hc
  simp only [isMarkupChar, Bool.or_eq_false_iff] at hplain
  simp only [Markup.isBreak, Bool.or_eq_false_iff]
  tauto

theorem IsRaw.dropAroundWhile {s : String} (h : IsRaw s) : dropAroundWhile isSpace s.toList = s.toList := by
  have htrim := congrArg String.toList h.2.1
  rwa [trim, String.toList_ofList] at htrim

/-- A raw text is a line of its own. -/
theorem IsRaw.runLines {s : String} (h : IsRaw s) : runLines s.toList = [s.toList] := by
  rw [runLines_unbroken h.isBreak, h.dropAroundWhile, List.filter_eq_self]
  simpa using h.ne_nil

/-- A raw text is read with its references, and one between braces as it is. -/
theorem readParts_textItem (s : String) (rest : List Char) (hrest : ∀ c ∈ rest.head?, Markup.endsRun c = true)
    (steps : Nat) :
    readParts reference (steps + 1) ((textItem s).toList ++ rest) =
      (readParts reference steps rest).map fun (more, tail) =>
        ((if IsRaw s then readReferences reference s.toList else s.toList) ++ more, tail) := by
  rw [textItem_eq]
  by_cases h : IsRaw s
  · have hrun : readRun reference s.toList = readReferences reference s.toList := by
      rw [readRun, h.runLines, List.intercalate_singleton]
    rw [if_pos h, if_pos h, ← hrun]
    exact readParts_run reference s.toList rest h.ne_nil h.endsRun hrest steps
  · rw [if_neg h, if_neg h]
    exact readParts_quote reference s rest steps

/-! ## Strings that are read back -/

/-- A text child is read as the text, but for the references of raw text. -/
theorem readChild_textItem (s : String) :
    readChild reference (textItem s) =
      some (String.ofList (if IsRaw s then readReferences reference s.toList else s.toList)) := by
  have hne : (textItem s).toList ≠ [] := by
    rw [textItem_eq]
    split
    · rename_i h
      exact h.ne_nil
    · rw [toList_braces]
      exact List.cons_ne_nil _ _
  obtain ⟨n, hn⟩ := Nat.exists_eq_succ_of_ne_zero (mt List.length_eq_zero_iff.1 hne)
  have hread := readParts_textItem reference s [] (by simp) n
  simp only [List.append_nil, readParts_nil, Option.map_some] at hread
  rw [readChild, hn, hread]

/-- A string is written as an attribute that is read as the string, but for the references
of one without quotes and line breaks. -/
theorem attributeText_string (key s : String) :
    ∃ value, attributeText key (.literal (.string s)) = key ++ "=" ++ value ∧
      readAttribute reference value =
        some (if '"' ∈ s.toList ∨ '\n' ∈ s.toList then s else String.ofList (readReferences reference s.toList)) := by
  have hcode : (Value.literal (.string s)).code = Json.quote s := rfl
  have hchoice : (Text.has s '"' || Text.has s '\n') = true ↔ '"' ∈ s.toList ∨ '\n' ∈ s.toList := by
    simp [Text.has]
  unfold attributeText
  dsimp only
  rw [hcode]
  by_cases h : '"' ∈ s.toList ∨ '\n' ∈ s.toList
  · refine ⟨braces (Json.quote s), by rw [if_pos (hchoice.2 h)], ?_⟩
    have hread := readBraced_quote s []
    rw [if_pos h, readAttribute, toList_braces]
    simp [hread]
  · refine ⟨"\"" ++ s ++ "\"", by rw [if_neg (mt hchoice.1 h)]; simp only [String.append_assoc]; rfl, ?_⟩
    have hquotes : ∀ c ∈ s.toList, (c != '"') = true := by
      intro c hc
      rw [bne_iff_ne]
      rintro rfl
      exact h (.inl hc)
    have hlist : ("\"" ++ s ++ "\"").toList = '"' :: (s.toList ++ ['"']) := by simp
    rw [if_neg h, readAttribute, hlist]
    simp [List.takeWhile_append_of_pos hquotes, List.dropWhile_append_of_pos hquotes]

/-- Every text is read as a child as itself exactly if it is written between braces or
holds no character reference, and as an attribute exactly if it holds a quote or a line
break, or no character reference. -/
theorem literals_read (key s : String) :
    (readChild reference (textItem s) = some s ↔ ¬ (IsRaw s ∧ HasReference reference s.toList)) ∧
      ∃ value, attributeText key (.literal (.string s)) = key ++ "=" ++ value ∧
        (readAttribute reference value = some s ↔
          '"' ∈ s.toList ∨ '\n' ∈ s.toList ∨ ¬ HasReference reference s.toList) := by
  have hsame : String.ofList (readReferences reference s.toList) = s ↔ ¬ HasReference reference s.toList := by
    rw [← String.toList_inj, String.toList_ofList]
    exact readReferences_eq_iff s.toList
  obtain ⟨value, hvalue, hread⟩ := attributeText_string reference key s
  refine ⟨?_, value, hvalue, ?_⟩
  · rw [readChild_textItem, Option.some.injEq]
    split
    · rename_i hraw
      rw [hsame, and_iff_right hraw]
    · rename_i hraw
      exact iff_of_true String.ofList_toList fun h => hraw h.1
  · rw [hread, Option.some.injEq, ← or_assoc]
    split
    · rename_i hbraces
      exact iff_of_true rfl (.inl hbraces)
    · rename_i hbraces
      rw [hsame, or_iff_right hbraces]

/-- A reference is decoded, both as a child and as an attribute. -/
theorem literal_reference_decoded :
    let reference : List Char → Option Char := fun name => if name = ['l', 't'] then some '<' else none
    readChild reference (textItem "&lt;") = some "<" ∧
      attributeText "title" (.literal (.string "&lt;")) = "title=" ++ "\"&lt;\"" ∧
      readAttribute reference "\"&lt;\"" = some "<" := by
  decide

end ViewTree.Markup
