import Mathlib.Data.List.Infix
import Mathlib.Data.List.TakeWhile
import ViewTree.Markup.Jsx

/-!
# What literals in attributes are read as

A quoted attribute ends at the next quote, and nothing in it is an escape but character
references such as `&amp;`: it is read as the characters that it holds exactly if it has no
reference (`readReferences_eq_iff`). A template ends at the next backquote, a backslash
escapes the character after it, `$` with a brace opens an interpolation, and carriage
returns are read as line breaks. With its backquotes escaped, a text in a template is read
as its own characters exactly if it has none of these (`scan_escaped_iff`).
-/

namespace ViewTree.Markup

/-! ## Quoted texts -/

section

variable (reference : List Char → Option Char)

/-- The reference after an ampersand: the character it stands for, where `reference` tells
those of all names, and how many characters it takes. -/
def referenceAt (cs : List Char) : Option (Char × Nat) :=
  let name := cs.takeWhile (· != ';')
  if name.length < cs.length then (reference name).map fun c => (c, name.length + 1) else none

/-- Reads the characters after the first few, which belong to a reference already read. -/
def readFrom : Nat → List Char → List Char
  | _, [] => []
  | skip + 1, _ :: cs => readFrom skip cs
  | 0, c :: cs =>
    match if c = '&' then referenceAt reference cs else none with
    | some (d, skip) => d :: readFrom skip cs
    | none => c :: readFrom 0 cs

/-- The characters that a quoted attribute is read as. -/
def readReferences (cs : List Char) : List Char := readFrom reference 0 cs

/-- A name that stands for a character, between an ampersand and a semicolon. -/
def HasReference (cs : List Char) : Prop :=
  ∃ name c, ';' ∉ name ∧ reference name = some c ∧ '&' :: (name ++ [';']) <:+: cs

variable {reference}

theorem referenceAt_eq_some {cs : List Char} {c : Char} {n : Nat} :
    referenceAt reference cs = some (c, n) ↔
      ∃ name rest, cs = name ++ ';' :: rest ∧ ';' ∉ name ∧ reference name = some c ∧ n = name.length + 1 := by
  unfold referenceAt
  dsimp only
  constructor
  · intro h
    split at h
    · rename_i hlt
      obtain ⟨d, hd, heq⟩ := Option.map_eq_some_iff.1 h
      obtain ⟨rfl, rfl⟩ := Prod.mk.inj heq
      have hsplit := List.takeWhile_append_dropWhile (p := (· != ';')) (l := cs)
      obtain ⟨e, rest, hrest⟩ : ∃ e rest, cs.dropWhile (· != ';') = e :: rest := by
        refine List.exists_cons_of_ne_nil fun hnil => ?_
        rw [hnil, List.append_nil] at hsplit
        exact absurd (congrArg List.length hsplit) (Nat.ne_of_lt hlt)
      have he : e = ';' := by
        have hhead := List.head?_dropWhile_not (· != ';') cs
        rw [hrest] at hhead
        simpa using hhead
      refine ⟨_, rest, ?_, fun hmem => ?_, hd, rfl⟩
      · rw [he] at hrest
        rw [← hrest, hsplit]
      · simpa using List.mem_takeWhile_imp hmem
    · cases h
  · rintro ⟨name, rest, rfl, hname, hc, rfl⟩
    have htake : (name ++ ';' :: rest).takeWhile (· != ';') = name := by
      rw [List.takeWhile_append_of_pos fun d hd => by simpa using fun heq : d = ';' => hname (heq ▸ hd)]
      simp
    rw [htake, if_pos (by simp), hc]
    rfl

theorem length_readFrom_le (skip : Nat) (cs : List Char) : (readFrom reference skip cs).length ≤ cs.length - skip := by
  induction cs generalizing skip with
  | nil => simp [readFrom]
  | cons c cs ih =>
    cases skip with
    | succ skip =>
      rw [readFrom, List.length_cons, Nat.add_sub_add_right]
      exact ih skip
    | zero =>
      rw [readFrom]
      split
      · rename_i d skip _
        have hrest := ih skip
        simp only [List.length_cons]
        omega
      · have hrest := ih 0
        simp only [List.length_cons]
        omega

/-- A quoted text is read as the characters it holds exactly if there is no reference in
it: each one makes the text shorter. -/
theorem readReferences_eq_iff (cs : List Char) : readReferences reference cs = cs ↔ ¬ HasReference reference cs := by
  unfold readReferences
  induction cs with
  | nil => simp [readFrom, HasReference]
  | cons c cs ih =>
    rw [readFrom]
    split
    · rename_i d n hread
      obtain ⟨rfl, hat⟩ : c = '&' ∧ referenceAt reference cs = some (d, n) := by simpa using hread
      obtain ⟨name, rest, rfl, hname, hd, rfl⟩ := referenceAt_eq_some.1 hat
      have hheld : HasReference reference ('&' :: (name ++ ';' :: rest)) :=
        ⟨name, d, hname, hd, [], rest, by simp⟩
      refine iff_of_false (fun heq => ?_) (not_not.2 hheld)
      -- a reference is longer than the character it stands for
      have hle := @length_readFrom_le reference (name.length + 1) (name ++ ';' :: rest)
      have hlength := congrArg List.length heq
      simp only [List.length_cons, List.length_append] at hle hlength
      omega
    · rename_i hread
      rw [List.cons_inj_right, ih, not_iff_not]
      constructor
      · rintro ⟨name, d, hname, hd, hinfix⟩
        exact ⟨name, d, hname, hd, hinfix.trans (List.suffix_cons c cs).isInfix⟩
      · rintro ⟨name, d, hname, hd, hinfix⟩
        rcases List.infix_cons_iff.1 hinfix with ⟨rest, hprefix⟩ | hinfix
        · obtain ⟨rfl, hcs⟩ := List.cons_eq_cons.1 hprefix
          have hat : referenceAt reference cs = some (d, name.length + 1) :=
            referenceAt_eq_some.2 ⟨name, rest, by simp [← hcs], hname, hd, rfl⟩
          rw [if_pos rfl, hat] at hread
          cases hread
        · exact ⟨name, d, hname, hd, hinfix⟩

end

/-! ## Templates -/

/-- What the text of a template is read as. -/
inductive TemplateItem where
  | char (c : Char)
  /-- A backslash and the character after it. -/
  | escape (c : Char)
  /-- The start of a script. -/
  | interpolation
  /-- The end of the template. -/
  | close
deriving DecidableEq

/-- Reads a template up to a script or its end. -/
def scan : List Char → List TemplateItem
  | [] => []
  | ['\\'] => []
  | '\\' :: c :: cs => .escape c :: scan cs
  | '$' :: '\x7b' :: _ => [.interpolation]
  | '`' :: _ => [.close]
  | '\r' :: '\n' :: cs => .char '\n' :: scan cs
  | '\r' :: cs => .char '\n' :: scan cs
  | c :: cs => .char c :: scan cs

/-- A character that stands for itself; a backquote does so once it is escaped. -/
def itself (c : Char) : TemplateItem := if c = '`' then .escape c else .char c

/-- Without escapes, interpolations and carriage returns. -/
def IsPlain (cs : List Char) : Prop := '\\' ∉ cs ∧ '\r' ∉ cs ∧ ¬ ['$', '\x7b'] <:+: cs

instance (cs : List Char) : Decidable (IsPlain cs) := inferInstanceAs (Decidable (_ ∧ _))

theorem isPlain_cons {c : Char} {cs : List Char} :
    IsPlain (c :: cs) ↔ c ≠ '\\' ∧ c ≠ '\r' ∧ ¬ (c = '$' ∧ cs.head? = some '\x7b') ∧ IsPlain cs := by
  have hopens : ['$', '\x7b'] <+: c :: cs ↔ c = '$' ∧ cs.head? = some '\x7b' := by
    cases cs with
    | nil => simp [List.cons_prefix_cons, eq_comm]
    | cons d cs => simp [List.cons_prefix_cons, eq_comm]
  unfold IsPlain
  rw [List.infix_cons_iff, hopens, List.mem_cons, List.mem_cons]
  simp only [not_or, ne_eq, eq_comm (a := c)]
  tauto

theorem scan_char {c : Char} (h : c ∉ ['\\', '$', '`', '\r']) (cs : List Char) :
    scan (c :: cs) = .char c :: scan cs := by
  simp only [List.mem_cons, List.not_mem_nil, or_false, not_or] at h
  obtain ⟨hescape, hdollar, hclose, hreturn⟩ := h
  cases cs with
  | nil => simp [scan, hescape]
  | cons d cs => simp [scan, hescape, hdollar, hreturn]

theorem scan_dollar {cs : List Char} (h : cs.head? ≠ some '\x7b') : scan ('$' :: cs) = .char '$' :: scan cs := by
  cases cs with
  | nil => rfl
  | cons d cs =>
    have hd : d ≠ '\x7b' := by simpa using h
    simp [scan, hd]

/-- A carriage return is read as a line break, together with one after it. -/
theorem scan_return (cs : List Char) : ∃ items, scan ('\r' :: cs) = .char '\n' :: items := by
  cases cs with
  | nil => exact ⟨[], rfl⟩
  | cons d cs =>
    by_cases hd : d = '\n'
    · subst hd
      exact ⟨scan cs, rfl⟩
    · exact ⟨scan (d :: cs), by simp [scan, hd]⟩

theorem head?_escaped (cs rest : List Char) (h : rest.head? ≠ some '\x7b') :
    (cs.flatMap escapeBackquote ++ rest).head? = some '\x7b' ↔ cs.head? = some '\x7b' := by
  cases cs with
  | nil => simpa using h
  | cons c cs =>
    rw [List.flatMap_cons, escapeBackquote]
    split
    · rename_i hc
      simp [hc]
    · simp

/-- In a template, a text whose backquotes are escaped is read as its own characters, up to
the blank or the backquote after it, exactly if it is plain. -/
theorem scan_escaped_iff (cs : List Char) {last : Char} (h : last ∈ [' ', '`']) (rest : List Char) :
    scan (cs.flatMap escapeBackquote ++ last :: rest) = cs.map itself ++ scan (last :: rest) ↔ IsPlain cs := by
  induction cs with
  | nil => simp [IsPlain]
  | cons c cs ih =>
    have hlast : (last :: rest).head? ≠ some '\x7b' := by
      rintro hhead
      obtain rfl := Option.some.inj hhead
      exact absurd h (by decide)
    rw [isPlain_cons, List.flatMap_cons, List.append_assoc, List.map_cons, List.cons_append]
    -- both readings agree on the next item exactly if the character is not a special one
    by_cases hquote : c = '`'
    · subst hquote
      have hread : scan (escapeBackquote '`' ++ (cs.flatMap escapeBackquote ++ last :: rest)) =
          itself '`' :: scan (cs.flatMap escapeBackquote ++ last :: rest) := rfl
      rw [hread, List.cons_inj_right, ih]
      simp
    rw [escapeBackquote, if_neg hquote, List.singleton_append, itself, if_neg hquote]
    by_cases hescape : c = '\\'
    · subst hescape
      refine iff_of_false (fun heq => ?_) (by simp)
      cases hrest : cs.flatMap escapeBackquote ++ last :: rest with
      | nil => simp at hrest
      | cons d ds => rw [hrest] at heq; cases heq
    by_cases hreturn : c = '\r'
    · subst hreturn
      refine iff_of_false (fun heq => ?_) (by simp)
      obtain ⟨items, hread⟩ := scan_return (cs.flatMap escapeBackquote ++ last :: rest)
      rw [hread] at heq
      cases heq
    by_cases hdollar : c = '$'
    · subst hdollar
      by_cases hopens : cs.head? = some '\x7b'
      · refine iff_of_false (fun heq => ?_) (by simp [hopens])
        obtain ⟨ds, hds⟩ := List.head?_eq_some_iff.1 ((head?_escaped cs (last :: rest) hlast).2 hopens)
        rw [hds] at heq
        cases heq
      · rw [scan_dollar (mt (head?_escaped cs (last :: rest) hlast).1 hopens), List.cons_inj_right, ih]
        simp [hopens]
    · rw [scan_char (by simp [hescape, hdollar, hquote, hreturn]), List.cons_inj_right, ih]
      simp [hescape, hreturn, hdollar]

end ViewTree.Markup
