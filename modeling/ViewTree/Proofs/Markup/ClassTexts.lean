import ViewTree.Proofs.Json.OneLine
import ViewTree.Proofs.Markup.Literals
import ViewTree.Proofs.Text.Shield

/-!
# What class attributes are read as

A class attribute lists its parts with single blanks between them. If all of them are
literals without quotes, they are quoted and only character references change what they
are read as. Otherwise they stand in a template, and every backquote gets a backslash,
whatever part it is in. For literals that is right unless they hold other characters that a
template changes; a script is left as it is exactly if it has no backquote
(`classValue_denotes`).
-/

namespace ViewTree.Markup

open Text

/-- Whether classes are written as a quoted list. -/
def AreQuoted (classes : List Value) : Prop :=
  ∀ v ∈ classes, isLiteral v = true ∧ '"' ∉ (classPart v).toList

/-- One part of a class list in a template. -/
def templatePart (v : Value) : String := String.ofList ((classPart v).toList.flatMap escapeBackquote)

/-- The part of a template gives the value: a script stands in it as it is, and a literal is
read as its own characters, up to the blank or the end of the template after it. -/
def Denotes (part : String) : Value → Prop
  | .script code => part = "$" ++ braces code
  | .literal v => ∀ last ∈ [' ', '`'], ∀ rest, scan (part.toList ++ last :: rest) =
      (classPart (.literal v)).toList.map itself ++ scan (last :: rest)

/-- Values that a template keeps. -/
def IsKept : Value → Prop
  | .script code => '`' ∉ code.toList
  | .literal v => IsPlain (classPart (.literal v)).toList

instance (classes : List Value) : Decidable (AreQuoted classes) := inferInstanceAs (Decidable (∀ _ ∈ _, _))

instance : DecidablePred IsKept
  | .script code => inferInstanceAs (Decidable ('`' ∉ code.toList))
  | .literal v => inferInstanceAs (Decidable (IsPlain (classPart (.literal v)).toList))

theorem areQuoted_iff (classes : List Value) :
    (classes.all isLiteral && !Text.has (join " " (classes.map classPart)) '"') = true ↔ AreQuoted classes := by
  have hquote : '"' ∉ (" " : String).toList := by decide
  have hhas : Text.has (join " " (classes.map classPart)) '"' = true ↔ ∃ v ∈ classes, '"' ∈ (classPart v).toList := by
    rw [Text.has, List.contains_iff_mem, mem_join hquote]
    simp
  unfold AreQuoted
  rw [Bool.and_eq_true, List.all_eq_true, Bool.not_eq_true', ← Bool.not_eq_true, hhas]
  simp only [not_exists, not_and, forall₂_and]

/-- Escaping backquotes leaves the blanks between the parts. -/
theorem escape_join (ts : List String) :
    (join " " ts).toList.flatMap escapeBackquote =
      (join " " (ts.map fun t => String.ofList (t.toList.flatMap escapeBackquote))).toList := by
  cases ts with
  | nil => rfl
  | cons t ts =>
    have hblank : (" " : String).toList.flatMap escapeBackquote = " ".toList := by decide
    rw [List.map_cons, toList_join_cons, toList_join_cons, List.flatMap_append, List.flatMap_assoc, List.flatMap_map]
    simp only [List.flatMap_append, hblank, String.toList_ofList]

theorem escape_eq_iff (cs : List Char) : cs.flatMap escapeBackquote = cs ↔ '`' ∉ cs := by
  induction cs with
  | nil => simp
  | cons c cs ih =>
    rw [List.flatMap_cons, escapeBackquote]
    split
    · rename_i hc
      subst hc
      simp
    · rename_i hc
      simp [ih, Ne.symm hc]

/-- A part gives its value exactly if a template keeps the value. -/
theorem denotes_iff (v : Value) : Denotes (templatePart v) v ↔ IsKept v := by
  cases v with
  | script code =>
    have hpart : templatePart (.script code) = "$" ++ braces (String.ofList (code.toList.flatMap escapeBackquote)) := by
      simp [templatePart, classPart, braces, escapeBackquote, String.append_assoc]
    rw [Denotes, IsKept, hpart, ← escape_eq_iff]
    simp [braces, ← String.toList_inj]
  | literal v =>
    rw [Denotes, IsKept, templatePart, String.toList_ofList]
    constructor
    · intro h
      exact (scan_escaped_iff _ (by decide) []).1 (h ' ' (by decide) [])
    · intro h last hlast rest
      exact (scan_escaped_iff _ hlast rest).2 h

/-- The class attribute lists its classes in order, with single blanks between them.
Literals without quotes are quoted, and read as they are exactly if they hold no character
reference. Other lists are templates, and a part of a template gives its value exactly if
this is a script without backquotes, or a literal without backslashes, carriage returns and
interpolations. -/
theorem classValue_denotes {classes : List Value} (h : classes ≠ []) :
    (AreQuoted classes → classValue classes = some ("\"" ++ join " " (classes.map classPart) ++ "\"") ∧
      '"' ∉ (join " " (classes.map classPart)).toList ∧
      ∀ reference : List Char → Option Char,
        readReferences reference (join " " (classes.map classPart)).toList = (join " " (classes.map classPart)).toList ↔
          ¬ HasReference reference (join " " (classes.map classPart)).toList) ∧
    (¬ AreQuoted classes → classValue classes = some (braces ("`" ++ join " " (classes.map templatePart) ++ "`")) ∧
      ∀ v ∈ classes, Denotes (templatePart v) v ↔ IsKept v) := by
  have hne : classes.isEmpty = false := by simpa using h
  have hvalue := areQuoted_iff classes
  constructor
  · intro hquoted
    refine ⟨?_, ?_, fun reference => readReferences_eq_iff _⟩
    · unfold classValue
      rw [hne, if_neg (by decide)]
      exact if_pos (hvalue.2 hquoted)
    · rw [mem_join (by decide)]
      rintro ⟨part, hpart, hmem⟩
      obtain ⟨v, hv, rfl⟩ := List.mem_map.1 hpart
      exact (hquoted v hv).2 hmem
  · intro htemplate
    refine ⟨?_, fun v _ => denotes_iff v⟩
    unfold classValue
    rw [hne, if_neg (by decide)]
    dsimp only
    rw [if_neg (mt hvalue.1 htemplate), escape_join, String.ofList_toList, List.map_map]
    rfl

/-- A literal, a script without backquotes and one with them, and a literal with a
backslash. -/
def mixedClasses : List Value :=
  [.literal (.string "a`b"), .script "on", .script "`c`", .literal (.string "d\\e")]

/-- Two literals, of which the second holds a reference. -/
def literalClasses : List Value := [.literal (.string "a`b"), .literal (.string "&lt;c")]

theorem classValue_denotes_mixed :
    classValue mixedClasses = some "\x7b`a\\`b $\x7bon\x7d $\x7b\\`c\\`\x7d d\\e`\x7d" ∧
    mixedClasses.map (fun v => decide (IsKept v)) = [true, true, false, false] ∧
    (∀ v ∈ mixedClasses, Denotes (templatePart v) v ↔ IsKept v) ∧
    classValue literalClasses = some "\"a`b &lt;c\"" ∧
    readReferences (fun name => if name = ['l', 't'] then some '<' else none) "a`b &lt;c".toList ≠
      "a`b &lt;c".toList := by
  have htemplate : ¬ AreQuoted mixedClasses := fun h => by
    simpa [isLiteral] using (h (.script "on") (by simp [mixedClasses])).1
  have hquoted : AreQuoted literalClasses := by decide +kernel
  obtain ⟨-, hmixed⟩ := @classValue_denotes mixedClasses (by simp [mixedClasses])
  obtain ⟨hliteral, -⟩ := @classValue_denotes literalClasses (by simp [literalClasses])
  obtain ⟨htext, hparts⟩ := hmixed htemplate
  obtain ⟨hlist, -, hread⟩ := hliteral hquoted
  refine ⟨by rw [htext]; decide +kernel, by decide +kernel, hparts, by rw [hlist]; decide +kernel, fun heq => ?_⟩
  refine (hread _).1 heq ⟨['l', 't'], '<', by decide, rfl, ?_⟩
  decide +kernel

/-- The class is one of two templates, and the backquotes of the first get backslashes. -/
theorem script_backquotes_escaped :
    classValue [.script "on ? `a` : 'b'"] = some "\x7b`$\x7bon ? \\`a\\` : 'b'\x7d`\x7d" ∧
    ¬ "on ? `a` : 'b'".toList <:+: "\x7b`$\x7bon ? \\`a\\` : 'b'\x7d`\x7d".toList := by
  decide +kernel

end ViewTree.Markup
