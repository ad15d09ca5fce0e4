import Mathlib.Data.List.Chain
import ViewTree.Compile
import ViewTree.Proofs.Json.OneLine
import ViewTree.Proofs.Markup.Opaque
import ViewTree.Proofs.Text.InOrder

/-!
# Scripts in style attributes

The fragments of a style hold scripts: the codes of dynamic fragments, the predicates of
conditional ones, and values of style maps that are script references. The style attribute
holds them all in order and as they are, unless the cross-platform target breaks the call
that merges the fragments into lines. That indents the scripts as well, and a script with a
line break is then no longer there (`styleAttribute_scripts`).
-/

namespace ViewTree

open Text

/-- The scripts among the values of a style map. -/
def Style.scripts (style : StyleMap) : List String := style.flatMap fun (_, v) => (Value.ofJson v).script?.toList

/-- The scripts of a fragment, in the order in which they are written. -/
def Fragment.scripts : Fragment → List String
  | object style => Style.scripts style
  | conditional predicate style => predicate :: Style.scripts style
  | guarded _ _ style => Style.scripts style
  | dynamic code => [code]

/-! ## Scripts in order -/

namespace Style

theorem inOrder_entry (k : String) (v : Json) :
    InOrder (Value.ofJson v).script?.toList (literalKey k ++ ": " ++ (Value.ofJson v).code).toList := by
  cases Value.ofJson v with
  | literal value => trivial
  | script code =>
    rw [String.toList_append]
    exact (InOrder.self code).append_left _

theorem inOrder_entries (style : StyleMap) : InOrder (scripts style) (join ", " (literalEntries style)).toList :=
  InOrder.join_map ", " fun p _ => inOrder_entry p.1 p.2

theorem inOrder_literal (style : StyleMap) : InOrder (scripts style) (literal style).toList := by
  unfold literal
  cases style with
  | nil => trivial
  | cons p style =>
    rw [if_neg (by simp), String.toList_append, String.toList_append]
    exact ((inOrder_entries (p :: style)).append_left _).append_right _

/-- A predicate before a style. -/
theorem inOrder_guard (a predicate b : String) (style : StyleMap) :
    InOrder (predicate :: scripts style) (a ++ predicate ++ b ++ literal style).toList := by
  refine ⟨a.toList, b.toList ++ (literal style).toList, by simp, ?_⟩
  exact (inOrder_literal style).append_left _

end Style

namespace Platform

theorem inOrder_spreadEntries (f : Fragment) : InOrder f.scripts (join ", " (spreadEntries f)).toList := by
  cases f with
  | object style => exact Style.inOrder_entries style
  | conditional predicate style =>
    rw [spreadEntries, join, String.toList_append]
    exact (Style.inOrder_guard _ predicate _ style).append_right _
  | guarded format predicate style =>
    rw [spreadEntries, join, String.toList_append, String.toList_append]
    exact ((Style.inOrder_literal style).append_left _).append_right _
  | dynamic code =>
    rw [spreadEntries, join, String.toList_append, String.toList_append]
    exact ((InOrder.self code).append_left _).append_right _

theorem inOrder_mergeArgument (f : Fragment) : InOrder f.scripts (mergeArgument f).toList := by
  cases f with
  | object style => exact Style.inOrder_literal style
  | conditional predicate style => exact Style.inOrder_guard _ predicate _ style
  | guarded format predicate style =>
    rw [mergeArgument, String.toList_append]
    exact (Style.inOrder_literal style).append_left _
  | dynamic code => exact InOrder.self code

end Platform

/-! ## Arguments of one line -/

namespace Style

theorem oneLine_literalKey (key : String) : OneLine (literalKey key) := by
  unfold literalKey
  split
  · rename_i h
    exact oneLine_of_isIdentifier h
  · exact Json.oneLine_quote key

theorem oneLine_code {v : Value} (h : ∀ code ∈ v.script?, OneLine code) : OneLine v.code := by
  cases v with
  | literal value => exact Json.oneLine_render value
  | script code => exact h code rfl

theorem oneLine_literal {style : StyleMap} (h : ∀ code ∈ scripts style, OneLine code) : OneLine (literal style) := by
  have hentries : ∀ e ∈ literalEntries style, OneLine e := by
    intro e he
    obtain ⟨⟨k, v⟩, hp, rfl⟩ := List.mem_map.1 he
    refine oneLine_append.2 ⟨oneLine_append.2 ⟨oneLine_literalKey k, by decide⟩, oneLine_code fun code hcode => ?_⟩
    exact h code (List.mem_flatMap.2 ⟨(k, v), hp, Option.mem_toList.2 hcode⟩)
  unfold literal
  split
  · decide
  · exact oneLine_append.2 ⟨oneLine_append.2 ⟨by decide, oneLine_join (by decide) hentries⟩, by decide⟩

theorem oneLine_predicateLiteral (p : Predicate) : OneLine (predicateLiteral p) := by
  have hsizes : ∀ e ∈ bounds p "minWidth" "maxWidth" "minHeight" "maxHeight", OneLine e.1 := by
    intro e he
    obtain ⟨⟨name, n⟩, hmem, hn⟩ := List.mem_filterMap.1 he
    obtain ⟨n, -, rfl⟩ := Option.map_eq_some_iff.1 hn
    have hnames : name ∈ ["minWidth", "maxWidth", "minHeight", "maxHeight"] := by
      simp only [List.mem_cons, Prod.mk.injEq, List.not_mem_nil, or_false] at hmem ⊢
      exact hmem.imp And.left (Or.imp And.left (Or.imp And.left And.left))
    have hall : ∀ name ∈ ["minWidth", "maxWidth", "minHeight", "maxHeight"], OneLine name := by decide
    exact hall name hnames
  have horientation : ∀ o : Orientation, OneLine ("orientation: \"" ++ o.name ++ "\"") := by
    intro o
    cases o <;> decide
  unfold predicateLiteral
  refine oneLine_append.2 ⟨oneLine_append.2 ⟨by decide, oneLine_join (by decide) fun e he => ?_⟩, by decide⟩
  rcases List.mem_append.1 he with he | he
  · obtain ⟨⟨name, n⟩, hb, rfl⟩ := List.mem_map.1 he
    exact oneLine_append.2 ⟨oneLine_append.2 ⟨hsizes _ hb, by decide⟩, Json.oneLine_toText n⟩
  · obtain ⟨o, -, rfl⟩ := List.mem_map.1 he
    exact horientation o

end Style

namespace Platform

/-- An argument of the merging helper has a line break exactly if one of its scripts has. -/
theorem oneLine_mergeArgument (f : Fragment) : OneLine (mergeArgument f) ↔ ∀ code ∈ f.scripts, OneLine code := by
  constructor
  · intro h code hcode hbreak
    exact h (((inOrder_mergeArgument f).isInfix hcode).subset hbreak)
  · intro h
    cases f with
    | object style => exact Style.oneLine_literal h
    | conditional predicate style =>
      have hstyle : OneLine (Style.literal style) :=
        Style.oneLine_literal fun code hc => h code (List.mem_cons_of_mem _ hc)
      simp only [mergeArgument, oneLine_append]
      exact ⟨⟨⟨by decide, h predicate List.mem_cons_self⟩, by decide⟩, hstyle⟩
    | guarded format predicate style =>
      simp only [mergeArgument, formatTest, oneLine_append]
      exact ⟨⟨⟨⟨by decide, Style.oneLine_predicateLiteral predicate⟩, by decide⟩, by decide⟩, Style.oneLine_literal h⟩
    | dynamic code => exact h code (List.mem_singleton.2 rfl)

end Platform

/-! ## Broken calls -/

namespace Text

/-- What can follow a line break in an indented block that a parenthesis closes: a blank,
another line break, or the parenthesis. -/
def FollowsBreak (a b : Char) : Prop := a = '\n' → b = ' ' ∨ b = '\n' ∨ b = ')'

theorem isChain_unbroken {l : List Char} (hl : '\n' ∉ l) {rest : List Char} (h : rest.IsChain FollowsBreak) :
    (l ++ rest).IsChain FollowsBreak := by
  induction l with
  | nil => exact h
  | cons c l ih =>
    simp only [List.mem_cons, not_or] at hl
    exact (ih hl.2).cons fun _ _ hc => absurd hc (Ne.symm hl.1)

theorem isChain_indented {ls : List (List Char)} (h : ∀ l ∈ ls, '\n' ∉ l) :
    ((ls.flatMap fun l => '\n' :: indentLine l) ++ ['\n', ')']).IsChain FollowsBreak := by
  induction ls with
  | nil =>
    rw [List.flatMap_nil, List.nil_append, List.isChain_pair]
    exact fun _ => .inr (.inr rfl)
  | cons l ls ih =>
    have hrest := ih fun l' hl' => h l' (List.mem_cons_of_mem _ hl')
    have hl := h l List.mem_cons_self
    rw [List.flatMap_cons, List.append_assoc, List.cons_append]
    cases l with
    | nil =>
      -- an empty line is followed by the next line break
      refine hrest.cons fun b hb _ => .inr (.inl ?_)
      cases ls with
      | nil => exact (Option.some.inj hb).symm
      | cons l' ls => exact (Option.some.inj hb).symm
    | cons c cs =>
      have hline : '\n' ∉ indentLine (c :: cs) := by simpa [indentLine] using hl
      refine (isChain_unbroken hline hrest).cons fun b hb _ => .inl ?_
      exact (Option.some.inj hb).symm

/-- The text goes on right after one of its line breaks, at the left margin. -/
def HasFlushLine (s : String) : Prop := ∃ c, c ∉ [' ', '\n', ')'] ∧ ['\n', c] <:+: s.toList

/-- A text with a line at the left margin does not stand in a call with indented arguments. -/
theorem not_infix_indented {s arguments : String} (h : HasFlushLine s) (hne : arguments ≠ "") :
    ¬ s.toList <:+: ("mergeStyles(\n" ++ indent arguments ++ "\n)").toList := by
  intro hs
  obtain ⟨c, hc, hflush⟩ := h
  have htext : ("mergeStyles(\n" ++ indent arguments ++ "\n)").toList =
      "mergeStyles(".toList ++ (((lines arguments.toList).flatMap fun l => '\n' :: indentLine l) ++ ['\n', ')']) := by
    rw [← indent_breaks hne]
    simp
  have hchain : ("mergeStyles(\n" ++ indent arguments ++ "\n)").toList.IsChain FollowsBreak := by
    rw [htext]
    exact isChain_unbroken (by decide) (isChain_indented fun l => unbroken_of_mem_lines)
  have hpair : ['\n', c].IsChain FollowsBreak := List.IsChain.infix hchain (hflush.trans hs)
  exact hc (by simpa using List.isChain_pair.1 hpair rfl)

end Text

namespace Platform

/-- Whether the style attribute is a call whose arguments are indented. -/
def Reindents (platform : Platform) (fragments : List Fragment) : Prop :=
  platform = .crossPlatform ∧ needsMerge fragments = true ∧ ∃ code ∈ fragments.flatMap Fragment.scripts, ¬ OneLine code

/-- The merging helper is called on one line if all scripts are, and else with its
arguments indented. -/
theorem mergeCall_eq (fragments : List Fragment) :
    mergeCall (fragments.map mergeArgument) =
      if ∃ code ∈ fragments.flatMap Fragment.scripts, ¬ OneLine code then
        "mergeStyles(\n" ++ indent (join ",\n" (fragments.map mergeArgument)) ++ "\n)"
      else "mergeStyles(" ++ join ", " (fragments.map mergeArgument) ++ ")" := by
  have hbreak : ((fragments.map mergeArgument).any fun a => Text.has a '\n') = true ↔
      ∃ code ∈ fragments.flatMap Fragment.scripts, ¬ OneLine code := by
    have hargument : ∀ f : Fragment, Text.has (mergeArgument f) '\n' = true ↔ ∃ code ∈ f.scripts, ¬ OneLine code := by
      intro f
      have hone := not_congr (oneLine_mergeArgument f)
      simpa [OneLine, Text.has] using hone
    simp only [List.any_map, List.any_eq_true, Function.comp_apply, hargument, List.mem_flatMap]
    constructor
    · rintro ⟨f, hf, code, hcode, hc⟩
      exact ⟨code, ⟨f, hf, hcode⟩, hc⟩
    · rintro ⟨code, ⟨f, hf, hcode⟩, hc⟩
      exact ⟨f, hf, code, hcode, hc⟩
  unfold mergeCall
  simp only [hbreak]

theorem inOrder_arguments (separator : String) (fragments : List Fragment) :
    InOrder (fragments.flatMap Fragment.scripts) (join separator (fragments.map mergeArgument)).toList :=
  InOrder.join_map separator fun f _ => inOrder_mergeArgument f

/-- The object of a web style holds the scripts of its fragments. -/
theorem inOrder_spreadObject (fragments : List Fragment) :
    InOrder (fragments.flatMap Fragment.scripts) (spreadObject (fragments.flatMap spreadEntries)).toList := by
  have hentries : InOrder (fragments.flatMap Fragment.scripts) (join ", " (fragments.flatMap spreadEntries)).toList :=
    InOrder.join_flatMap ", " fun f _ => inOrder_spreadEntries f
  unfold spreadObject
  split
  · rename_i hempty
    rw [List.isEmpty_iff.1 hempty] at hentries
    exact hentries.append_right _
  · rw [String.toList_append, String.toList_append]
    exact (hentries.append_left _).append_right _

/-- The arguments of a call hold the scripts; if the call is broken into lines, none that
has a line at the left margin is left. -/
theorem mergeCall_scripts (fragments : List Fragment) :
    ((∀ code ∈ fragments.flatMap Fragment.scripts, OneLine code) →
      InOrder (fragments.flatMap Fragment.scripts) (mergeCall (fragments.map mergeArgument)).toList) ∧
    ((∃ code ∈ fragments.flatMap Fragment.scripts, ¬ OneLine code) → ∃ arguments,
      InOrder (fragments.flatMap Fragment.scripts) (join ",\n" arguments).toList ∧
      mergeCall (fragments.map mergeArgument) = "mergeStyles(\n" ++ indent (join ",\n" arguments) ++ "\n)" ∧
      ∀ code, HasFlushLine code → ¬ code.toList <:+: (mergeCall (fragments.map mergeArgument)).toList) := by
  constructor
  · intro hone
    rw [mergeCall_eq, if_neg (by simpa using hone), String.toList_append, String.toList_append]
    exact ((inOrder_arguments ", " fragments).append_left _).append_right _
  · intro hbreak
    have hkept := inOrder_arguments ",\n" fragments
    have hne : join ",\n" (fragments.map mergeArgument) ≠ "" := by
      intro hempty
      obtain ⟨code, hcode, hc⟩ := hbreak
      rw [hempty] at hkept
      exact hc fun hmem => List.not_mem_nil ((hkept.isInfix hcode).subset hmem)
    rw [mergeCall_eq, if_pos hbreak]
    exact ⟨_, hkept, rfl, fun code hflush => not_infix_indented hflush hne⟩

theorem styleAttribute_crossPlatform {fragments : List Fragment} (h : needsMerge fragments = true) :
    styleAttribute .crossPlatform fragments = some (mergeCall (fragments.map mergeArgument)) := by
  cases fragments with
  | nil => cases h
  | cons f fragments =>
    cases fragments with
    | cons g fragments => cases f <;> rfl
    | nil =>
      cases f with
      | object style => cases h
      | conditional predicate style => rfl
      | guarded format predicate style => rfl
      | dynamic code => rfl

theorem styleAttribute_object {fragments : List Fragment} {text : String} (h : needsMerge fragments = false)
    (htext : styleAttribute .crossPlatform fragments = some text) :
    ∃ style, fragments = [.object style] ∧ text = Style.literal style := by
  unfold needsMerge at h
  split at h
  · cases htext
  · rename_i style
    exact ⟨style, rfl, (Option.some.inj htext).symm⟩
  · cases h

/-- The style attribute holds all scripts of its fragments in order and as they are, unless
the cross-platform target indents them with the arguments of a call. It does so exactly if
it needs the merging helper and a script has a line break. The arguments still hold the
scripts before they are indented, but a script that goes on at the left margin after a
line break is not found in the attribute. -/
theorem styleAttribute_scripts {platform : Platform} {fragments : List Fragment} {text : String}
    (h : styleAttribute platform fragments = some text) :
    (¬ Reindents platform fragments → InOrder (fragments.flatMap Fragment.scripts) text.toList) ∧
    (Reindents platform fragments → ∃ arguments,
      InOrder (fragments.flatMap Fragment.scripts) (join ",\n" arguments).toList ∧
      text = "mergeStyles(\n" ++ indent (join ",\n" arguments) ++ "\n)" ∧
      ∀ code ∈ fragments.flatMap Fragment.scripts, HasFlushLine code → ¬ code.toList <:+: text.toList) := by
  obtain ⟨hone, hbroken⟩ := mergeCall_scripts fragments
  constructor
  · intro hlay
    cases platform with
    | web =>
      cases fragments with
      | nil => trivial
      | cons f fragments =>
        obtain rfl := Option.some.inj h
        exact inOrder_spreadObject (f :: fragments)
    | crossPlatform =>
      cases hmerge : needsMerge fragments with
      | false =>
        obtain ⟨style, rfl, rfl⟩ := styleAttribute_object hmerge h
        rw [List.flatMap_cons, List.flatMap_nil, List.append_nil]
        exact Style.inOrder_literal style
      | true =>
        rw [styleAttribute_crossPlatform hmerge] at h
        obtain rfl := Option.some.inj h
        exact hone fun code hcode => not_not.1 fun hc => hlay ⟨rfl, hmerge, code, hcode, hc⟩
  · rintro ⟨rfl, hmerge, hbreak⟩
    rw [styleAttribute_crossPlatform hmerge] at h
    obtain rfl := Option.some.inj h
    obtain ⟨arguments, hkept, htext, hflush⟩ := hbroken hbreak
    exact ⟨arguments, hkept, htext, fun code _ => hflush code⟩

/-- A conditional fragment, then a map with a script, then a fragment of two lines. -/
def layeredFragments : List Fragment :=
  [.conditional "on" [("color", .string "\x7bink\x7d")], .object [("top", .string "\x7by\x7d")], .dynamic "f(\n1)"]

theorem styleAttribute_scripts_layered :
    InOrder ["on", "ink", "y", "f(\n1)"]
      "\x7b ...(on ? \x7b color: ink \x7d : \x7b\x7d), top: y, ...(f(\n1)) \x7d".toList ∧
    (Reindents .crossPlatform layeredFragments ∧ ¬ "f(\n1)".toList <:+:
      "mergeStyles(\n  (on) && \x7b color: ink \x7d,\n  \x7b top: y \x7d,\n  f(\n  1)\n)".toList) := by
  have hscripts : layeredFragments.flatMap Fragment.scripts = ["on", "ink", "y", "f(\n1)"] := by decide +kernel
  have hweb : styleAttribute .web layeredFragments =
      some "\x7b ...(on ? \x7b color: ink \x7d : \x7b\x7d), top: y, ...(f(\n1)) \x7d" := by decide +kernel
  have hcross : styleAttribute .crossPlatform layeredFragments =
      some "mergeStyles(\n  (on) && \x7b color: ink \x7d,\n  \x7b top: y \x7d,\n  f(\n  1)\n)" := by decide +kernel
  have hbreak : Reindents .crossPlatform layeredFragments :=
    ⟨rfl, rfl, "f(\n1)", by rw [hscripts]; decide, by decide⟩
  have hone : ¬ Reindents .web layeredFragments := fun h => nomatch h.1
  have hkept := (styleAttribute_scripts hweb).1 hone
  obtain ⟨-, -, -, hlost⟩ := (styleAttribute_scripts hcross).2 hbreak
  rw [hscripts] at hkept hlost
  exact ⟨hkept, hbreak, hlost "f(\n1)" (by decide) ⟨'1', by decide, ⟨['f', '('], [')'], rfl⟩⟩⟩

/-- A script of two lines is one argument, and its second line gets indented. -/
theorem script_indented :
    styleAttribute .crossPlatform [.dynamic "`a\nb`"] = some "mergeStyles(\n  `a\n  b`\n)" ∧
    ¬ "`a\nb`".toList <:+: "mergeStyles(\n  `a\n  b`\n)".toList := by
  decide +kernel

end Platform

end ViewTree
