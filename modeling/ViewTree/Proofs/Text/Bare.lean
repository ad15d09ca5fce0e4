import ViewTree.Text.Lines

/-!
# Text without its layout

The layout of generated code adds blanks and line breaks, and of the texts it arranges it
drops at most carriage returns. `bare` takes all three away, so it does not see the
layout: joining with blanks and line breaks only strings the texts together
(`bare_join`), and indenting changes nothing (`bare_indent`).
-/

namespace ViewTree.Text

/-- A character that the layout may add or drop. -/
def isLayout (c : Char) : Bool := c == ' ' || c == '\n' || c == '\r'

/-- The characters that the layout leaves alone. -/
def bareChars (cs : List Char) : List Char := cs.filter fun c => !isLayout c

@[inherit_doc bareChars]
def bare (s : String) : List Char := bareChars s.toList

@[simp]
theorem bare_append (a b : String) : bare (a ++ b) = bare a ++ bare b := by
  unfold bare bareChars
  rw [String.toList_append, List.filter_append]

theorem bare_join {separator : String} (h : bare separator = []) (ts : List String) :
    bare (join separator ts) = ts.flatMap bare := by
  induction ts with
  | nil => rfl
  | cons t ts ih =>
    cases ts with
    | nil => simp [join]
    | cons u ts => rw [join, bare_append, bare_append, h, ih, List.append_nil, List.flatMap_cons (x := t)]

theorem bareChars_indentLine (l : List Char) : bareChars (indentLine l) = bareChars l := by
  cases l with
  | nil => rfl
  | cons c cs => rfl

/-- Breaking a text into lines loses only layout. -/
theorem bareChars_lines (cs : List Char) : (lines cs).flatMap bareChars = bareChars cs := by
  induction cs using lines.induct with
  | case1 => rfl
  | case2 cs ih => rw [lines, List.flatMap_cons, ih]; rfl
  | case3 cs ih => rw [lines, List.flatMap_cons, ih]; rfl
  | case4 c cs hn hr hl ih =>
    rw [lines, hl]
    · rw [hl] at ih
      simp only [bareChars, List.flatMap_nil, List.flatMap_cons, List.append_nil, List.filter_cons] at ih ⊢
      rw [← ih]
      rfl
    · exact hn
    · exact hr
  | case5 c cs hn hr l ls hl ih =>
    rw [lines, hl]
    · rw [hl] at ih
      simp only [bareChars, List.flatMap_cons, List.filter_cons] at ih ⊢
      rw [← ih]
      split <;> rfl
    · exact hn
    · exact hr

@[simp]
theorem bare_indent (s : String) : bare (indent s) = bare s := by
  unfold indent
  rw [bare_join rfl, List.flatMap_map]
  simp only [bare, String.toList_ofList, bareChars_indentLine]
  exact bareChars_lines s.toList

end ViewTree.Text
