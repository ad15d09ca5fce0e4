import ViewTree.Text.Basic

/-!
# Lines, indentation and shielded text

Generated code is laid out by indenting whole blocks. Text that comes from the
document must not be touched by that, so it is *shielded* first: its line breaks
are written as a marker and the letter `n`, and the marker itself is doubled.
Once the layout is done, `unshield` gives every shielded text back.
-/

namespace ViewTree.Text

/-- The lines of a text. A line ends at `\n`, and a `\r` right before it goes
with it; nothing after the last line break is no line. -/
def lines : List Char → List (List Char)
  | [] => []
  | '\n' :: cs => [] :: lines cs
  | '\r' :: '\n' :: cs => [] :: lines cs
  | c :: cs =>
    match lines cs with
    | [] => [[c]]
    | l :: ls => (c :: l) :: ls

/-- Two blanks in front of a line that is not empty. -/
def indentLine : List Char → List Char
  | [] => []
  | c :: cs => ' ' :: ' ' :: c :: cs

/-- Every line of the block indented by one level; the block ends without a
line break. -/
def indent (s : String) : String :=
  join "\n" ((lines s.toList).map fun l => String.ofList (indentLine l))

/-- The private-use character that carries shielded line breaks. -/
def marker : Char := '\uE000'

/-- Hides the line breaks of a text from the layout. -/
def shieldChars : List Char → List Char
  | [] => []
  | c :: cs =>
    if c = '\n' then marker :: 'n' :: shieldChars cs
    else if c = marker then marker :: marker :: shieldChars cs
    else c :: shieldChars cs

/-- Reads shielded text back. A marker in front of anything but `n` or a marker
stands for itself. -/
def unshieldChars : List Char → List Char
  | [] => []
  | [c] => [c]
  | c :: d :: cs =>
    if c = marker then
      if d = 'n' then '\n' :: unshieldChars cs
      else if d = marker then marker :: unshieldChars cs
      else c :: d :: unshieldChars cs
    else c :: unshieldChars (d :: cs)

@[inherit_doc shieldChars]
def shield (s : String) : String := String.ofList (shieldChars s.toList)

@[inherit_doc unshieldChars]
def unshield (s : String) : String := String.ofList (unshieldChars s.toList)

end ViewTree.Text
