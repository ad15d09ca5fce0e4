import ViewTree.Script
import ViewTree.Text.Identifier
import ViewTree.Text.Lines

/-!
# Pieces of markup

Text, attributes, class lists and elements as markup writes them. An element with
a single child of one line stays on one line if it is short enough.
-/

namespace ViewTree.Markup

/-- The bytes that an element on a single line may have. -/
def inlineWidth : Nat := 80

/-- A code between braces. -/
def braces (code : String) : String := "\x7b" ++ code ++ "\x7d"

/-- Whether the characters are a name or a path of names. -/
def isPlainOperand : List Char → Bool
  | [] => false
  | c :: cs => Text.startsIdentifier c && cs.all fun d => Text.continuesIdentifier d || d == '.'

/-- An expression that something is done to: between parentheses unless it is a plain
path of names. -/
def operand (code : String) : String :=
  let trimmed := Text.trim code
  if isPlainOperand trimmed.toList then trimmed else "(" ++ trimmed ++ ")"

/-- A character that markup text cannot hold. -/
def isMarkupChar (c : Char) : Bool :=
  c == '\x7b' || c == '\x7d' || c == '<' || c == '>' || c == '\n' || c == '\r'

/-- A text child: as it is, or as a quoted string if markup would change it. -/
def textItem (s : String) : String :=
  if s.toList.any isMarkupChar || Text.trim s != s || s.isEmpty then braces (Json.quote s) else s

/-- An attribute: strings are quoted, other values stand between braces. -/
def attributeText (key : String) (value : Value) : String :=
  match value with
  | .literal (.string s) =>
    if Text.has s '"' || Text.has s '\n' then key ++ "=" ++ braces value.code
    else key ++ "=\"" ++ s ++ "\""
  | value => key ++ "=" ++ braces value.code

/-- Whether the value is a literal. -/
def isLiteral : Value → Bool
  | .literal _ => true
  | .script _ => false

/-- One part of a class list. -/
def classPart : Value → String
  | .literal (.string s) => s
  | .literal v => v.render
  | .script code => "$" ++ braces code

/-- A backquote inside a template. -/
def escapeBackquote (c : Char) : List Char := if c = '`' then ['\\', '`'] else [c]

/-- The value of a class attribute: a quoted list, or a template if it holds scripts
or quotes. -/
def classValue (classes : List Value) : Option String :=
  if classes.isEmpty then none
  else
    let joined := Text.join " " (classes.map classPart)
    if classes.all isLiteral && !Text.has joined '"' then some ("\"" ++ joined ++ "\"")
    else some (braces ("`" ++ String.ofList (joined.toList.flatMap escapeBackquote) ++ "`"))

/-- Items between an opening and a closing tag; an empty `opening` is a fragment. -/
def wrap (opening tag : String) (items : List String) : String :=
  match items with
  | [] => if opening.isEmpty then "<></>" else "<" ++ opening ++ " />"
  | _ :: _ =>
    let candidate := "<" ++ opening ++ ">" ++ Text.join "" items ++ "</" ++ tag ++ ">"
    let inline := items.length == 1 && !items.any fun i => Text.has i '\n'
    if inline && candidate.utf8ByteSize ≤ inlineWidth then candidate
    else
      "<" ++ opening ++ ">\n" ++ Text.indent (Text.join "\n" items) ++ "\n</" ++ tag ++ ">"

/-- An element with its attributes and items. -/
def elementText (tag : String) (attributes items : List String) : String :=
  let opening := if attributes.isEmpty then tag else tag ++ " " ++ Text.join " " attributes
  wrap opening tag items

end ViewTree.Markup
