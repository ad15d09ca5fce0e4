import ViewTree.Text.Basic

/-!
# Identifiers and class stems

`isIdentifier` is the ASCII identifier rule of the emitted code. `toIdentifier`
makes any text an identifier and keeps those that already are; `toKebab` makes
any text a stem of groups of `[a-z0-9]` joined by single hyphens.
-/

namespace ViewTree.Text

/-- `A-Z`. -/
def isUpper (c : Char) : Bool := 'A' ≤ c && c ≤ 'Z'

/-- `a-z`. -/
def isLower (c : Char) : Bool := 'a' ≤ c && c ≤ 'z'

/-- `0-9`. -/
def isDigit (c : Char) : Bool := '0' ≤ c && c ≤ '9'

/-- A character that an identifier can start with. -/
def startsIdentifier (c : Char) : Bool := isUpper c || isLower c || c == '_' || c == '$'

/-- A character that an identifier can hold after its first. -/
def continuesIdentifier (c : Char) : Bool := startsIdentifier c || isDigit c

/-- A non-empty run of identifier characters that does not start with a digit. -/
def isIdentifierChars : List Char → Bool
  | [] => false
  | c :: cs => startsIdentifier c && cs.all continuesIdentifier

/-- Whether the text is an identifier of the emitted code. -/
def isIdentifier (s : String) : Bool := isIdentifierChars s.toList

/-- Writes each maximal run of characters outside `keep` as a single `mark`;
`inRun` says that a run is open and its mark is already written. -/
def collapse (keep : Char → Bool) (mark : Char) : Bool → List Char → List Char
  | _, [] => []
  | inRun, c :: cs =>
    if keep c then c :: collapse keep mark false cs
    else if inRun then collapse keep mark true cs
    else mark :: collapse keep mark true cs

/-- Makes a name an identifier: runs of other characters become `_`, and a name
that is empty or starts with a digit gets a `_` in front. -/
def toIdentifier (name : String) : String :=
  if isIdentifier name then name
  else
    match collapse continuesIdentifier '_' false (dropAroundWhile isSpace name.toList) with
    | [] => "_"
    | c :: cs => String.ofList (if isDigit c then '_' :: c :: cs else c :: cs)

/-- The lower case of a character as far as class stems can tell: the letters
`A-Z`, the two characters outside ASCII whose lower case holds an ASCII letter
(U+0130 and the Kelvin sign U+212A), and any other character as itself, since
no other lower case reaches `[a-z0-9]`. -/
def lowerStem (c : Char) : List Char :=
  if isUpper c then [Char.ofNat (c.toNat + 32)]
  else if c.toNat == 0x130 then ['i', Char.ofNat 0x307]
  else if c.toNat == 0x212A then ['k']
  else [c]

/-- Puts a hyphen between a lower-case letter or digit and an upper-case letter. -/
def splitCamel : List Char → List Char
  | [] => []
  | [c] => [c]
  | c :: d :: rest =>
    if (isLower c || isDigit c) && isUpper d then c :: '-' :: splitCamel (d :: rest)
    else c :: splitCamel (d :: rest)

/-- A character of a class stem other than the hyphen. -/
def isStemChar (c : Char) : Bool := isLower c || isDigit c

/-- `PrimaryButton` becomes `primary-button`; a name with nothing to keep
becomes `node`. -/
def toKebab (name : String) : String :=
  let lowered := (splitCamel name.toList).flatMap lowerStem
  match dropAroundWhile (· == '-') (collapse isStemChar '-' false lowered) with
  | [] => "node"
  | c :: cs => String.ofList (c :: cs)

end ViewTree.Text
