/-!
# Texts

A character is blank when it has the Unicode property `White_Space`. Trimming
removes blank characters only; joining puts one separator between neighbours.
Numbers are written as digits.
-/

namespace ViewTree.Text

/-- The twenty-five characters with the property `White_Space`. -/
def isSpace (c : Char) : Bool :=
  let n := c.toNat
  (0x9 ≤ n && n ≤ 0xD) || n == 0x20 || n == 0x85 || n == 0xA0 || n == 0x1680 ||
    (0x2000 ≤ n && n ≤ 0x200A) || n == 0x2028 || n == 0x2029 || n == 0x202F || n == 0x205F ||
    n == 0x3000

/-- Drops the characters at the end that satisfy `p`. -/
def dropEndWhile (p : Char → Bool) (cs : List Char) : List Char :=
  (cs.reverse.dropWhile p).reverse

/-- Drops the characters at both ends that satisfy `p`. -/
def dropAroundWhile (p : Char → Bool) (cs : List Char) : List Char :=
  dropEndWhile p (cs.dropWhile p)

/-- The text without blank characters at its ends. -/
def trim (s : String) : String := String.ofList (dropAroundWhile isSpace s.toList)

/-- Every character is blank; so is the empty text. -/
def isBlank (s : String) : Bool := s.toList.all isSpace

/-- Whether `c` occurs in the text. -/
def has (s : String) (c : Char) : Bool := s.toList.contains c

/-- The texts one after the other, with `separator` between neighbours. -/
def join (separator : String) : List String → String
  | [] => ""
  | [s] => s
  | s :: t :: rest => s ++ separator ++ join separator (t :: rest)

/-- The parts between the occurrences of a character. -/
def splitAt (separator : Char) : List Char → List (List Char)
  | [] => [[]]
  | c :: cs =>
    if c = separator then [] :: splitAt separator cs
    else
      match splitAt separator cs with
      | [] => [[c]]
      | part :: parts => (c :: part) :: parts

/-- What follows `lead`, if the text starts with it. -/
def afterLead? (lead : List Char) (cs : List Char) : Option (List Char) :=
  if lead.isPrefixOf cs then some (cs.drop lead.length) else none

/-! ## Numbers -/

/-- The digits of a number in base ten. -/
def decimal (n : Nat) : String := String.ofList (Nat.toDigits 10 n)

/-- The digit of a number below sixteen, letters in lower case. -/
def hexDigit (n : Nat) : Char :=
  Char.ofNat (if n < 10 then '0'.toNat + n else 'a'.toNat + (n - 10))

end ViewTree.Text
