import ViewTree.Json.Fault
import ViewTree.Json.Value

/-!
# Reading JSON

Readers take the characters left and give back a value with what follows it, or
the first fault. Arrays and objects nest at most 127 deep. A field whose name comes
again has the later value in the first place.
-/

namespace ViewTree.Json

/-- A reader of values of type `α`. -/
abbrev Reading (α : Type) := Except Fault (α × List Char)

/-- A fault at the next byte, which has been looked at but not taken. -/
def faultAt (reason : Reason) (rest : List Char) : Fault :=
  ⟨reason, rest, if rest.isEmpty then 0 else 1⟩

/-- Skips blanks, tabs and line breaks. -/
def skipSpace (cs : List Char) : List Char :=
  cs.dropWhile fun c => c == ' ' || c == '\n' || c == '\t' || c == '\r'

/-! ## Numbers -/

/-- The value of a decimal digit. -/
def digit? (c : Char) : Option Nat :=
  if '0' ≤ c && c ≤ '9' then some (c.toNat - '0'.toNat) else none

/-- The digits in front, and what follows. -/
def takeDigits : List Char → List Nat × List Char
  | [] => ([], [])
  | c :: cs =>
    match digit? c with
    | some d => let (ds, rest) := takeDigits cs; (d :: ds, rest)
    | none => ([], c :: cs)

/-- Appends digits to a significand as long as it stays below `2^64`; gives the
significand and the digits that did not fit. -/
def appendDigits (significand : Nat) : List Nat → Nat × List Nat
  | [] => (significand, [])
  | d :: ds =>
    if significand * 10 + d < 1 <<< 64 then appendDigits (significand * 10 + d) ds
    else (significand, d :: ds)

/-- The greatest exponent that is read exactly. -/
def exponentLimit : Nat := 2147483647

/-- The value of the digits of an exponent, or `none` beyond the limit, together
with the digits left at that point. -/
def exponentValue (value : Nat) : List Nat → Option Nat × List Nat
  | [] => (some value, [])
  | d :: ds =>
    if value * 10 + d ≤ exponentLimit then exponentValue (value * 10 + d) ds else (none, ds)

/-- Keeps an exponent within its range. -/
def clampExponent (e : Int) : Int :=
  max (-(exponentLimit : Int) - 1) (min (exponentLimit : Int) e)

/-- The double `±significand · 10^exponent`, read in front of `rest`. -/
def doubleOf (negative : Bool) (significand : Nat) (exponent : Int) (rest : List Char) :
    Reading Number :=
  match Magnitude.ofDecimal significand exponent with
  | some m => .ok (.double ⟨negative, m⟩, rest)
  | none => .error ⟨.outOfRange, rest, 0⟩

/-- Reads what follows the `e` of a number. -/
def readExponent (negative : Bool) (significand : Nat) (scale : Int) (cs : List Char) :
    Reading Number :=
  let (below, cs) :=
    match cs with
    | '+' :: rest => (false, rest)
    | '-' :: rest => (true, rest)
    | _ => (false, cs)
  match cs with
  | [] => .error ⟨.endInValue, [], 0⟩
  | c :: _ =>
    match takeDigits cs with
    | ([], _) => .error ⟨.number, c :: cs.tail, 1⟩
    | (ds, rest) =>
      match exponentValue 0 ds with
      | (some e, _) =>
        let e : Int := if below then -(e : Int) else e
        doubleOf negative significand (clampExponent (scale + e)) rest
      | (none, unread) =>
        if significand ≠ 0 ∧ ¬ below then
          .error ⟨.outOfRange, cs.drop (ds.length - unread.length), 0⟩
        else .ok (.double ⟨negative, .zero⟩, rest)

/-- Reads an exponent, if there is one, after a significand with a scale. -/
def readScaled (negative : Bool) (significand : Nat) (scale : Int) (cs : List Char) :
    Reading Number :=
  match cs with
  | 'e' :: rest => readExponent negative significand scale rest
  | 'E' :: rest => readExponent negative significand scale rest
  | _ => doubleOf negative significand scale cs

/-- Reads what follows the point of a number; `scale` counts the digits of its
integer part that did not fit. -/
def readFraction (negative : Bool) (significand : Nat) (scale : Nat) (cs : List Char) :
    Reading Number :=
  match takeDigits cs with
  | ([], []) => .error ⟨.endInValue, [], 0⟩
  | ([], rest) => .error (faultAt .number rest)
  | (ds, rest) =>
    let (s, unfit) := appendDigits significand ds
    let kept := ds.length - unfit.length
    readScaled negative s ((scale : Int) - (kept : Int)) rest

/-- Reads a number after its sign. -/
def readNumber (negative : Bool) (cs : List Char) : Reading Number :=
  match cs with
  | [] => .error ⟨.endInValue, [], 0⟩
  | c :: tail =>
    match takeDigits cs with
    | ([], _) => .error ⟨.number, c :: tail, 1⟩
    | (0 :: _ :: _, _) => .error (faultAt .number tail)
    | (ds, rest) =>
      let (s, unfit) := appendDigits 0 ds
      match rest with
      | '.' :: fraction => readFraction negative s unfit.length fraction
      | _ =>
        if unfit.isEmpty && !(rest.head? == some 'e' || rest.head? == some 'E') then
          if !negative then .ok (.natural s, rest)
          else if 0 < s && s ≤ 1 <<< 63 then .ok (.negative s, rest)
          else .ok (.double ⟨true, .nearest s 1⟩, rest)
        else readScaled negative s unfit.length rest

/-! ## Strings -/

/-- The value of a hexadecimal digit. -/
def hexValue? (c : Char) : Option Nat :=
  if '0' ≤ c && c ≤ '9' then some (c.toNat - '0'.toNat)
  else if 'a' ≤ c && c ≤ 'f' then some (c.toNat - 'a'.toNat + 10)
  else if 'A' ≤ c && c ≤ 'F' then some (c.toNat - 'A'.toNat + 10)
  else none

/-- Four hexadecimal digits as a number. -/
def hexQuad? (a b c d : Char) : Option Nat := do
  return (((← hexValue? a) * 16 + (← hexValue? b)) * 16 + (← hexValue? c)) * 16 + (← hexValue? d)

/-- Reads the four digits of an escape; at least four bytes must be left. -/
def readHex (cs : List Char) : Reading Nat :=
  if byteCount cs < 4 then .error ⟨.endInString, [], 0⟩
  else
    match cs with
    | a :: b :: c :: d :: rest =>
      match hexQuad? a b c d with
      | some n => .ok (n, rest)
      | none => .error ⟨.escape, cs, 4⟩
    | _ => .error ⟨.escape, cs, 4⟩

/-- Reads the second half of a surrogate pair, whose first is `high`. -/
def readLowSurrogate (high : Nat) (cs : List Char) : Except Fault (Char × List Char) :=
  match cs with
  | [] => .error ⟨.endInString, [], 0⟩
  | '\\' :: [] => .error ⟨.endInString, [], 0⟩
  | '\\' :: 'u' :: rest => do
    let (low, rest) ← readHex rest
    if 0xDC00 ≤ low && low ≤ 0xDFFF then
      .ok (Char.ofNat ((high - 0xD800) * 0x400 + (low - 0xDC00) + 0x10000), rest)
    else .error ⟨.loneSurrogate, rest, 0⟩
  | '\\' :: rest => .error ⟨.shortSurrogate, rest, 1⟩
  | rest => .error ⟨.shortSurrogate, rest, 1⟩

/-- Reads what follows the `\u` of an escape. -/
def readUnicode (cs : List Char) : Except Fault (Char × List Char) := do
  let (n, rest) ← readHex cs
  if 0xDC00 ≤ n && n ≤ 0xDFFF then .error ⟨.loneSurrogate, rest, 0⟩
  else if 0xD800 ≤ n && n ≤ 0xDBFF then readLowSurrogate n rest
  else .ok (Char.ofNat n, rest)

/-- Reads what follows a backslash. -/
def readEscape (cs : List Char) : Reading Char :=
  match cs with
  | [] => .error ⟨.endInString, [], 0⟩
  | '"' :: rest => .ok ('"', rest)
  | '\\' :: rest => .ok ('\\', rest)
  | '/' :: rest => .ok ('/', rest)
  | 'b' :: rest => .ok (Char.ofNat 8, rest)
  | 'f' :: rest => .ok (Char.ofNat 12, rest)
  | 'n' :: rest => .ok ('\n', rest)
  | 'r' :: rest => .ok ('\r', rest)
  | 't' :: rest => .ok ('\t', rest)
  | 'u' :: rest => readUnicode rest
  | rest => .error ⟨.escape, rest, 1⟩

/-- Reads a string after its opening quote. Each step takes a character, so as
many steps as there are characters are enough. -/
def readString : (steps : Nat) → (taken : List Char) → (cs : List Char) → Reading String
  | _, _, [] => .error ⟨.endInString, [], 0⟩
  | 0, _, cs => .error ⟨.endInString, cs, 0⟩
  | steps + 1, taken, c :: cs =>
    if c = '"' then .ok (String.ofList taken.reverse, cs)
    else if c = '\\' then
      match readEscape cs with
      | .ok (d, rest) => readString steps (d :: taken) rest
      | .error fault => .error fault
    else if c.toNat < 32 then .error ⟨.controlCharacter, c :: cs, 1⟩
    else readString steps (c :: taken) cs

/-! ## Values -/

/-- Takes the characters of a word, the first of which is already taken. -/
def readWord : (word : List Char) → (cs : List Char) → Reading Unit
  | [], cs => .ok ((), cs)
  | _ :: _, [] => .error ⟨.endInValue, [], 0⟩
  | w :: ws, c :: cs => if c = w then readWord ws cs else .error ⟨.ident, c :: cs, 1⟩

/-- What comes next in an array or object. -/
inductive Next where
  /-- Its end, and what follows. -/
  | close (rest : List Char)
  /-- An entry that starts here. -/
  | entry (start : List Char)

/-- Looks for the next item of an array. -/
def nextItem (first : Bool) (cs : List Char) : Except Fault Next :=
  match skipSpace cs with
  | [] => .error ⟨.endInList, [], 0⟩
  | ']' :: rest => .ok (.close rest)
  | c :: rest =>
    if first then .ok (.entry (c :: rest))
    else if c = ',' then
      match skipSpace rest with
      | [] => .error ⟨.endInValue, [], 0⟩
      | ']' :: more => .error (faultAt .trailingComma (']' :: more))
      | more => .ok (.entry more)
    else .error (faultAt .listEnd (c :: rest))

/-- Reads the items of an array after its bracket. -/
def readItems (item : List Char → Reading Json) :
    (steps : Nat) → (taken : List Json) → (cs : List Char) → Reading Json
  | 0, _, cs => .error ⟨.endInList, cs, 0⟩
  | steps + 1, taken, cs =>
    match nextItem taken.isEmpty cs with
    | .error fault => .error fault
    | .ok (.close rest) => .ok (.array taken.reverse, rest)
    | .ok (.entry start) =>
      match item start with
      | .error fault => .error fault
      | .ok (v, rest) => readItems item steps (v :: taken) rest

/-- Looks for the next field of an object; an entry starts after the quote of
its name. -/
def nextField (first : Bool) (cs : List Char) : Except Fault Next :=
  match skipSpace cs with
  | [] => .error ⟨.endInObject, [], 0⟩
  | '\x7d' :: rest => .ok (.close rest)
  | c :: rest =>
    if first then
      if c = '"' then .ok (.entry rest) else .error (faultAt .key (c :: rest))
    else if c = ',' then
      match skipSpace rest with
      | [] => .error ⟨.endInValue, [], 0⟩
      | '"' :: more => .ok (.entry more)
      | '\x7d' :: more => .error (faultAt .trailingComma ('\x7d' :: more))
      | more => .error (faultAt .key more)
    else .error (faultAt .objectEnd (c :: rest))

/-- Takes the colon after a field's name. -/
def readColon (cs : List Char) : Reading Unit :=
  match skipSpace cs with
  | [] => .error ⟨.endInObject, [], 0⟩
  | ':' :: rest => .ok ((), rest)
  | rest => .error (faultAt .colon rest)

/-- Reads the fields of an object after its brace. A name that comes again takes the
later value in its first place. -/
def readFields (item : List Char → Reading Json) :
    (steps : Nat) → (first : Bool) → (taken : Keyed Json) → (cs : List Char) →
      Except Fault (Json × List Char)
  | 0, _, _, cs => .error ⟨.endInObject, cs, 0⟩
  | steps + 1, first, taken, cs =>
    match nextField first cs with
    | .error fault => .error fault
    | .ok (.close rest) => .ok (.object taken, rest)
    | .ok (.entry start) => do
      let (name, rest) ← readString steps [] start
      let (_, rest) ← readColon rest
      let (v, rest) ← item rest
      readFields item steps false (taken.put name v) rest

/-- Reads a value; `depth` is how deep arrays and objects may still nest. No list,
object or string in the text takes more than `steps` steps if the text is shorter. -/
def readValue (steps : Nat) : (depth : Nat) → (cs : List Char) → Reading Json
  | depth, cs =>
    match skipSpace cs with
    | [] => .error ⟨.endInValue, [], 0⟩
    | c :: rest =>
      if c = 'n' then (readWord ['u', 'l', 'l'] rest).map fun (_, r) => (.null, r)
      else if c = 't' then (readWord ['r', 'u', 'e'] rest).map fun (_, r) => (.bool true, r)
      else if c = 'f' then (readWord ['a', 'l', 's', 'e'] rest).map fun (_, r) => (.bool false, r)
      else if c = '-' then (readNumber true rest).map fun (n, r) => (.number n, r)
      else if (digit? c).isSome then
        (readNumber false (c :: rest)).map fun (n, r) => (.number n, r)
      else if c = '"' then
        (readString steps [] rest).map fun (s, r) => (.string s, r)
      else if c = '[' then
        match depth with
        | 0 => .error (faultAt .depth (c :: rest))
        | depth + 1 => readItems (readValue steps depth) steps [] rest
      else if c = '\x7b' then
        match depth with
        | 0 => .error (faultAt .depth (c :: rest))
        | depth + 1 => readFields (readValue steps depth) steps true [] rest
      else .error (faultAt .value (c :: rest))

/-- How deep arrays and objects may nest. -/
def depthLimit : Nat := 127

/-- Reads a text that holds one value and nothing else. -/
def readAll (cs : List Char) : Except Fault Json := do
  let (v, rest) ← readValue (cs.length + 1) depthLimit cs
  match skipSpace rest with
  | [] => .ok v
  | rest => .error (faultAt .trailingCharacters rest)

/-- Reads a document; a fault is given as its description. -/
def parse (source : String) : Except String Json :=
  match readAll source.toList with
  | .ok v => .ok v
  | .error fault => .error (fault.describe source.toList)

end ViewTree.Json
