import ViewTree.Json.Reader

/-!
# Passing over JSON values

A value that nobody asks for is passed over and not built. It only has to be
spelled correctly: a number may be out of range, an escape may stand for half a
character, and arrays and objects may nest as deep as the text goes. What is given
back is the text that follows.
-/

namespace ViewTree.Json

/-! ## Numbers -/

/-- Passes over what follows the `e` of a number. -/
def skipExponent (cs : List Char) : Except Fault (List Char) :=
  let digits :=
    match cs with
    | '+' :: rest => rest
    | '-' :: rest => rest
    | _ => cs
  match takeDigits digits with
  | ([], _) => .error (faultAt .number digits)
  | (_, rest) => .ok rest

/-- Passes over an exponent, if there is one. -/
def skipScale (cs : List Char) : Except Fault (List Char) :=
  match cs with
  | 'e' :: rest => skipExponent rest
  | 'E' :: rest => skipExponent rest
  | _ => .ok cs

/-- Passes over a number after its sign. -/
def skipNumber (cs : List Char) : Except Fault (List Char) :=
  match takeDigits cs with
  | ([], _) => .error (faultAt .number cs)
  | (0 :: _ :: _, _) => .error (faultAt .number cs.tail)
  | (_, '.' :: fraction) =>
    match takeDigits fraction with
    | ([], rest) => .error (faultAt .number rest)
    | (_, rest) => skipScale rest
  | (_, rest) => skipScale rest

/-! ## Strings -/

/-- Passes over what follows a backslash. -/
def skipEscape (cs : List Char) : Except Fault (List Char) :=
  match cs with
  | 'u' :: rest => (readHex rest).map Prod.snd
  | _ => (readEscape cs).map Prod.snd

/-- Passes over a string after its opening quote. Each step takes a character. -/
def skipString : (steps : Nat) → (cs : List Char) → Except Fault (List Char)
  | _, [] => .error ⟨.endInString, [], 0⟩
  | 0, cs => .error ⟨.endInString, cs, 0⟩
  | steps + 1, c :: cs =>
    if c = '"' then .ok cs
    else if c = '\\' then
      match skipEscape cs with
      | .ok rest => skipString steps rest
      | .error fault => .error fault
    else if c.toNat < 32 then .error ⟨.controlCharacter, c :: cs, 0⟩
    else skipString steps cs

/-! ## Values -/

/-- Passes over the items of an array after its bracket, or after an item. -/
def skipItems (item : List Char → Except Fault (List Char)) :
    (steps : Nat) → (first : Bool) → (cs : List Char) → Except Fault (List Char)
  | 0, _, cs => .error ⟨.endInList, cs, 0⟩
  | steps + 1, first, cs =>
    match skipSpace cs with
    | [] => .error ⟨.endInList, [], 0⟩
    | ']' :: rest => .ok rest
    | c :: rest =>
      if first || c = ',' then do
        let rest ← item (if first then c :: rest else rest)
        skipItems item steps false rest
      else .error (faultAt .listEnd (c :: rest))

/-- Passes over the name of a field and its colon. -/
def skipName (steps : Nat) (cs : List Char) : Except Fault (List Char) :=
  match skipSpace cs with
  | [] => .error ⟨.endInObject, [], 0⟩
  | '"' :: rest => do
    let rest ← skipString steps rest
    (readColon rest).map Prod.snd
  | rest => .error (faultAt .key rest)

/-- Passes over the fields of an object after its brace, or after a field. -/
def skipFields (item : List Char → Except Fault (List Char)) :
    (steps : Nat) → (first : Bool) → (cs : List Char) → Except Fault (List Char)
  | 0, _, cs => .error ⟨.endInObject, cs, 0⟩
  | steps + 1, first, cs =>
    match skipSpace cs with
    | [] => .error ⟨.endInObject, [], 0⟩
    | '\x7d' :: rest => .ok rest
    | c :: rest =>
      if first || c = ',' then do
        let rest ← skipName steps (if first then c :: rest else rest)
        let rest ← item rest
        skipFields item steps false rest
      else .error (faultAt .objectEnd (c :: rest))

/-- Passes over a value; `depth` is how deep arrays and objects may still nest, and
`steps` is as in `readValue`. -/
def skipValue (steps : Nat) : (depth : Nat) → (cs : List Char) → Except Fault (List Char)
  | depth, cs =>
    match skipSpace cs with
    | [] => .error ⟨.endInValue, [], 0⟩
    | c :: rest =>
      if c = 'n' then (readWord ['u', 'l', 'l'] rest).map Prod.snd
      else if c = 't' then (readWord ['r', 'u', 'e'] rest).map Prod.snd
      else if c = 'f' then (readWord ['a', 'l', 's', 'e'] rest).map Prod.snd
      else if c = '-' then skipNumber rest
      else if (digit? c).isSome then skipNumber (c :: rest)
      else if c = '"' then skipString steps rest
      else if c = '[' then
        match depth with
        | 0 => .error (faultAt .depth (c :: rest))
        | depth + 1 => skipItems (skipValue steps depth) steps true rest
      else if c = '\x7b' then
        match depth with
        | 0 => .error (faultAt .depth (c :: rest))
        | depth + 1 => skipFields (skipValue steps depth) steps true rest
      else .error (faultAt .value (c :: rest))

/-- Passes over the value in front; no value nests deeper than it is long. -/
def skip (cs : List Char) : Except Fault (List Char) := skipValue (cs.length + 1) cs.length cs

end ViewTree.Json
