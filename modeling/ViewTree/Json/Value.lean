import ViewTree.Json.Number
import ViewTree.Keyed
import ViewTree.Text.Basic
import ViewTree.Text.Quoted

/-!
# JSON values and their text

Objects keep the order of their fields. `Json.render` writes a value without
blanks, `Json.pretty` with one field or item a line. Only quotes, backslashes and
control characters are escaped in strings. Messages say what a value is that was not
expected, and which choices there are for a text.
-/

namespace ViewTree

/-- A JSON value. A field name occurs once in an object that was read. -/
inductive Json where
  | null
  | bool (b : Bool)
  | number (n : Json.Number)
  | string (s : String)
  | array (items : List Json)
  | object (fields : List (String × Json))
deriving Repr, Inhabited

namespace Json

/-- A character as it stands in a quoted string. -/
def escapeChar (c : Char) : List Char :=
  if c = '"' then ['\\', '"']
  else if c = '\\' then ['\\', '\\']
  else if c = '\n' then ['\\', 'n']
  else if c = '\r' then ['\\', 'r']
  else if c = '\t' then ['\\', 't']
  else if c.toNat = 8 then ['\\', 'b']
  else if c.toNat = 12 then ['\\', 'f']
  else if c.toNat < 32 then
    ['\\', 'u', '0', '0', Text.hexDigit (c.toNat / 16), Text.hexDigit (c.toNat % 16)]
  else [c]

/-- A string between quotes. -/
def quote (s : String) : String :=
  String.ofList ('"' :: s.toList.flatMap escapeChar ++ ['"'])

mutual

/-- The value without blanks. -/
def render : Json → String
  | .null => "null"
  | .bool true => "true"
  | .bool false => "false"
  | .number n => n.toText
  | .string s => quote s
  | .array items => "[" ++ Text.join "," (renderItems items) ++ "]"
  | .object fields => "\x7b" ++ Text.join "," (renderFields fields) ++ "\x7d"

/-- The items of an array, one by one. -/
def renderItems : List Json → List String
  | [] => []
  | v :: rest => render v :: renderItems rest

/-- The fields of an object, one by one. -/
def renderFields : List (String × Json) → List String
  | [] => []
  | (k, v) :: rest => (quote k ++ ":" ++ render v) :: renderFields rest

end

/-- A bracketed block with one entry a line, two blanks deeper than its brackets. -/
def block (depth : Nat) (opening closing : String) (entries : List String) : String :=
  match entries with
  | [] => opening ++ closing
  | _ :: _ =>
    let margin := String.ofList (List.replicate (2 * depth) ' ')
    let lines := entries.map fun e => margin ++ "  " ++ e
    opening ++ "\n" ++ Text.join ",\n" lines ++ "\n" ++ margin ++ closing

mutual

/-- The value with one entry a line, inside a block of the given depth. -/
def pretty (depth : Nat) : Json → String
  | .array items => block depth "[" "]" (prettyItems (depth + 1) items)
  | .object fields => block depth "\x7b" "\x7d" (prettyFields (depth + 1) fields)
  | .null => "null"
  | .bool true => "true"
  | .bool false => "false"
  | .number n => n.toText
  | .string s => quote s

/-- The items of an array, one by one. -/
def prettyItems (depth : Nat) : List Json → List String
  | [] => []
  | v :: rest => pretty depth v :: prettyItems depth rest

/-- The fields of an object, one by one. -/
def prettyFields (depth : Nat) : List (String × Json) → List String
  | [] => []
  | (k, v) :: rest => (quote k ++ ": " ++ pretty depth v) :: prettyFields depth rest

end

mutual

/-- Equality of values, whatever the order of fields. -/
def same : Json → Json → Bool
  | .null, .null => true
  | .bool a, .bool b => a == b
  | .number a, .number b => a.same b
  | .string a, .string b => a == b
  | .array a, .array b => sameItems a b
  | .object a, .object b => a.length == b.length && sameFields a b
  | _, _ => false

/-- Equality item by item. -/
def sameItems : List Json → List Json → Bool
  | [], [] => true
  | a :: as, b :: bs => same a b && sameItems as bs
  | _, _ => false

/-- Each field of the first list has an equal one of its name in the second. -/
def sameFields : List (String × Json) → List (String × Json) → Bool
  | [], _ => true
  | (k, v) :: rest, others =>
    (match others.lookup k with
      | some w => same v w
      | none => false) && sameFields rest others

end

/-- The string, if the value is one. -/
def asString? : Json → Option String
  | .string s => some s
  | _ => none

/-! ## Values in messages -/

/-- What a value is, in the words of a message. -/
def describe : Json → String
  | .null => "null"
  | .bool true => "boolean `true`"
  | .bool false => "boolean `false`"
  | .number (.double d) => "floating point `" ++ (Number.double d).toText ++ "`"
  | .number n => "integer `" ++ n.toText ++ "`"
  | .string s => "string " ++ Text.quoted s
  | .array _ => "sequence"
  | .object _ => "map"

/-- The message about a value that is not what was expected. -/
def unfitMessage (value : Json) (expected : String) : String :=
  "invalid type: " ++ value.describe ++ ", expected " ++ expected

/-- The message about a text that is none of several choices. -/
def unknownChoice (s : String) (choices : List String) : String :=
  "unknown variant `" ++ s ++ "`, expected one of " ++
    Text.join ", " (choices.map fun name => "`" ++ name ++ "`")

end Json

end ViewTree
