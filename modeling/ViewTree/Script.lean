import ViewTree.Json.Value

/-!
# Scripts and values

Scripts are opaque expressions of the emitted code. Where a document can hold a
script or a literal, a string between braces is a script reference and everything
else is a literal.
-/

namespace ViewTree

namespace Script

/-- The part between the outermost braces, if the characters are a script
reference. -/
def inside? : List Char → Option (List Char)
  | '\x7b' :: rest =>
    match rest.reverse with
    | '\x7d' :: inner => some inner.reverse
    | _ => none
  | _ => none

/-- The script of a reference: what stands between the braces, trimmed. -/
def reference? (raw : String) : Option String :=
  (inside? (Text.dropAroundWhile Text.isSpace raw.toList)).map fun inner =>
    String.ofList (Text.dropAroundWhile Text.isSpace inner)

/-- Whether a text sets out to be a script reference. -/
def looksLikeReference (raw : String) : Bool :=
  (raw.toList.dropWhile Text.isSpace).head? == some '\x7b'

end Script

/-- A script or a literal. -/
inductive Value where
  | script (code : String)
  | literal (value : Json)
deriving Repr, Inhabited

namespace Value

/-- A script reference is a script; anything else is a literal. -/
def ofJson : Json → Value
  | .string s =>
    match Script.reference? s with
    | some code => .script code
    | none => .literal (.string s)
  | v => .literal v

/-- The value as an expression of the emitted code, where JSON is read as it is. -/
def code : Value → String
  | script code => code
  | literal v => v.render

/-- Equality of values; literals are equal whatever the order of fields. -/
def same : Value → Value → Bool
  | script a, script b => a == b
  | literal a, literal b => a.same b
  | _, _ => false

end Value

/-- The code of a value in a place that holds code: strings are scripts as they
stand, other values their JSON text. -/
def Json.asCode : Json → String
  | .string s => s
  | v => v.render

end ViewTree
