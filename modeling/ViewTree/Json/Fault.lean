import ViewTree.Text.Basic

/-!
# Faults of a JSON text

A fault has a reason and a place. The place is kept as the part of the text not
yet read together with the number of bytes looked at beyond it; `Fault.describe`
turns it into a line and a column, counted in bytes.
-/

namespace ViewTree.Json

/-- Why a text is not a JSON value. -/
inductive Reason where
  | endInValue
  | endInList
  | endInObject
  | endInString
  | colon
  | listEnd
  | objectEnd
  | ident
  | value
  | escape
  | number
  | outOfRange
  | controlCharacter
  | key
  | loneSurrogate
  | shortSurrogate
  | trailingComma
  | trailingCharacters
  | depth
  /-- A value of the wrong kind for what is being read. -/
  | unfit (message : String)
deriving DecidableEq, Repr

namespace Reason

/-- The wording of a reason. -/
def message : Reason → String
  | endInValue => "EOF while parsing a value"
  | endInList => "EOF while parsing a list"
  | endInObject => "EOF while parsing an object"
  | endInString => "EOF while parsing a string"
  | colon => "expected `:`"
  | listEnd => "expected `,` or `]`"
  | objectEnd => "expected `,` or `\x7d`"
  | ident => "expected ident"
  | value => "expected value"
  | escape => "invalid escape"
  | number => "invalid number"
  | outOfRange => "number out of range"
  | controlCharacter => "control character (\\u0000-\\u001F) found while parsing a string"
  | key => "key must be a string"
  | loneSurrogate => "lone leading surrogate in hex escape"
  | shortSurrogate => "unexpected end of hex escape"
  | trailingComma => "trailing comma"
  | trailingCharacters => "trailing characters"
  | depth => "recursion limit exceeded"
  | unfit message => message

end Reason

/-- A fault found in front of `rest`, `ahead` bytes into it. -/
structure Fault where
  reason : Reason
  rest : List Char
  ahead : Nat
deriving DecidableEq, Repr

/-- The number of bytes of the characters in UTF-8. -/
def byteCount (cs : List Char) : Nat := cs.foldl (fun n c => n + c.utf8Size) 0

/-- The line and the column after `offset` bytes, starting from the given ones.
Lines count from one, and a column is the number of bytes of the line so far. -/
def locateFrom (line column : Nat) : List Char → Nat → Nat × Nat
  | [], _ => (line, column)
  | c :: cs, offset =>
    if offset = 0 then (line, column)
    else if c = '\n' then locateFrom (line + 1) 0 cs (offset - 1)
    else if offset ≤ c.utf8Size then (line, column + offset)
    else locateFrom line (column + c.utf8Size) cs (offset - c.utf8Size)

/-- The reason and the place of a fault in `source`. -/
def Fault.describe (fault : Fault) (source : List Char) : String :=
  let offset := byteCount source - byteCount fault.rest + fault.ahead
  let (line, column) := locateFrom 1 0 source offset
  fault.reason.message ++ " at line " ++ Text.decimal line ++ " column " ++
    Text.decimal column

end ViewTree.Json
