import ViewTree.Json.Skip

/-!
# Reading values of a known type

Where the type of a value is known in advance, it is read straight from the text,
and the first fault is the one that comes first in the text. A record is an object,
whose fields come in any order and of which those that are not asked for are passed
over, or an array of its fields in their order.
-/

namespace ViewTree.Json

/-! ## Scalars -/

/-- The fault of a value that is not what was expected. A scalar is read first,
an array or object is left where it is. -/
def unfitFault (expected : String) (cs : List Char) : Fault :=
  match skipSpace cs with
  | [] => faultAt .endInValue []
  | '[' :: rest => ⟨.unfit (unfitMessage (.array []) expected), '[' :: rest, 0⟩
  | '\x7b' :: rest => ⟨.unfit (unfitMessage (.object []) expected), '\x7b' :: rest, 0⟩
  | start =>
    match readValue (start.length + 1) 0 start with
    | .ok (v, rest) => ⟨.unfit (unfitMessage v expected), rest, 0⟩
    | .error fault => fault

/-- Reads a string. -/
def readText (cs : List Char) : Except Fault (String × List Char) :=
  match skipSpace cs with
  | '"' :: rest => readString rest.length [] rest
  | start => .error (unfitFault "a string" start)

/-- Reads a truth value. -/
def readBool (cs : List Char) : Except Fault (Bool × List Char) :=
  match skipSpace cs with
  | 't' :: rest => (readWord ['r', 'u', 'e'] rest).map fun (_, r) => (true, r)
  | 'f' :: rest => (readWord ['a', 'l', 's', 'e'] rest).map fun (_, r) => (false, r)
  | start => .error (unfitFault "a boolean" start)

/-- Reads `null`; gives what follows. -/
def readNull (cs : List Char) : Except Fault (List Char) :=
  match skipSpace cs with
  | 'n' :: rest => (readWord ['u', 'l', 'l'] rest).map Prod.snd
  | start => .error (unfitFault "unit" start)

/-! ## Choices -/

/-- Names with what they stand for. -/
abbrev Choices (α : Type) := List (String × α)

/-- Reads the name of a choice after its quote. -/
def readChoiceName {α : Type} (choices : Choices α) (cs : List Char) :
    Except Fault (α × List Char) := do
  let (s, rest) ← readString cs.length [] cs
  match choices.lookup s with
  | some a => .ok (a, rest)
  | none => .error ⟨.unfit (unknownChoice s (choices.map Prod.fst)), rest, 0⟩

/-- Reads a choice: its name, or an object with its name as only field, which is
`null`. An object without a field lacks a value; a field whose name is no string has
a fault of its own. -/
def readChoice {α : Type} (choices : Choices α) (cs : List Char) :
    Except Fault (α × List Char) :=
  match skipSpace cs with
  | [] => .error (faultAt .endInValue [])
  | '"' :: rest => readChoiceName choices rest
  | '\x7b' :: rest =>
    match skipSpace rest with
    | [] => .error (faultAt .endInObject [])
    | '\x7d' :: rest => .error (faultAt .value ('\x7d' :: rest))
    | '"' :: rest => do
      let (a, rest) ← readChoiceName choices rest
      let (_, rest) ← readColon rest
      let rest ← readNull rest
      match skipSpace rest with
      | '\x7d' :: rest => .ok (a, rest)
      | [] => .error ⟨.endInObject, [], 0⟩
      | rest => .error ⟨.value, rest, 0⟩
    | rest => .error (faultAt .key rest)
  | start => .error (faultAt .value start)

/-! ## Lists -/

/-- Reads the items of a list after its bracket, or after an item. -/
def readListItems {α : Type} (item : List Char → Except Fault (α × List Char)) :
    (steps : Nat) → (first : Bool) → (cs : List Char) → Except Fault (List α × List Char)
  | 0, _, cs => .error ⟨.endInList, cs, 0⟩
  | steps + 1, first, cs =>
    match nextItem first cs with
    | .error fault => .error fault
    | .ok (.close rest) => .ok ([], rest)
    | .ok (.entry start) => do
      let (a, rest) ← item start
      let (as, rest) ← readListItems item steps false rest
      .ok (a :: as, rest)

/-- Reads a list. -/
def readList {α : Type} (item : List Char → Except Fault (α × List Char)) (cs : List Char) :
    Except Fault (List α × List Char) :=
  match skipSpace cs with
  | '[' :: rest => readListItems item (rest.length + 1) true rest
  | start => .error (unfitFault "a sequence" start)

/-! ## Records -/

/-- A kind of record: its name in messages, the names of its fields in their order,
and how the value of a field joins the draft of what has been read. -/
structure RecordShape (σ : Type) where
  title : String
  names : List String
  read : σ → String → List Char → Except Fault (σ × List Char)

namespace RecordShape

variable {σ : Type}

/-- The fault of a field that comes a second time, found after its name. -/
def repeatedFault (name : String) (rest : List Char) : Fault :=
  let rest := skipSpace rest
  ⟨.unfit ("duplicate field `" ++ name ++ "`"), rest, if rest.head? = some '\x7d' then 1 else 0⟩

/-- Reads the fields of an object after its brace, or after a field; `seen` are the
names that came. -/
def readFields (shape : RecordShape σ) :
    (steps : Nat) → (first : Bool) → (seen : List String) → σ → List Char →
      Except Fault (σ × List Char)
  | 0, _, _, _, cs => .error ⟨.endInObject, cs, 0⟩
  | steps + 1, first, seen, draft, cs =>
    match nextField first cs with
    | .error fault => .error fault
    | .ok (.close rest) => .ok (draft, rest)
    | .ok (.entry start) => do
      let (name, rest) ← readString steps [] start
      if !shape.names.contains name then
        let (_, rest) ← readColon rest
        let rest ← skip rest
        shape.readFields steps false seen draft rest
      else if seen.contains name then .error (repeatedFault name rest)
      else
        let (_, rest) ← readColon rest
        let (draft, rest) ← shape.read draft name rest
        shape.readFields steps false (name :: seen) draft rest

/-- Takes the end of an array that has all its items. -/
def readEnd (cs : List Char) : Except Fault (List Char) :=
  match skipSpace cs with
  | ']' :: rest => .ok rest
  | [] => .error ⟨.endInList, [], 0⟩
  | ',' :: rest =>
    match skipSpace rest with
    | ']' :: more => .error (faultAt .trailingComma (']' :: more))
    | more => .error (faultAt .trailingCharacters more)
  | rest => .error (faultAt .trailingCharacters rest)

/-- Reads the items of an array after its bracket, or after an item; `names` are
those of the fields to come. -/
def readItems (shape : RecordShape σ) :
    (names : List String) → (first : Bool) → σ → List Char → Except Fault (σ × List Char)
  | [], _, draft, cs => (readEnd cs).map fun rest => (draft, rest)
  | name :: names, first, draft, cs =>
    match nextItem first cs with
    | .error fault => .error fault
    | .ok (.close rest) => .ok (draft, rest)
    | .ok (.entry start) => do
      let (draft, rest) ← shape.read draft name start
      shape.readItems names false draft rest

/-- Reads a record into a draft. -/
def readRecord (shape : RecordShape σ) (draft : σ) (cs : List Char) :
    Except Fault (σ × List Char) :=
  match skipSpace cs with
  | '\x7b' :: rest => shape.readFields (rest.length + 1) true [] draft rest
  | '[' :: rest => shape.readItems shape.names true draft rest
  | start => .error (unfitFault shape.title start)

end RecordShape

/-- Gives the value of a field that must have come. -/
def required {α : Type} (name : String) (value : Option α) (rest : List Char) :
    Except Fault α :=
  match value with
  | some a => .ok a
  | none => .error ⟨.unfit ("missing field `" ++ name ++ "`"), rest, 0⟩

/-- Reads a text that holds one value of a known type and nothing else. -/
def readWhole {α : Type} (value : List Char → Except Fault (α × List Char)) (cs : List Char) :
    Except Fault α := do
  let (a, rest) ← value cs
  match skipSpace rest with
  | [] => .ok a
  | rest => .error (faultAt .trailingCharacters rest)

end ViewTree.Json
