import ViewTree.Load.Basic
import ViewTree.Script
import ViewTree.Style.Entry

/-!
# Loading styles and style formats
-/

namespace ViewTree.Load

/-- The map of a style entry. -/
def styleMap (fields : Keyed Json) (path : String) : Load (Option StyleMap) :=
  match fields.lookup "style" with
  | some (.object style) => pure (some style)
  | _ => fail .style (field path "style") .styleMissing

/-- The scripts among the values of a style map, with their keys. -/
def scriptsIn (style : StyleMap) : List (String × String) :=
  style.filterMap fun (key, value) =>
    match value with
    | .string s => if (Script.reference? s).isSome then some (key, s) else none
    | _ => none

/-- The map of an entry that can become sheet text, so that its values are
literals. -/
def staticStyleMap (fields : Keyed Json) (path : String) : Load (Option StyleMap) := do
  match ← styleMap fields path with
  | none => pure none
  | some style =>
    let scripts := scriptsIn style
    let _ ← Noted.each (fun (key, text) =>
      problem .style (field (field path "style") key) (.scriptInStaticStyle text)) scripts
    pure (if scripts.isEmpty then some style else none)

/-- An entry under a format. -/
def formatEntry (name : Json) (fields : Keyed Json) (path : String) :
    Load (Option StyleEntry) :=
  match name with
  | .string format => do
    Noted.note { formats := [{ format, path }] }
    let style ← staticStyleMap fields path
    pure (style.map fun s => .format format s)
  | _ => fail .style path .formatName

/-- An entry under a selector. -/
def selectorEntry (name : Json) (fields : Keyed Json) (path : String) :
    Load (Option StyleEntry) :=
  match nonBlank? (some name) with
  | some selector => do
    let style ← staticStyleMap fields path
    pure (style.map fun s => .selector selector s)
  | none => fail .style path .selectorBlank

/-- An entry under a condition. -/
def conditionalEntry (fields : Keyed Json) (path : String) : Load (Option StyleEntry) := do
  match ← requiredScript fields "condition" path .style "conditional style" with
  | none => pure none
  | some predicate =>
    let style ← styleMap fields path
    pure (style.map fun s => .conditional predicate s)

/-- An entry given as an object: its first known key says what it is. -/
def styleObject (fields : Keyed Json) (path : String) : Load (Option StyleEntry) :=
  match fields.lookup "format", fields.lookup "selector" with
  | some name, _ => formatEntry name fields path
  | none, some name => selectorEntry name fields path
  | none, none =>
    if fields.has "condition" then conditionalEntry fields path
    else if fields.has "script" then do
      let code ← requiredScript fields "script" path .style "dynamic style"
      pure (code.map .dynamic)
    else pure (some (.plain fields))

/-- One entry of a style. -/
def styleEntry (value : Json) (path : String) : Load (Option StyleEntry) :=
  match value with
  | .string text =>
    if Script.looksLikeReference text then
      match Script.reference? text with
      | some code =>
        if code.isEmpty then fail .style path (.malformedDynamicStyle text)
        else pure (some (.dynamic code))
      | none => fail .style path (.malformedDynamicStyle text)
    else pure (some (.text text))
  | .object fields => styleObject fields path
  | _ => fail .style path .styleShape

/-- The style of a node: one entry, or an array of entries. -/
def styles (value : Json) (path : String) : Load (List StyleEntry) :=
  match value with
  | .null => pure []
  | .array items => do
    let loaded ← Noted.eachIndexed (fun i v => styleEntry v (item path i)) items
    pure (loaded.filterMap id)
  | single => do
    let entry ← styleEntry single path
    pure entry.toList

/-- Sets one condition of a predicate; `none` if the key or the value is unfit. -/
def setCondition (p : Predicate) (key : String) (value : Json) : Option Predicate :=
  match key, value with
  | "orientation", .string o =>
    (Orientation.ofName? o).map fun o => { p with orientation := some o }
  | "minWidth", .number n => some { p with minWidth := some n }
  | "maxWidth", .number n => some { p with maxWidth := some n }
  | "minHeight", .number n => some { p with minHeight := some n }
  | "maxHeight", .number n => some { p with maxHeight := some n }
  | _, _ => none

/-- The cause of a condition that is unfit. -/
def conditionCause (key : String) (value : Json) : Cause :=
  if Cause.predicateKeys.contains key then .predicateValue key value else .predicateKey key

/-- Reads the conditions of a predicate; `none` if any is unfit. -/
def conditions (path : String) : Keyed Json → Predicate → Load (Option Predicate)
  | [], p => pure (some p)
  | (key, value) :: more, p =>
    match setCondition p key value with
    | some q => conditions path more q
    | none => do
      problem .formatPredicate (field path key) (conditionCause key value)
      let _ ← conditions path more p
      pure none

/-- A style format: a predicate that sets at least one condition. -/
def formatPredicate (value : Json) (path : String) : Load (Option Predicate) :=
  match value with
  | .object fields => do
    match ← conditions path fields {} with
    | none => pure none
    | some p =>
      if p.isEmpty then fail .formatPredicate path .predicateEmpty else pure (some p)
  | _ => fail .formatPredicate path .predicateNotObject

end ViewTree.Load
