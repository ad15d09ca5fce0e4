import ViewTree.Style.Entry
import ViewTree.Text.Identifier
import ViewTree.Text.Lines

/-!
# Styles as sheet text

Property names, values, rule blocks and media queries as stylesheets write them.
-/

namespace ViewTree.Style

/-- Properties whose numbers have no unit. -/
def unitless : List String :=
  ["animation-iteration-count", "aspect-ratio", "border-image-outset", "border-image-slice",
   "border-image-width", "column-count", "columns", "fill-opacity", "flex", "flex-grow",
   "flex-negative", "flex-order", "flex-positive", "flex-shrink", "flood-opacity",
   "font-weight", "grid-area", "grid-column", "grid-column-end", "grid-column-start",
   "grid-row", "grid-row-end", "grid-row-start", "line-clamp", "line-height", "opacity",
   "order", "orphans", "stop-opacity", "stroke-dashoffset", "stroke-miterlimit",
   "stroke-opacity", "stroke-width", "tab-size", "widows", "z-index", "zoom"]

/-- A letter of a property name: an upper-case letter starts a new word. -/
def hyphenate (c : Char) : List Char :=
  if Text.isUpper c then ['-', Char.ofNat (c.toNat + 32)] else [c]

/-- The sheet's name of a property: `backgroundColor` is `background-color`, and a
name with a hyphen stays as it is. -/
def property (key : String) : String :=
  if Text.has key '-' then key else String.ofList (key.toList.flatMap hyphenate)

/-- The sheet's text of a value: numbers are lengths in pixels unless they are zero
or the property has no unit. -/
def value (property : String) : Json → String
  | .number n =>
    if unitless.contains property || n.isZero then n.toText else n.toText ++ "px"
  | .string s => s
  | .null => "initial"
  | other => other.render

/-- One declaration. It is marked important because it competes with styles set
on the element itself. -/
def declaration (key : String) (v : Json) : String :=
  property key ++ ": " ++ value (property key) v ++ " !important;"

/-- The declarations of a map, one a line. -/
def declarations (style : StyleMap) : String :=
  Text.join "\n" (style.map fun (k, v) => declaration k v)

/-- A rule: the declarations of a map under a selector. -/
def block (selector : String) (style : StyleMap) : String :=
  let body := declarations style
  if body.isEmpty then selector ++ " \x7b\x7d"
  else selector ++ " \x7b\n" ++ Text.indent body ++ "\n\x7d"

/-- The numbers of a predicate that are set, under the names given. -/
def bounds (p : Predicate) (minWidth maxWidth minHeight maxHeight : String) :
    List (String × Json.Number) :=
  [(minWidth, p.minWidth), (maxWidth, p.maxWidth), (minHeight, p.minHeight),
   (maxHeight, p.maxHeight)].filterMap fun (name, n) => n.map fun n => (name, n)

/-- The media query of a predicate. -/
def mediaQuery (p : Predicate) : String :=
  let sizes := (bounds p "min-width" "max-width" "min-height" "max-height").map fun (name, n) =>
    "(" ++ name ++ ": " ++ n.toText ++ "px)"
  let held := p.orientation.toList.map fun o => "(orientation: " ++ o.name ++ ")"
  Text.join " and " (sizes ++ held)

end ViewTree.Style
