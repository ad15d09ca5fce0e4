import ViewTree.Node

/-!
# Statements of a function

The short forms of expressions are written out as statements, in order. A name
that is bound more than once in a function is declared with `var` each time, so
that no declaration clashes with another.
-/

namespace ViewTree

/-- What a statement is. -/
inductive StatementKind where
  /-- A declaration. -/
  | const
  /-- A call for its effect. -/
  | call
  /-- A script, copied as it is. -/
  | script
deriving DecidableEq, Repr

/-- The name of a kind of statement. -/
def StatementKind.name : StatementKind → String
  | const => "const"
  | call => "call"
  | script => "script"

/-- One statement of a function. -/
structure Statement where
  kind : StatementKind
  /-- The pattern of a declaration as it is written. -/
  binding : Option String := none
  boundNames : List String := []
  code : String
  /-- The hook the statement calls. -/
  hook : Option String := none
  /-- Whether one of its names is bound again in the function. -/
  redeclared : Bool := false
deriving DecidableEq, Repr

namespace Statement

/-- The keyword of a declaration. -/
def keyword (s : Statement) : String := if s.redeclared then "var" else "const"

/-- The statement as it is written. -/
def render (s : Statement) : String :=
  match s.kind with
  | .const => s.keyword ++ " " ++ s.binding.getD "_" ++ " = " ++ s.code ++ ";"
  | .call => s.code ++ ";"
  | .script => s.code

/-- A declaration. -/
def declare (pattern : Pattern) (code : String) (hook : Option String) : Statement :=
  { kind := .const, binding := some pattern.render, boundNames := pattern.boundNames, code, hook }

/-- A call of a hook with an initial value, if there is one. -/
def hookCall (hook : String) (initial : Option Value) : String :=
  hook ++ "(" ++ (initial.map Value.code).getD "" ++ ")"

/-- The function of an effect; a body of several lines keeps them. -/
def callback (body : String) : String :=
  if Text.has body '\n' then "() => \x7b\n" ++ body ++ "\n\x7d"
  else "() => \x7b " ++ body ++ " \x7d"

/-- The call of an effect. -/
def effectCall (body : String) (dependencies : Option (List String)) : String :=
  match dependencies with
  | some deps => "useEffect(" ++ callback body ++ ", [" ++ Text.join ", " deps ++ "])"
  | none => "useEffect(" ++ callback body ++ ")"

/-- An expression written out. -/
def ofExpression : Expression → Statement
  | .script code => { kind := .script, code }
  | .state getter setter initial =>
    declare (.array [some ⟨getter, none⟩, some ⟨setter, none⟩] none)
      (hookCall "useState" initial) (some "useState")
  | .var pattern value => declare pattern (Text.trim value) none
  | .ref name initial => declare (.name name) (hookCall "useRef" initial) (some "useRef")
  | .effect body dependencies =>
    { kind := .call, code := effectCall (Text.trim body) dependencies, hook := some "useEffect" }

/-- The names that declarations bind, in order. -/
def declaredNames (statements : List Statement) : List String :=
  (statements.filter fun s => s.kind == .const).flatMap Statement.boundNames

/-- The names that occur more than once, in order of first occurrence. -/
def repeatedNames (names : List String) : List String :=
  (names.filter fun n => 2 ≤ names.count n).eraseDups

/-- Marks a declaration that binds one of the names. -/
def mark (names : List String) (s : Statement) : Statement :=
  if s.kind == .const && s.boundNames.any names.contains then { s with redeclared := true } else s

/-- The statements with every declaration marked that binds a name bound elsewhere
too, here or among the names bound outside; and those names. -/
def markRedeclared (statements : List Statement) (outer : List String) :
    List Statement × List String :=
  let names := repeatedNames (outer ++ declaredNames statements)
  (statements.map (mark names), names)

/-- The hooks that statements call, each once, in order of first use. -/
def hooks (statements : List Statement) : List String :=
  (statements.filterMap Statement.hook).eraseDups

end Statement

end ViewTree
