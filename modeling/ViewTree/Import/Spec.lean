/-!
# Imports

An import takes something from a source: nothing but its effects, its default
export, everything under one name, or single symbols.
-/

namespace ViewTree

/-- A symbol taken from a source, bound under its own name or another. -/
structure NamedImport where
  symbol : String
  renamed : Option String := none
deriving DecidableEq, Repr

/-- The name the symbol is bound under. -/
def NamedImport.localName (i : NamedImport) : String := i.renamed.getD i.symbol

/-- What an import takes. -/
inductive ImportKind where
  /-- Only the effects of loading the source. -/
  | effects
  /-- The default export. -/
  | default (name : String)
  /-- Everything, under one name. -/
  | everything (name : String)
  | named (items : List NamedImport)
deriving DecidableEq, Repr

/-- An import, with the place in the document it comes from. -/
structure Import where
  source : String
  kind : ImportKind
  path : String
deriving DecidableEq, Repr

/-- What a local name stands for in its source. -/
inductive Symbol where
  | default
  | everything
  | named (name : String)
deriving DecidableEq, Repr

/-- A symbol in the words of messages. -/
def Symbol.describe : Symbol → String
  | default => "default"
  | everything => "*"
  | named name => name

namespace Import

/-- The symbols an import binds, each with its local name. -/
def entries (i : Import) : List (Symbol × String) :=
  match i.kind with
  | .effects => []
  | .default name => [(.default, name)]
  | .everything name => [(.everything, name)]
  | .named items => items.map fun item => (.named item.symbol, item.localName)

/-- The place recorded on imports that no document asked for. -/
def generatedPath : String := "(generated)"

/-- Symbols taken on the compiler's own account. -/
def ofNames (source : String) (symbols : List String) : Import :=
  ⟨source, .named (symbols.map fun s => { symbol := s }), generatedPath⟩

/-- A default export taken on the compiler's own account. -/
def ofDefault (source name : String) : Import := ⟨source, .default name, generatedPath⟩

/-- A source loaded on the compiler's own account. -/
def ofSource (source : String) : Import := ⟨source, .effects, generatedPath⟩

end Import

end ViewTree
