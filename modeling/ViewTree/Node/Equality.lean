import ViewTree.Node

/-!
# Equality of nodes

Two nodes are equal when they stand at the same place of their documents and say the
same: name, kind, props, content, expressions, imports and style. The order of
fields of objects, of attributes and of style properties does not count, nor do
contexts, sheets and positions.
-/

namespace ViewTree

/-- Equality of optional values. -/
def Value.sameOption : Option Value → Option Value → Bool
  | none, none => true
  | some a, some b => a.same b
  | _, _ => false

/-- Equality of lists, item by item. -/
def sameList {α : Type} (same : α → α → Bool) : List α → List α → Bool
  | [], [] => true
  | a :: as, b :: bs => same a b && sameList same as bs
  | _, _ => false

/-- Equality of expressions. -/
def Expression.same : Expression → Expression → Bool
  | .script a, .script b => a == b
  | .state g s i, .state g' s' i' => g == g' && s == s' && Value.sameOption i i'
  | .var p v, .var p' v' => p == p' && v == v'
  | .ref n i, .ref n' i' => n == n' && Value.sameOption i i'
  | .effect b d, .effect b' d' => b == b' && d == d'
  | _, _ => false

/-- Equality of entries of props. -/
def PropEntry.same : PropEntry → PropEntry → Bool
  | .attributes a, .attributes b => a.sameBy Value.same b
  | .spread a, .spread b => a == b
  | _, _ => false

/-- Equality of kinds of nodes. -/
def NodeKind.same : NodeKind → NodeKind → Bool
  | .component p, .component p' => p == p'
  | .element t, .element t' => t == t'
  | .map d v i, .map d' v' i' => d == d' && v == v' && i == i'
  | .branch c, .branch c' => c == c'
  | .script c, .script c' => c == c'
  | _, _ => false

/-- Equality of heads. -/
def Head.same (a b : Head) : Bool :=
  a.name == b.name && a.kind.same b.kind && sameList PropEntry.same a.props b.props &&
    sameList Expression.same a.expressions b.expressions && a.imports == b.imports &&
    sameList StyleEntry.same a.style b.style && a.path == b.path

mutual

/-- Equality of content. -/
def Content.same : Content → Content → Bool
  | .text a, .text b => a == b
  | .literal a, .literal b => a.same b
  | .script a, .script b => a == b
  | .node h children fallback, .node h' children' fallback' =>
    h.same h' && sameContents children children' && sameContents fallback fallback'
  | _, _ => false

/-- Equality of content, piece by piece. -/
def sameContents : List Content → List Content → Bool
  | [], [] => true
  | a :: as, b :: bs => a.same b && sameContents as bs
  | _, _ => false

end

/-- Equality of nodes. -/
def Node.same (a b : Node) : Bool := a.toContent.same b.toContent

end ViewTree
