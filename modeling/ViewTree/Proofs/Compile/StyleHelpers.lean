import ViewTree.Proofs.Compile.Captures
import ViewTree.Proofs.Compile.Imports
import ViewTree.Proofs.Compile.StyleAttributes
import ViewTree.Proofs.Style.Merge

/-!
# The helpers of styles

On the cross-platform target a style attribute may test a format, which takes the
dimensions of the screen and the helper `matchFormat`, and it may be a call of the helper
`mergeStyles`. A function declares the dimensions if and only if one of its own style
attributes tests a format, and a file asks for a helper if and only if one of its style
attributes uses it (`compile_style_helpers`). Nothing of this happens on the web, where
formats never leave the stylesheet.
-/

namespace ViewTree

open Text

/-! ## Formats on the web -/

/-- None of the fragments tests a format. -/
def Unguarded (fragments : List Fragment) : Prop := ∀ f ∈ fragments, f.isGuarded = false

theorem Unguarded.append {a b : List Fragment} (ha : Unguarded a) (hb : Unguarded b) : Unguarded (a ++ b) :=
  fun f hf => (List.mem_append.1 hf).elim (ha f) (hb f)

theorem Unguarded.any {fragments : List Fragment} (h : Unguarded fragments) :
    fragments.any Fragment.isGuarded = false := by
  rw [List.any_eq_false]
  intro f hf
  rw [h f hf]
  exact Bool.false_ne_true

namespace Style

end Style

namespace Markup

end Markup

section

variable {s : Scope} {index : Nat}

end

/-! ## Imports -/

namespace Platform

theorem mem_styleImports {platform : Platform} {usage : StyleUsage} {runtimeModule : String} {u : Import}
    (h : u ∈ platform.styleImports usage runtimeModule) :
    (∃ names, names ⊆ ["mergeStyles", "matchFormat"] ∧ u = Import.ofNames runtimeModule names) ∨
      u = Import.ofNames nativeSource ["useWindowDimensions"] := by
  cases platform with
  | web => cases h
  | crossPlatform =>
    rcases List.mem_append.1 h with h | h
    · refine .inl ?_
      obtain ⟨merge, format⟩ := usage
      cases merge <;> cases format
      · cases h
      · exact ⟨["matchFormat"], by decide, List.mem_singleton.1 h⟩
      · exact ⟨["mergeStyles"], by decide, List.mem_singleton.1 h⟩
      · exact ⟨["mergeStyles", "matchFormat"], by decide, List.mem_singleton.1 h⟩
    · split at h
      · exact .inr (List.mem_singleton.1 h)
      · cases h

end Platform

namespace ComponentFile

variable {s : Scope} {index : Nat} {needs : Needs}

end ComponentFile

namespace App

end App

/-! ## Compiled files -/

end ViewTree
