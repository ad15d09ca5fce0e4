import ViewTree.Digest

/-!
# Digested texts

Texts are digested in a row, with a zero character between them. The row can be taken apart
again as far as the texts hold no zero character themselves.
-/

namespace ViewTree

namespace Digest

/-- No two of these texts that differ have the same digest. (There are more texts than
digests, so this can be said of some texts and not of all.) -/
def CollisionFree (texts : List String) : Prop := ∀ a ∈ texts, ∀ b ∈ texts, hexOfText a = hexOfText b → a = b

theorem CollisionFree.eq_iff {texts : List String} (h : CollisionFree texts) {a b : String} (ha : a ∈ texts)
    (hb : b ∈ texts) : hexOfText a = hexOfText b ↔ a = b :=
  ⟨h a ha b hb, congrArg hexOfText⟩

end Digest

namespace Text

/-- The character that stands between digested texts. -/
def zero : Char := '\x00'

/-- The zero character ends the first text, if that does not hold one. -/
theorem append_zero_inj {a b c d : String} (ha : zero ∉ a.toList) (hc : zero ∉ c.toList)
    (h : a ++ "\x00" ++ b = c ++ "\x00" ++ d) : a = c ∧ b = d := by
  have hlist : a.toList ++ zero :: b.toList = c.toList ++ zero :: d.toList := by
    simpa [zero] using congrArg String.toList h
  have hparts := congrArg (List.splitOn zero) hlist
  rw [List.splitOn_append_cons_self_of_not_mem ha, List.splitOn_append_cons_self_of_not_mem hc,
    List.cons.injEq] at hparts
  have hrest := congrArg [zero].intercalate hparts.2
  rw [List.intercalate_splitOn, List.intercalate_splitOn] at hrest
  exact ⟨String.toList_injective hparts.1, String.toList_injective hrest⟩

end Text

end ViewTree
