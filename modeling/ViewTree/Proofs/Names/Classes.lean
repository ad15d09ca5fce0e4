import ViewTree.Proofs.Names.Rounds
import ViewTree.Proofs.Text.Cleaning

/-!
# What classes look like

A class given to a node is made of lower-case letters, digits and hyphens
(`Names.resolve_isClassName`): its stem, six digits of its place, and a number if the two
are taken. So it ends at the first blank or quote wherever it is written.
-/

namespace ViewTree

namespace Text

/-- A character of a class name. -/
def isClassChar (c : Char) : Bool := isStemChar c || c == '-'

/-- Whether the text is made of characters of class names. -/
def isClassName (s : String) : Bool := s.toList.all isClassChar

theorem isClassName_append (s t : String) : isClassName (s ++ t) = (isClassName s && isClassName t) := by
  simp [isClassName]

theorem isClassName_toKebab (name : String) : isClassName (toKebab name) = true := by
  rw [isClassName, List.all_eq_true]
  intro c hc
  unfold isClassChar
  rcases (isStem_toKebab name).chars c hc with h | rfl
  · rw [h, Bool.true_or]
  · decide

theorem isClassChar_hexDigit : ∀ n < 16, isClassChar (hexDigit n) = true := by decide

theorem isClassName_decimal (n : Nat) : isClassName (decimal n) = true := by
  rw [isClassName, List.all_eq_true]
  intro c hc
  simp [isClassChar, isStemChar, isDigit_of_mem_decimal hc]

end Text

theorem Digest.isClassName_hexOfText (text : String) : Text.isClassName (hexOfText text) = true := by
  unfold hexOfText
  dsimp only
  rw [Text.isClassName, String.toList_ofList, List.all_eq_true]
  intro c hc
  obtain ⟨w, -, hc⟩ := List.mem_flatMap.1 hc
  obtain ⟨i, -, rfl⟩ := List.mem_map.1 hc
  exact Text.isClassChar_hexDigit _ (Nat.mod_lt _ (by decide))

namespace Names

theorem isClassName_pathDigits (path : String) : Text.isClassName (pathDigits path) = true := by
  have hdigits := List.all_eq_true.1 (Digest.isClassName_hexOfText path)
  rw [pathDigits, Text.isClassName, String.toList_ofList, List.all_eq_true]
  exact fun c hc => hdigits c (List.mem_of_mem_take hc)

theorem isClassName_classStem (head : Head) (owner : String) : Text.isClassName (classStem head owner) = true := by
  unfold classStem
  split
  · exact Text.isClassName_toKebab _
  · exact Text.isClassName_toKebab _

theorem isClassName_pick {r : Registry} (hsep : r.separator = "-") {base : String}
    (h : Text.isClassName base = true) : Text.isClassName (r.pick base) = true := by
  rcases r.pick_cases base with ⟨-, he⟩ | ⟨-, n, he, -⟩
  · rw [he]
    exact h
  · rw [he, Registry.numbered, hsep, Text.isClassName_append, Text.isClassName_append, h, Text.isClassName_decimal]
    decide

/-- The classes given so far are class names, and so will be those with a number. -/
structure PlainClasses (s : Classing) : Prop where
  separator : s.registry.separator = "-"
  classes : ∀ k ∈ s.naming.classes.map Prod.snd, Text.isClassName k = true

theorem classNode_plain {s : Classing} (h : PlainClasses s) (n : Node) : PlainClasses (classNode s n) := by
  unfold classNode
  dsimp only
  split
  · refine ⟨h.separator, fun k hk => ?_⟩
    have hsub := Assigned.values_give (List.Sublist.refl (s.naming.classes.map Prod.snd)) n.head.position
    rcases List.mem_append.1 ((hsub _).subset hk) with hk | hk
    · exact h.classes k hk
    · rw [List.mem_singleton.1 hk]
      refine isClassName_pick h.separator ?_
      rw [Text.isClassName_append, Text.isClassName_append, isClassName_classStem, isClassName_pathDigits]
      decide
  · exact ⟨h.separator, h.classes⟩

theorem classComponent_plain {s : Classing} (h : PlainClasses s) (c : Node) : PlainClasses (classComponent s c) :=
  List.foldlRecOn (motive := PlainClasses) c.nodes classNode ⟨h.separator, h.classes⟩
    fun _ ht n _ => classNode_plain ht n

theorem classNames_plain (app : App) {naming : Naming} (h : naming.classes = []) :
    ∀ k ∈ (classNames app naming).classes.map Prod.snd, Text.isClassName k = true := by
  have hplain : PlainClasses (app.components.foldl classComponent { naming }) :=
    List.foldlRecOn (motive := PlainClasses) _ classComponent ⟨rfl, by simp [h]⟩
      fun _ hs c _ => classComponent_plain hs c
  exact hplain.classes

/-- The classes of an app are class names. -/
theorem resolve_isClassName {app : App} {table : NameTable} (h : (resolve app {}).outcome = .ok table) {head : Head}
    {k : String} (hk : (resolve app {}).naming.classOf head = some k) : Text.isClassName k = true := by
  obtain ⟨named, s, -, hg, -, hr, hc⟩ := resolve_rounds h
  rw [hr, ← hc] at hk
  exact classNames_plain app hg.unclassed k (List.mem_map.2 ⟨_, mem_of_lookup hk, rfl⟩)

end Names

end ViewTree
