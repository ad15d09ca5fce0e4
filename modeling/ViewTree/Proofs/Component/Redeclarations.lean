import Mathlib.Data.List.Flatten
import Mathlib.Data.List.Nodup
import ViewTree.Proofs.Compile.Imports
import ViewTree.Proofs.Component.Declarations

/-!
# Names that are bound more than once

A declaration is written with `var` if one of its names is bound a second time, by the
same declaration, by another one or outside of the statements, and with `const`
otherwise. `markRedeclared_exact` says so for all expressions and all outer names:
which names count as repeated, which declarations get which keyword, that nothing else
about the statements changes, and that the declarations left with `const` cannot clash.
-/

namespace ViewTree

namespace Statement

/-- The keyword a statement is written with: the first word of a declaration. All other
statements are code of their own. -/
def writtenWord (x : Statement) : Option String :=
  if x.kind = .const then some (Binder.keywordOf x.render) else none

/-- The statement without its mark. -/
def unmarked (x : Statement) : Statement := { x with redeclared := false }

/-! ## Marks -/

theorem unmarked_ofExpression (e : Expression) : (ofExpression e).unmarked = ofExpression e := by
  cases e <;> rfl

theorem unmarked_mark (names : List String) (x : Statement) : (mark names x).unmarked = x.unmarked := by
  unfold mark
  split <;> rfl

/-- What is not a declaration is never marked. -/
theorem mark_of_kind {names : List String} {x : Statement} (h : x.kind ≠ .const) : mark names x = x := by
  unfold mark
  simp [h]

/-- The mark of a declaration that had none. -/
theorem redeclared_mark {names : List String} {x : Statement} (hkind : x.kind = .const)
    (hx : x.redeclared = false) : (mark names x).redeclared = x.boundNames.any names.contains := by
  unfold mark
  rw [hkind, beq_self_eq_true, Bool.true_and]
  split
  next h => exact h.symm
  next h => rw [hx, Bool.eq_false_iff.2 h]

theorem writtenWord_of_kind {x : Statement} (h : x.kind = .const) : x.writtenWord = some x.keyword := by
  unfold writtenWord
  rw [if_pos h, keywordOf_render h]

section

variable {names : List String} {x : Statement}

/-- A declaration is written with `var` if it binds one of the names, and with `const`
otherwise. -/
theorem writtenWord_mark (hx : x.redeclared = false) :
    (mark names x).writtenWord =
      if x.kind = .const then some (if x.boundNames.any names.contains then "var" else "const") else none := by
  by_cases hkind : x.kind = .const
  · rw [if_pos hkind, writtenWord_of_kind ((kind_mark names x).trans hkind), keyword, redeclared_mark hkind hx]
  · rw [if_neg hkind, mark_of_kind hkind, writtenWord, if_neg hkind]

theorem writtenWord_mark_var (hx : x.redeclared = false) :
    (mark names x).writtenWord = some "var" ↔ x.kind = .const ∧ ∃ n ∈ x.boundNames, n ∈ names := by
  have hany : (∃ n ∈ x.boundNames, n ∈ names) ↔ x.boundNames.any names.contains = true := by
    simp only [List.any_eq_true, List.contains_iff_mem]
  rw [writtenWord_mark hx, hany]
  by_cases hkind : x.kind = .const
  · cases x.boundNames.any names.contains <;> simp [hkind]
  · simp [hkind]

theorem writtenWord_mark_const (hx : x.redeclared = false) :
    (mark names x).writtenWord = some "const" ↔ x.kind = .const ∧ ∀ n ∈ x.boundNames, n ∉ names := by
  have hany : (∀ n ∈ x.boundNames, n ∉ names) ↔ x.boundNames.any names.contains = false := by
    simp only [List.any_eq_false, List.contains_iff_mem]
  rw [writtenWord_mark hx, hany]
  by_cases hkind : x.kind = .const
  · cases x.boundNames.any names.contains <;> simp [hkind]
  · simp [hkind]

end

/-- The statements written with `const`. -/
def kept (statements : List Statement) : List Statement :=
  statements.filter fun x => x.writtenWord == some "const"

/-- The names of declarations that are written with `const` are among all declared names. -/
theorem kept_sublist (statements : List Statement) :
    ((kept statements).flatMap boundNames).Sublist (declaredNames statements) := by
  apply List.Sublist.flatMap
  apply List.monotone_filter_right
  intro x hx
  rw [beq_iff_eq] at hx ⊢
  by_contra hkind
  rw [writtenWord, if_neg hkind] at hx
  cases hx

/-! ## The statements of a function -/

section

variable (expressions : List Expression) (outer : List String)

/-- The names of the declarations that are written with `const`, each as often as it is
bound. -/
def keptNames : List String := (kept (markRedeclared (expressions.map ofExpression) outer).1).flatMap boundNames

/-- The outer names and those of the declarations with `const` are among all bound names. -/
theorem outer_keptNames_sublist :
    (outer ++ keptNames expressions outer).Sublist (outer ++ declaredNames (expressions.map ofExpression)) := by
  apply List.Sublist.append_left
  have h := kept_sublist (markRedeclared (expressions.map ofExpression) outer).1
  unfold keptNames
  unfold markRedeclared at h ⊢
  rwa [declaredNames_mark] at h

/-- A statement that is written out carries no mark yet. -/
theorem redeclared_of_mem {x : Statement} (hx : x ∈ expressions.map ofExpression) : x.redeclared = false := by
  obtain ⟨e, -, rfl⟩ := List.mem_map.1 hx
  rw [← unmarked_ofExpression]
  rfl

variable {expressions outer}

/-- A name that is declared with `const` is bound once: by that declaration. -/
theorem count_keptNames {n : String} (hn : n ∈ keptNames expressions outer) :
    outer.count n + (keptNames expressions outer).count n ≤ 1 := by
  have hle := (outer_keptNames_sublist expressions outer).count_le n
  rw [List.count_append] at hle
  obtain ⟨x, hx, hbound⟩ := List.mem_flatMap.1 hn
  obtain ⟨hx, hword⟩ := List.mem_filter.1 hx
  obtain ⟨y, hy, rfl⟩ := List.mem_map.1 hx
  rw [boundNames_mark] at hbound
  have hnot := ((writtenWord_mark_const (redeclared_of_mem expressions hy)).1 (beq_iff_eq.1 hword)).2 n hbound
  rw [mem_repeatedNames] at hnot
  omega

/-- The declarations with `const` bind all their names once. -/
theorem nodup_keptNames : (keptNames expressions outer).Nodup := by
  rw [List.nodup_iff_count_le_one]
  intro n
  by_cases hn : n ∈ keptNames expressions outer
  · have hone := count_keptNames hn
    omega
  · rw [List.count_eq_zero.2 hn]
    exact Nat.zero_le 1

/-- They bind no outer name. -/
theorem not_outer_of_kept {n : String} (hn : n ∈ keptNames expressions outer) : n ∉ outer := by
  intro hmem
  have hone := count_keptNames hn
  have hpos := List.count_pos_iff.2 hn
  have hpos' := List.count_pos_iff.2 hmem
  omega

variable (expressions outer)

/-- The statements of a function, written out and marked. The repeated names are those
that occur at least twice among the outer names and the declared ones. Only marks are
set. A statement is written with `var` if and only if it is a declaration of a repeated
name. Two declarations that keep `const` share no name, and none of them binds an outer
name or a name twice. -/
theorem markRedeclared_exact :
    let statements := expressions.map ofExpression
    let marked := (markRedeclared statements outer).1
    let names := (markRedeclared statements outer).2
    (∀ n, n ∈ names ↔ 2 ≤ (outer ++ declaredNames statements).count n) ∧ names.Nodup ∧
    marked.map unmarked = statements ∧
    (∀ x ∈ marked, x.kind ≠ .const → x ∈ statements) ∧
    (∀ x ∈ marked, x.writtenWord = some "var" ↔ x.kind = .const ∧ ∃ n ∈ x.boundNames, n ∈ names) ∧
    (∀ x ∈ marked, x.writtenWord = some "const" ↔ x.kind = .const ∧ ∀ n ∈ x.boundNames, n ∉ names) ∧
    (kept marked).Pairwise (fun x y => ∀ n ∈ x.boundNames, n ∉ y.boundNames) ∧
    ∀ x ∈ kept marked, x.boundNames.Nodup ∧ ∀ n ∈ x.boundNames, n ∉ outer := by
  obtain ⟨hnodup, hpairwise⟩ := List.nodup_flatMap.1 (@nodup_keptNames expressions outer)
  refine ⟨fun n => mem_repeatedNames, nodup_eraseDups _, ?_, ?_, ?_, ?_, ?_, ?_⟩
  · unfold markRedeclared
    simp [Function.comp_def, unmarked_mark, unmarked_ofExpression]
  · intro x hx hkind
    obtain ⟨y, hy, rfl⟩ := List.mem_map.1 hx
    rw [kind_mark] at hkind
    rwa [mark_of_kind hkind]
  · intro x hx
    obtain ⟨y, hy, rfl⟩ := List.mem_map.1 hx
    rw [writtenWord_mark_var (redeclared_of_mem expressions hy), kind_mark, boundNames_mark]
    rfl
  · intro x hx
    obtain ⟨y, hy, rfl⟩ := List.mem_map.1 hx
    rw [writtenWord_mark_const (redeclared_of_mem expressions hy), kind_mark, boundNames_mark]
    rfl
  · refine hpairwise.imp ?_
    intro x y hdisjoint n hn hn'
    exact hdisjoint hn hn'
  · intro x hx
    refine ⟨hnodup x hx, ?_⟩
    intro n hn
    exact not_outer_of_kept (List.mem_flatMap.2 ⟨x, hx, hn⟩)

end

/-- A name bound again changes the keyword of all declarations of it, and of nothing else. -/
example :
    ((markRedeclared ([.var (.name "total") "1", .ref "box" none, .var (.name "total") "2"].map ofExpression)
      ["size"]).1.map render) =
      ["var total = 1;", "const box = useRef();", "var total = 2;"] := by
  decide

end Statement

end ViewTree
