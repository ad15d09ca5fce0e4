import Mathlib.Data.List.Basic
import ViewTree.Component
import ViewTree.Proofs.Text.Identifier
import ViewTree.Proofs.Text.Shield

/-!
# The functions of a component file

The function of the component comes first and is the only default export of the file
(`functions_default`); the functions of the inner definitions follow. What stands before
the parameters of a function is part of the file as it is (`heading_infix`).
-/

namespace ViewTree

theorem Node.definitions_cons {c : Node} (h : c.isDefinition = true) :
    c.definitions = c :: (c.nodes.drop 1).filter Node.isDefinition := by
  unfold definitions
  rw [show c.nodes = c :: c.nodes.drop 1 from rfl, List.filter_cons_of_pos h]
  rfl

/-- What a function starts with, up to its parameters. -/
def Function.heading (f : Function) : String := f.exported ++ "function " ++ f.name ++ "("

theorem Function.ofDefinition_name (s : Scope) (index : Nat) (d : Node) (isComponent : Bool) :
    (ofDefinition s index d isComponent).value.name = s.functionName d.head := rfl

theorem Function.ofDefinition_exported (s : Scope) (index : Nat) (d : Node) (isComponent : Bool) :
    (ofDefinition s index d isComponent).value.exported = exportWord isComponent d.head := rfl

namespace ComponentFile

variable (s : Scope) (index : Nat) {c : Node}

/-- The functions of a component: its own, then those of its inner definitions. -/
theorem functions_value (h : c.isDefinition = true) :
    (functions s index c).value = (Function.ofDefinition s index c true).value ::
      ((c.nodes.drop 1).filter Node.isDefinition).map fun d => (Function.ofDefinition s index d false).value := by
  have hrest : ∀ (ds : List Node) (k : Nat),
      ((ds.zipIdx (k + 1)).map fun x => (Function.ofDefinition s index x.1 (x.2 == 0)).value) =
        ds.map fun d => (Function.ofDefinition s index d false).value := by
    intro ds
    induction ds with
    | nil => intro k; rfl
    | cons d ds ih =>
      intro k
      rw [List.zipIdx_cons, List.map_cons, List.map_cons, ih (k + 1)]
      rfl
  unfold functions Noted.eachIndexed
  rw [Noted.value_each, Node.definitions_cons h, List.zipIdx_cons, List.map_cons]
  exact congrArg _ (hrest _ 0)

theorem functions_names (h : c.isDefinition = true) :
    (functions s index c).value.map Function.name = c.definitions.map fun d => s.functionName d.head := by
  rw [functions_value s index h, Node.definitions_cons h, List.map_cons, List.map_map]
  rfl

/-- The function of the component is the one default export of its file. -/
theorem functions_default (h : c.isDefinition = true) :
    (functions s index c).value.filter (fun f => f.exported == "export default ") =
      [(Function.ofDefinition s index c true).value] := by
  have hinner : ∀ head : Head, (Function.exportWord false head == "export default ") = false := by
    intro head
    unfold Function.exportWord
    split
    · contradiction
    · split
      · decide
      · decide
  rw [functions_value s index h, List.filter_cons_of_pos rfl, List.filter_eq_nil_iff.2]
  intro f hf
  obtain ⟨d, -, rfl⟩ := List.mem_map.1 hf
  rw [Function.ofDefinition_exported]
  exact Bool.eq_false_iff.1 (hinner d.head)

theorem render_eq_heading (f : Function) : ∃ rest, f.render = f.heading ++ rest := by
  refine ⟨(f.params.map fun p => Text.shield p.render).getD "" ++ ") \x7b\n" ++
    Text.indent (Text.join "\n" f.lines) ++ "\n\x7d", ?_⟩
  simp only [Function.render, Function.heading, String.append_assoc]

/-- The start of a function is a part of the file, if it has no line break and no marker
in it. -/
theorem heading_infix (block : ImportBlock) {functions : List Function} {f : Function} (hf : f ∈ functions)
    (hplain : ∀ c ∈ f.heading.toList, c ≠ '\n' ∧ c ≠ Text.marker) :
    f.heading.toList <:+: (sourceText block functions).toList := by
  obtain ⟨rest, hrender⟩ := render_eq_heading f
  obtain ⟨a, b, hab, ha, -⟩ := Text.join_split "\n\n" (List.mem_map_of_mem hf : f.render ∈ functions.map Function.render)
  have hread : ∀ more : List Char, Text.unshieldChars (f.heading.toList ++ more) =
      f.heading.toList ++ Text.unshieldChars more := by
    intro more
    have h := Text.unshieldChars_shieldChars f.heading.toList more
    rwa [Text.shieldChars_of_plain hplain] at h
  have hinfix : f.heading.toList <:+: (Text.unshield (Text.join "\n\n" (functions.map Function.render))).toList := by
    unfold Text.unshield
    rw [String.toList_ofList, hab, hrender]
    rcases ha with rfl | ⟨a', rfl⟩
    · simp only [String.toList_append, String.toList_empty, List.nil_append, List.append_assoc]
      rw [hread]
      exact (List.prefix_append _ _).isInfix
    · -- a line break before the function ends whatever was read there
      have hsplit : (a' ++ "\n\n" ++ (f.heading ++ rest) ++ b).toList =
          (a'.toList ++ ['\n']) ++ '\n' :: (f.heading.toList ++ (rest.toList ++ b.toList)) := by
        simp
      obtain ⟨q, hq⟩ := Text.unshieldChars_append (a'.toList ++ ['\n']) (c := '\n') (by decide)
        (f.heading.toList ++ (rest.toList ++ b.toList))
      rw [hsplit, hq, hread, ← List.append_assoc]
      exact List.infix_append _ _ _
  unfold sourceText
  rw [String.toList_append, String.toList_append]
  exact hinfix.trans (List.infix_append _ _ _)

end ComponentFile

end ViewTree
