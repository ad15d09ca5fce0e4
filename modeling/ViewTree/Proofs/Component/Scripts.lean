import ViewTree.Proofs.Markup.Verbatim
import ViewTree.Proofs.Text.InOrder

/-!
# Scripts of definitions are copied in order

A script among the expressions of a definition fills lines of its own in the function of
the definition. The scripts of a definition stand in the file one after the other, in the
order of the document (`compile_keeps_scripts`). Each is copied character by character,
except that a carriage return at its very end is lost: right before the line break that
follows, it counts as a part of that line break.
-/

namespace ViewTree

open Text

/-- The code of a script. -/
def Expression.code? : Expression → Option String
  | script code => some code
  | _ => none

/-- The scripts among the expressions of a definition, in order. -/
def Head.scripts (head : Head) : List String := head.expressions.filterMap Expression.code?

/-- A script is a line of its own, less a carriage return at its end. -/
theorem lines_script (names : List String) (code : String) :
    lines ((shield (Statement.mark names (.ofExpression (.script code))).render).toList ++ ['\n']) =
      [shieldChars (dropReturn code).toList] := by
  have hrender : (Statement.mark names (.ofExpression (.script code))).render = code := rfl
  rw [hrender, shield, String.toList_ofList, lines_unbroken (shieldChars_unbroken _), dropReturnChars_shieldChars,
    dropReturn, String.toList_ofList]

/-- The scripts are lines among those of the statements, in order. -/
theorem scripts_sublist (names : List String) (expressions : List Expression) :
    ((expressions.filterMap Expression.code?).map fun code => shieldChars (dropReturn code).toList).Sublist
      (expressions.flatMap fun e =>
        lines ((shield (Statement.mark names (.ofExpression e)).render).toList ++ ['\n'])) := by
  induction expressions with
  | nil => exact .slnil
  | cons e expressions ih =>
    rw [List.flatMap_cons]
    cases e with
    | script code =>
      rw [List.filterMap_cons_some (f := Expression.code?) (b := code) rfl, List.map_cons, lines_script]
      exact ih.cons_cons _
    | _ => exact ih.trans (List.sublist_append_right _ _)

namespace Function

variable (s : Scope) (index : Nat) (d : Node) (isComponent : Bool)

/-- The scripts of a definition stand in its function in order. -/
theorem ofDefinition_scripts :
    ShieldedInOrder (d.head.scripts.map dropReturn) (ofDefinition s index d isComponent).value.render.toList := by
  generalize hf : (ofDefinition s index d isComponent).value = f
  have hstatements : f.statements.map (fun x => shield x.render) =
      d.head.expressions.map fun e => shield (Statement.mark f.redeclared (.ofExpression e)).render := by
    subst hf
    simp only [ofDefinition, Statement.markRedeclared, Noted.value_bind, Noted.value_pure, List.map_map]
    rfl
  have hlines : ((d.head.scripts.map dropReturn).map fun t => shieldChars t.toList).Sublist
      (Text.lines (join "\n" f.lines).toList) := by
    unfold Function.lines
    rw [lines_join, hstatements, List.map_map, List.flatMap_append, List.flatMap_map]
    refine (scripts_sublist f.redeclared d.head.expressions).trans ?_
    exact (List.sublist_append_right _ _).trans (List.sublist_append_left _ _)
  have hrender : f.render.toList =
      (f.exported ++ "function " ++ f.name ++ "(" ++ (f.params.map fun p => shield p.render).getD "" ++
        ") \x7b").toList ++ ('\n' :: (indent (join "\n" f.lines)).toList) ++ "\n\x7d".toList := by
    simp [Function.render]
  rw [hrender]
  exact ((ShieldedInOrder.indent hlines).append_left _).append_right _

end Function

/-- What stands in a function in order is read back in order in the file. -/
theorem ComponentFile.inOrder_sourceText {ts : List String} (block : ImportBlock) {functions : List Function}
    {f : Function} (hf : f ∈ functions) (h : ShieldedInOrder ts f.render.toList) :
    InOrder ts (sourceText block functions).toList := by
  obtain ⟨a, b, hab, -, -⟩ := join_split "\n\n" (List.mem_map_of_mem hf : f.render ∈ functions.map Function.render)
  have hjoined : ShieldedInOrder ts (join "\n\n" (functions.map Function.render)).toList := by
    rw [hab, String.toList_append, String.toList_append]
    exact (h.append_left _).append_right _
  unfold sourceText
  rw [String.toList_append, String.toList_append, unshield, String.toList_ofList]
  exact (hjoined.unshield.append_left _).append_right _

/-- The scripts of every definition of a component stand in the file of the component, one
after the other and in the order of the document, each less a carriage return at its end.
So a script that does not end in one is copied as it is, and where none of the definition
does, all of them are, in order. -/
theorem compile_keeps_scripts {document : Json} {options : Options} {output : Output}
    (h : compile document options = .ok output) :
    ∃ app, Load.app document = .ok app ∧ ∀ (i : Nat) (c : Node), app.components[i]? = some c →
      ∃ file, output.files[i]? = some file ∧ ∀ d ∈ c.definitions,
        InOrder (d.head.scripts.map dropReturn) file.contents.toList ∧
        (∀ code ∈ d.head.scripts, code.toList.getLast? ≠ some '\r' → code.toList <:+: file.contents.toList) ∧
        ((∀ code ∈ d.head.scripts, code.toList.getLast? ≠ some '\r') →
          InOrder d.head.scripts file.contents.toList) := by
  obtain ⟨app, files, hload, -, hwritten, rfl⟩ := compile_eq_ok h
  refine ⟨app, hload, fun i c hc => ?_⟩
  obtain ⟨file, ho, hfile⟩ := hwritten.artifact hc (app.scope options).contexts
  obtain ⟨-, block, -, hsource⟩ := ComponentFile.ofComponent_eq_ok ho
  refine ⟨_, hfile, fun d hd => ?_⟩
  obtain ⟨isComponent, hf⟩ := ComponentFile.mem_functions (app.scope options) i hd
  have hkept : InOrder (d.head.scripts.map dropReturn) file.source.toList := by
    rw [hsource]
    exact ComponentFile.inOrder_sourceText block hf (Function.ofDefinition_scripts (app.scope options) i d isComponent)
  refine ⟨hkept, fun code hcode hreturn => ?_, fun hreturn => ?_⟩
  · have hinfix := hkept.isInfix (List.mem_map_of_mem hcode)
    rwa [dropReturn_of_ne hreturn] at hinfix
  · rwa [List.map_congr_left fun code hcode => dropReturn_of_ne (hreturn code hcode), List.map_id'] at hkept

/-- A definition inside a component with three scripts: blank lines and carriage returns
inside, the marker at the end, and nothing at all. -/
def rawScripts : Json :=
  .object [("components", .array
    [.object [("name", .string "App"), ("children", .object
      [("type", .string "Component"), ("expressions", .array
        [.string "a(`\n\x0d\n`);", .string "",
          .object [("type", .string "script"), ("code", .string "\tb\uE000n\uE000")]])])]])]

theorem compile_keeps_scripts_rawScripts :
    ∃ output file, compile rawScripts {} = .ok output ∧ output.files[0]? = some file ∧
      InOrder ["a(`\n\x0d\n`);", "", "\tb\uE000n\uE000"] file.contents.toList := by
  have hscripts : ((Load.app rawScripts).toOption.bind fun app => app.components[0]?.map fun c =>
      c.definitions.map fun d => d.head.scripts) =
      some [[], ["a(`\n\x0d\n`);", "", "\tb\uE000n\uE000"]] := by decide +kernel
  obtain ⟨output, h⟩ : ∃ output, compile rawScripts {} = .ok output := exists_ok_of_isOk (by decide +kernel)
  obtain ⟨app, hload, hfiles⟩ := compile_keeps_scripts h
  rw [hload] at hscripts
  obtain ⟨c, hc, hscripts⟩ := Option.map_eq_some_iff.1 hscripts
  obtain ⟨file, hfile, hall⟩ := hfiles 0 c hc
  have hmem : ["a(`\n\x0d\n`);", "", "\tb\uE000n\uE000"] ∈ c.definitions.map fun d => d.head.scripts := by
    rw [hscripts]
    simp
  obtain ⟨d, hd, heq⟩ := List.mem_map.1 hmem
  have hkept := (hall d hd).2.2
  rw [heq] at hkept
  exact ⟨output, file, h, hfile, hkept (by decide)⟩

/-- A script that ends in a carriage return. -/
def finalReturn : Json :=
  .object [("components", .array [.object [("name", .string "App"), ("expressions", .array [.string "a();\x0d"])]])]

/-- The carriage return at the end of the script is not in the file. -/
theorem final_return_lost :
    ((Load.app finalReturn).toOption.bind fun app => app.components[0]?.map fun c => c.head.scripts) =
      some ["a();\x0d"] ∧
    ((compile finalReturn {}).toOption.bind fun output => output.files[0]?.map fun file =>
      (decide ("a();".toList <:+: file.contents.toList), decide ("a();\x0d".toList <:+: file.contents.toList))) =
      some (true, false) := by
  decide +kernel

end ViewTree
