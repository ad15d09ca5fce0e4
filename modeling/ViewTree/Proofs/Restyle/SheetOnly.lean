import ViewTree.Proofs.Restyle.Files

/-!
# Styles that only a stylesheet can hold

The cross-platform target has no stylesheet rules: entries under a selector and raw sheet
text are dropped, and nothing else becomes a rule. So no node has a class there, and an
app compiles to the same whether it has such entries or not
(`compile_ignores_sheetOnly`), although they decide which nodes are given classes.
-/

namespace ViewTree

/-- Whether the entry makes sense in a stylesheet only. -/
def StyleEntry.isSheetOnly : StyleEntry → Bool
  | .selector _ _ => true
  | .text _ => true
  | _ => false

/-- The entries that can take effect without a stylesheet. -/
def withoutSheetOnly (entries : List StyleEntry) : List StyleEntry := entries.filter fun e => !e.isSheetOnly

/-- The app without the entries that make sense in a stylesheet only, on every node. -/
def App.withoutSheetOnly (app : App) : App := app.restyle ViewTree.withoutSheetOnly

/-! ## Styles on the cross-platform target -/

namespace Style

variable (formats : Keyed Predicate)

theorem addEntry_sheetOnly (parts : Parts) {e : StyleEntry} (h : e.isSheetOnly = true) :
    addEntry .crossPlatform formats parts e = parts := by
  cases e with
  | selector selector style => rfl
  | text text => rfl
  | _ => cases h

theorem split_withoutSheetOnly (entries : List StyleEntry) :
    split .crossPlatform formats (withoutSheetOnly entries) = split .crossPlatform formats entries := by
  unfold split withoutSheetOnly
  rw [List.foldl_filter]
  congr 1
  funext parts e
  cases h : e.isSheetOnly with
  | true => simp [addEntry_sheetOnly formats parts h]
  | false => simp

/-- No entry becomes a rule. -/
theorem addEntry_rules (parts : Parts) (e : StyleEntry) :
    (addEntry .crossPlatform formats parts e).rules = parts.rules := by
  cases e with
  | format format style =>
    unfold addEntry project
    dsimp only
    split
    · rfl
    · rfl
  | _ => rfl

theorem split_rules (entries : List StyleEntry) : (split .crossPlatform formats entries).rules = [] :=
  List.foldlRecOn (motive := fun parts : Parts => parts.rules = []) entries (addEntry .crossPlatform formats) rfl
    fun parts hparts e _ => (addEntry_rules formats parts e).trans hparts

/-- A style on the cross-platform target is what is assembled at run time, whatever
classes were given. -/
theorem resolve_crossPlatform (naming : Naming) (head : Head) :
    resolve .crossPlatform formats naming head = { runtime := (split .crossPlatform formats head.style).runtime } := by
  unfold resolve
  dsimp only
  rw [split_rules]
  rfl

end Style

/-! ## Sheets -/

theorem ComponentFile.classBlocks_crossPlatform {s : Scope} (h : s.platform = .crossPlatform) (c : Node) :
    classBlocks s c = [] := by
  unfold classBlocks
  rw [List.filterMap_eq_nil_iff]
  intro n _
  rw [h, Style.resolve_crossPlatform]

/-- On the cross-platform target the files add what the definitions say to the style
module, and nothing else. -/
theorem Written.styleModule {s : Scope} (h : s.platform = .crossPlatform) {cs : List Node} {index : Nat}
    {files : List ComponentFile} (hw : Written s index cs files) :
    files.flatMap ComponentFile.styleModule =
      (cs.flatMap Node.definitions).filterMap fun d => d.head.styleModule := by
  have hfiles : files.map ComponentFile.styleModule = cs.map fun c => c.definitions.filterMap fun d => d.head.styleModule :=
    hw.map_eq fun _ c _ ho => by
      rw [(ComponentFile.ofComponent_sheets ho).2, ComponentFile.classBlocks_crossPlatform h, List.append_nil]
  rw [List.flatMap_def, hfiles, ← List.flatMap_def, List.filterMap_flatMap]

/-- On the cross-platform target an app compiles to the same files, with the same
fingerprint, or to the same problems, after every entry under a selector and every raw
sheet text is deleted from all its nodes. The style module holds what the app and its
definitions say for it, and no class block. -/
theorem compile_ignores_sheetOnly (app : App) (options : Options)
    (h : options.resolvePlatform app.platform = .crossPlatform) :
    (app.withoutSheetOnly.nodes.map Node.head = app.nodes.map fun n =>
      { n.head with style := n.head.style.filter fun e => !e.isSheetOnly }) ∧
    app.withoutSheetOnly.compile options = app.compile options ∧
    ∀ output, app.compile options = .ok output →
      output.ofKind .styleModule =
        [{ path := ComponentFile.dropSlashes options.styleDir ++ "/app.scss"
           kind := .styleModule
           contents := Output.appendSections app.styleModule
             (app.definitions.filterMap fun d => d.head.styleModule) }] := by
  have hplatform : (app.scope options).platform = .crossPlatform := h
  refine ⟨?_, ?_, ?_⟩
  · unfold App.withoutSheetOnly
    rw [App.nodes_restyle, List.map_map]
    rfl
  · refine App.compile_restyle fun n _ => ?_
    rw [hplatform, Style.resolve_crossPlatform, Style.resolve_crossPlatform, Head.restyle, Style.split_withoutSheetOnly]
  · intro output houtput
    obtain ⟨-, files, hwritten, rfl⟩ := App.compile_eq_ok houtput
    rw [Output.ofKind_assemble]
    dsimp only
    rw [hwritten.styleModule hplatform, String.append_assoc]
    rfl

/-- A definition with a selector around an element with raw sheet text between plain maps,
and a component whose whole style is under a selector. -/
def pressedCard : Json :=
  .object [("platform", .string "cross-platform"), ("components", .array
    [.object [("name", .string "Card"), ("styleModule", .string ".card \x7b\x7d"),
      ("style", .object [("selector", .string ":hover"), ("style", .object [("color", .string "red")])]),
      ("children", .object [("type", .string "View"),
        ("style", .array [.object [("flex", .string "1")], .string "color: red", .object [("gap", .string "2px")]])])],
      .object [("name", .string "Plain"),
        ("style", .object [("selector", .string "::after"), ("style", .object [("content", .string "x")])])]])]

theorem compile_ignores_sheetOnly_pressedCard :
    ∃ app, Load.app pressedCard = .ok app ∧ Options.resolvePlatform {} app.platform = .crossPlatform ∧
      (app.nodes.filter fun n => n.head.style.any StyleEntry.isSheetOnly).length = 3 ∧
      (∃ output, app.compile {} = .ok output) ∧ app.withoutSheetOnly.compile {} = app.compile {} := by
  have hchecks : ((Load.app pressedCard).toOption.any fun app =>
      Options.resolvePlatform {} app.platform == .crossPlatform &&
        (app.nodes.filter fun n => n.head.style.any StyleEntry.isSheetOnly).length == 3 &&
        (app.compile {}).isOk) = true := by
    decide +kernel
  cases hload : Load.app pressedCard with
  | error problems => simp [hload, Except.toOption] at hchecks
  | ok app =>
    simp only [hload, Except.toOption, Option.any_some, Bool.and_eq_true, beq_iff_eq] at hchecks
    obtain ⟨⟨hplatform, hcount⟩, hok⟩ := hchecks
    exact ⟨app, rfl, hplatform, hcount, exists_ok_of_isOk hok, (compile_ignores_sheetOnly app {} hplatform).2.1⟩

end ViewTree
