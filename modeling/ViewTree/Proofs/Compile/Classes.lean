import ViewTree.Proofs.Compile.Rendering
import ViewTree.Proofs.Markup.ClassLists

/-!
# Class blocks and class attributes

A node whose style has rules for the web opens a block of its class in the style module.
The class is written into the component's file where the node carries it: a definition
on its root or on a container, an element on itself if it is shown (`Node.carriers`). So
the classes with blocks are those that are written exactly if every node with a class is a
carrier (`compile_classes`). Loops, choices and scripts are none.
-/

namespace ViewTree

open Text

/-- The class of the block, which ends at the first blank. -/
def Style.blockClass (block : String) : String := String.ofList ((block.toList.drop 1).takeWhile (· != ' '))

/-- The class that a node has rules for. -/
def Scope.classOf (s : Scope) (n : Node) : Option String :=
  (Style.resolve s.platform s.app.styleFormats s.naming n.head).className

/-- The nodes of a component whose classes are written: its definitions, and the elements
that they show. -/
def Node.carriers (c : Node) : List Node := c.definitions.flatMap fun d => d :: d.shown.filter isElement

/-- The classes given by the compiler that the functions of a component write. -/
def ComponentFile.writtenClasses (s : Scope) (index : Nat) (c : Node) : List String :=
  c.definitions.flatMap fun d => (Markup.pieces s index d).flatMap Piece.classes

/-! ## Blocks -/

theorem isClassChar_ne_blank {c : Char} (h : isClassChar c = true) : (c != ' ') = true := by
  rw [bne_iff_ne]
  rintro rfl
  exact absurd h (by decide)

theorem Style.blockClass_classBlock {k : String} (h : isClassName k = true) (rules : List String) :
    blockClass (classBlock k rules) = k := by
  have hblock : (classBlock k rules).toList.drop 1 =
      k.toList ++ ' ' :: ("\x7b\n" ++ indent (join "\n" rules) ++ "\n\x7d\n").toList := by
    simp [classBlock]
  have hstart : ∀ c ∈ k.toList, (c != ' ') = true := fun c hc => isClassChar_ne_blank (List.all_eq_true.1 h c hc)
  unfold blockClass
  rw [hblock, List.takeWhile_append_of_pos hstart]
  simp

theorem Style.resolve_css (platform : Platform) (formats : Keyed Predicate) (naming : Naming) (head : Head) :
    (resolve platform formats naming head).css =
      (resolve platform formats naming head).className.map fun k =>
        classBlock k (split platform formats head.style).rules := rfl

/-- Every class that a node has rules for opens a block. -/
theorem ComponentFile.classBlocks_classes {s : Scope} {c : Node}
    (h : ∀ n ∈ c.nodes, ∀ k, s.classOf n = some k → isClassName k = true) :
    (classBlocks s c).map Style.blockClass = c.nodes.filterMap s.classOf := by
  unfold classBlocks
  rw [List.map_filterMap]
  refine List.filterMap_congr fun n hn => ?_
  rw [Style.resolve_css]
  change Option.map _ ((s.classOf n).map _) = s.classOf n
  cases hk : s.classOf n with
  | none => rfl
  | some k => exact congrArg some (Style.blockClass_classBlock (h n hn k hk) _)

/-! ## Attributes -/

theorem Scope.styleOf_className (s : Scope) (n : Node) :
    (s.styleOf n.head).toList.flatMap (fun style => style.className.toList) = (s.classOf n).toList := by
  unfold styleOf classOf
  dsimp only
  split
  · rename_i he
    rw [ResolvedStyle.isEmpty, Bool.and_eq_true, Option.isNone_iff_eq_none] at he
    rw [he.1]
    rfl
  · simp

theorem Markup.start_classes (s : Scope) (index : Nat) (inherited : Option ResolvedStyle) (n : Node) :
    (start s index inherited n).classes =
      if n.isElement then (inherited.toList.flatMap fun style => style.className.toList) ++ (s.classOf n).toList
      else [] := by
  unfold start Node.isElement
  cases hk : n.head.kind with
  | element type => simp [opening, List.filterMap_eq_flatMap_toList, s.styleOf_className]
  | _ => rfl

/-- The classes that a definition writes: its own, and those of the elements it shows. -/
theorem Markup.pieces_classes {s : Scope} {index : Nat} {d : Node} (hd : d.isDefinition = true)
    (hr : ∀ n ∈ d.nodes, Renderable s index n) :
    (pieces s index d).flatMap Piece.classes = (d :: d.shown.filter Node.isElement).filterMap s.classOf := by
  have hmarks : Marks s index Piece.classes fun style => style.className.toList := by
    refine ⟨fun _ => rfl, fun style => ?_, fun style n type hk => ?_⟩
    · simp [opening, List.filterMap_eq_flatMap_toList]
    · simp [start_classes, Node.isElement, hk]
  have hshown : (d.shown.flatMap fun n => (start s index none n).classes) =
      (d.shown.filter Node.isElement).filterMap s.classOf := by
    rw [List.filterMap_filter, List.filterMap_eq_flatMap_toList]
    refine List.flatMap_congr fun n _ => ?_
    rw [start_classes]
    split
    · rfl
    · rfl
  rw [hmarks.pieces hd hr, s.styleOf_className, hshown, ← List.singleton_append, List.filterMap_append]
  simp [List.filterMap_eq_flatMap_toList]

/-- The classes that a component writes are those of its carriers. -/
theorem ComponentFile.writtenClasses_eq {s : Scope} {index : Nat} {c : Node}
    (hr : ∀ n ∈ c.nodes, Markup.Renderable s index n) :
    writtenClasses s index c = c.carriers.filterMap s.classOf := by
  unfold writtenClasses Node.carriers
  rw [List.filterMap_flatMap]
  refine List.flatMap_congr fun d hd => ?_
  obtain ⟨hdn, hdefinition⟩ := List.mem_filter.1 hd
  exact Markup.pieces_classes hdefinition fun n hn => hr n (Node.nodes_subset hdn hn)

/-- On the web, every class that a function writes stands in a class attribute of it. -/
theorem Markup.pieces_inClassAttribute {s : Scope} (hweb : s.platform = .web) {index : Nat} {d : Node}
    (hd : d.isDefinition = true) (hr : ∀ n ∈ d.nodes, Renderable s index n) :
    ∀ p ∈ pieces s index d, (∀ k ∈ p.classes, isClassName k = true) → ∀ k ∈ p.classes,
      ∃ t, Holds p t ∧ InClassAttribute k t.toList := by
  refine pieces_forall ?_ ?_ ?_ hd hr
  · intro text _ k hk
    cases hk
  · intro style hks
    rw [hweb] at hks ⊢
    exact opening_holds none _ [] hks
  · intro inherited n
    unfold start
    split
    · intro _ k hk
      cases hk
    · intro hks
      rw [hweb] at hks ⊢
      exact opening_holds (some n) _ _ hks
    · intro _ k hk
      cases hk
    · intro _ k hk
      cases hk
    · intro _ k hk
      cases hk

theorem Node.carriers_subset (c : Node) : c.carriers ⊆ c.nodes := by
  intro n hn
  obtain ⟨d, hd, hn⟩ := List.mem_flatMap.1 hn
  have hdn := List.mem_of_mem_filter hd
  rcases List.mem_cons.1 hn with rfl | hn
  · exact hdn
  · exact (d.shown_sublist.trans (region_sublist hdn)).subset (List.mem_of_mem_filter hn)

/-! ## Classes of an app -/

theorem Scope.naming_classOf {s : Scope} {n : Node} {k : String} (h : s.classOf n = some k) :
    s.naming.classOf n.head = some k := by
  unfold classOf Style.resolve at h
  dsimp only at h
  split at h
  · cases h
  · exact h

section

variable {document : Json} {app : App} (hcheck : app.checkProblems = []) {options : Options}

include hcheck

theorem App.isClassName_of_classOf {n : Node} {k : String} (h : (app.scope options).classOf n = some k) :
    isClassName k = true := by
  obtain ⟨⟨table, hnames⟩, -, -⟩ := check_nil hcheck
  exact Names.resolve_isClassName hnames (Scope.naming_classOf h)

/-- A class belongs to one node. -/
theorem App.eq_of_classOf (hload : Load.app document = .ok app) {m n : Node} (hm : m ∈ app.nodes) (hn : n ∈ app.nodes)
    {k : String} (h : (app.scope options).classOf m = some k) (h' : (app.scope options).classOf n = some k) : m = n := by
  obtain ⟨⟨table, hnames⟩, -, -⟩ := check_nil hcheck
  have hposition := Assigned.eq_of_lookup (Names.resolve_classes hnames).1 (Scope.naming_classOf h)
    (Scope.naming_classOf h')
  exact List.inj_on_of_nodup_map (Load.app_positions_nodup hload) hm hn hposition

/-- On the web, the classes that a component writes stand in class attributes of its file. -/
theorem ComponentFile.written_inClassAttribute (hload : Load.app document = .ok app)
    (hweb : (app.scope options).platform = .web) {i : Nat} {c : Node} (hc : c ∈ app.components) (block : ImportBlock) :
    ∀ k ∈ writtenClasses (app.scope options) i c,
      InClassAttribute k (sourceText block (functions (app.scope options) i c).value).toList := by
  intro k hk
  have hr : ∀ n ∈ c.nodes, Markup.Renderable (app.scope options) i n :=
    fun n hn => App.renderable hload hcheck options i n (List.mem_flatMap.2 ⟨c, hc, hn⟩)
  have hplain : ∀ k ∈ writtenClasses (app.scope options) i c, isClassName k = true := by
    intro k hk
    rw [writtenClasses_eq hr] at hk
    obtain ⟨n, -, hn⟩ := List.mem_filterMap.1 hk
    exact App.isClassName_of_classOf hcheck hn
  obtain ⟨d, hd, hk⟩ := List.mem_flatMap.1 hk
  obtain ⟨p, hp, hkp⟩ := List.mem_flatMap.1 hk
  obtain ⟨hdn, hdefinition⟩ := List.mem_filter.1 hd
  have hrd : ∀ n ∈ d.nodes, Markup.Renderable (app.scope options) i n := fun n hn => hr n (Node.nodes_subset hdn hn)
  have hclasses : ∀ k ∈ p.classes, isClassName k = true :=
    fun k hk => hplain k (List.mem_flatMap.2 ⟨d, hd, List.mem_flatMap.2 ⟨p, hp, hk⟩⟩)
  obtain ⟨t, ht, hattribute⟩ := Markup.pieces_inClassAttribute hweb hdefinition hrd p hp hclasses k hkp
  obtain ⟨isComponent, hf⟩ := mem_functions (app.scope options) i hd
  have hshielded := Markup.pieces_shielded (List.ne_nil_of_mem hkp) ht
    (fun n hn => hrd n (List.mem_cons_of_mem _ (List.mem_append_left _ hn))) hp isComponent
  exact hattribute.of_infix (infix_sourceText block hf hshielded)

end

/-! ## Compiled files -/

/-- The blocks that a component adds to the style module are those of the classes of its
nodes, and the classes that its functions write are those of its carriers, each of which
stands in a class attribute of the file. So the two are the same classes exactly if every
node with a class is a carrier. -/
theorem compile_classes {document : Json} {options : Options} {output : Output}
    (h : compile document options = .ok output) (hweb : output.platform = .web) :
    ∃ app, Load.app document = .ok app ∧ ∀ (i : Nat) (c : Node), app.components[i]? = some c →
      ∃ file, ComponentFile.ofComponent (app.scope options) i c = .ok file ∧
        output.files[i]? = some { path := file.path, kind := .component, contents := file.source } ∧
        file.styleModule =
          (c.definitions.filterMap fun d => d.head.styleModule) ++ ComponentFile.classBlocks (app.scope options) c ∧
        (ComponentFile.classBlocks (app.scope options) c).map Style.blockClass =
          c.nodes.filterMap (app.scope options).classOf ∧
        ComponentFile.writtenClasses (app.scope options) i c = c.carriers.filterMap (app.scope options).classOf ∧
        (∀ k ∈ ComponentFile.writtenClasses (app.scope options) i c, InClassAttribute k file.source.toList) ∧
        ((∀ k, k ∈ (ComponentFile.classBlocks (app.scope options) c).map Style.blockClass ↔
            k ∈ ComponentFile.writtenClasses (app.scope options) i c) ↔
          ∀ n ∈ c.nodes, ((app.scope options).classOf n).isSome = true → n ∈ c.carriers) := by
  obtain ⟨app, files, hload, hcheck, hwritten, rfl⟩ := compile_eq_ok h
  refine ⟨app, hload, fun i c hc => ?_⟩
  obtain ⟨file, ho, hfile⟩ := hwritten.artifact hc (app.scope options).contexts
  obtain ⟨-, block, -, hsource⟩ := ComponentFile.ofComponent_eq_ok ho
  have hmem := List.mem_of_getElem? hc
  have hnode : ∀ n ∈ c.nodes, n ∈ app.nodes := fun n hn => List.mem_flatMap.2 ⟨c, hmem, hn⟩
  have hblocks := ComponentFile.classBlocks_classes (s := app.scope options) (c := c)
    fun _ _ _ hk => App.isClassName_of_classOf hcheck hk
  have hclasses := ComponentFile.writtenClasses_eq fun n hn => App.renderable hload hcheck options i n (hnode n hn)
  refine ⟨file, ho, hfile, (ComponentFile.ofComponent_sheets ho).2, hblocks, hclasses, ?_, ?_⟩
  · rw [hsource]
    exact ComponentFile.written_inClassAttribute hcheck hload hweb hmem block
  · rw [hblocks, hclasses]
    constructor
    · intro hsame n hn hsome
      obtain ⟨k, hk⟩ := Option.isSome_iff_exists.1 hsome
      obtain ⟨m, hm, hmk⟩ := List.mem_filterMap.1 ((hsame k).1 (List.mem_filterMap.2 ⟨n, hn, hk⟩))
      rwa [App.eq_of_classOf hcheck hload (hnode n hn) (hnode m (c.carriers_subset hm)) hk hmk]
    · intro hall k
      rw [List.mem_filterMap, List.mem_filterMap]
      constructor
      · rintro ⟨n, hn, hk⟩
        exact ⟨n, hall n hn (by rw [hk]; rfl), hk⟩
      · rintro ⟨n, hn, hk⟩
        exact ⟨n, c.carriers_subset hn, hk⟩

/-- A component whose only child takes its class, with an inner definition that needs a
container, and classes of the document beside those of the compiler. -/
def styledNodes : Json :=
  .object [("components", .array
    [.object [("name", .string "App"), ("style", .string "margin: 0"), ("children", .object
      [("type", .string "main"), ("style", .string "color: red"),
        ("props", .object [("className", .string "wide \"page\"")]),
        ("children", .object [("type", .string "Component"), ("name", .string "Row"),
          ("style", .string "padding: 0"), ("children", .string "text")])])]])]

theorem compile_classes_styledNodes :
    ∃ output app c file, compile styledNodes {} = .ok output ∧ output.platform = .web ∧
      Load.app styledNodes = .ok app ∧ app.components[0]? = some c ∧
      ComponentFile.ofComponent (app.scope {}) 0 c = .ok file ∧
      (ComponentFile.writtenClasses (app.scope {}) 0 c).length = 3 ∧
      (∀ k ∈ ComponentFile.writtenClasses (app.scope {}) 0 c, InClassAttribute k file.source.toList) ∧
      ∀ n ∈ c.nodes, ((app.scope {}).classOf n).isSome = true → n ∈ c.carriers := by
  have hclasses : ((Load.app styledNodes).toOption.bind fun app => app.components[0]?.map fun c =>
      ((ComponentFile.writtenClasses (app.scope {}) 0 c).length,
        decide ((ComponentFile.classBlocks (app.scope {}) c).map Style.blockClass =
          ComponentFile.writtenClasses (app.scope {}) 0 c))) = some (3, true) := by decide +kernel
  have hplatform : (compile styledNodes {}).toOption.map Output.platform = some .web := by decide +kernel
  obtain ⟨output, h, hweb⟩ : ∃ output, compile styledNodes {} = .ok output ∧ output.platform = .web := by
    cases hcompile : compile styledNodes {} with
    | error problems =>
      rw [hcompile] at hplatform
      cases hplatform
    | ok output =>
      rw [hcompile] at hplatform
      exact ⟨output, rfl, Option.some.inj hplatform⟩
  obtain ⟨app, hload, hfiles⟩ := compile_classes h hweb
  rw [hload] at hclasses
  obtain ⟨c, hc, hclasses⟩ := Option.map_eq_some_iff.1 hclasses
  obtain ⟨hlength, hequal⟩ := Prod.mk.inj hclasses
  obtain ⟨file, hfile, -, -, -, -, hattributes, hcarried⟩ := hfiles 0 c hc
  refine ⟨output, app, c, file, h, hweb, hload, hc, hfile, hlength, hattributes, hcarried.1 fun k => ?_⟩
  rw [of_decide_eq_true hequal]

/-- A loop with a style. -/
def styledLoop : Json :=
  .object [("components", .array
    [.object [("name", .string "App"), ("children", .object
      [("type", .string "Map"), ("data", .string "items"), ("style", .string "color: red"),
        ("children", .object [("type", .string "li")])])]])]

/-- The class of the loop opens a block and is written nowhere. -/
theorem loop_class_not_written :
    ((Load.app styledLoop).toOption.bind fun app => app.components[0]?.map fun c =>
      ((ComponentFile.classBlocks (app.scope {}) c).map Style.blockClass,
        ComponentFile.writtenClasses (app.scope {}) 0 c)) = some (["app-dfcbe4"], []) ∧
    ((compile styledLoop {}).toOption.bind fun output => output.files[0]?.map fun file =>
      (output.platform, decide ("className".toList <:+: file.contents.toList))) = some (.web, false) := by
  decide +kernel

end ViewTree
