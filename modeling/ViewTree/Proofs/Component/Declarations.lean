import ViewTree.Proofs.Compile.Checks

/-!
# What the functions of a file bind

A function binds names with its parameters, with the contexts it consumes, with what
the style helpers need declared, and with its statements (`Function.binders`). A name
that is declared with `const` must not be bound again in the function
(`Function.Lexical`).

Names that the parameters, the consumed contexts and the statements bind more than once
are declared with `var`, so these never clash. The declaration for the style helpers is
not counted among them: a function is lexical unless it needs that declaration and binds
the name `__dimensions` itself (`ofDefinition_lexical_iff`).
-/

namespace ViewTree

/-! ## Repeated names -/

namespace Statement

theorem mem_repeatedNames {names : List String} {n : String} : n ∈ repeatedNames names ↔ 2 ≤ names.count n := by
  unfold repeatedNames
  rw [List.mem_eraseDups, List.mem_filter, decide_eq_true_iff]
  constructor
  · exact And.right
  · intro h
    exact ⟨List.count_pos_iff.1 (by omega), h⟩

@[simp]
theorem kind_mark (names : List String) (x : Statement) : (mark names x).kind = x.kind := by
  unfold mark
  split <;> rfl

@[simp]
theorem boundNames_mark (names : List String) (x : Statement) : (mark names x).boundNames = x.boundNames := by
  unfold mark
  split <;> rfl

/-- Marking changes keywords, not names. -/
theorem declaredNames_mark (names : List String) (statements : List Statement) :
    declaredNames (statements.map (mark names)) = declaredNames statements := by
  induction statements with
  | nil => rfl
  | cons x statements ih =>
    unfold declaredNames at ih ⊢
    rw [List.map_cons, List.filter_cons, List.filter_cons, kind_mark]
    split
    · rw [List.flatMap_cons, List.flatMap_cons, ih, boundNames_mark]
    · exact ih

/-- A declaration that keeps `const` binds none of the names. -/
theorem not_mem_of_keyword {names : List String} {x : Statement} (hkind : x.kind = .const)
    (h : (mark names x).keyword = "const") {n : String} (hn : n ∈ x.boundNames) : n ∉ names := by
  intro hmem
  have hany : x.boundNames.any names.contains = true :=
    List.any_eq_true.2 ⟨n, hn, List.contains_iff_mem.2 hmem⟩
  simp [mark, hkind, hany, keyword] at h

end Statement

/-! ## Binders -/

/-- A place that binds names: the parameters of a function, which have no keyword, or a
declaration. -/
structure Binder where
  keyword : Option String
  names : List String
deriving DecidableEq, Repr

/-- The first word of a line. -/
def firstWord (line : List Char) : List Char := line.takeWhile (· != ' ')

/-- The keyword of a line that declares something: its first word. -/
def Binder.keywordOf (line : String) : String := String.ofList (firstWord line.toList)

/-- What a line binds whose second word is a name. -/
def Binder.ofLine (line : String) : Binder :=
  { keyword := some (keywordOf line)
    names := [String.ofList (firstWord (line.toList.drop ((firstWord line.toList).length + 1)))] }

theorem Binder.keywordOf_append {word : String} (h : ' ' ∉ word.toList) (rest : String) :
    keywordOf (word ++ (" " ++ rest)) = word := by
  unfold keywordOf firstWord
  rw [String.toList_append, String.toList_append, List.takeWhile_append_of_pos]
  · simp
  · intro c hc
    simp only [bne_iff_ne, ne_eq]
    rintro rfl
    exact h hc

theorem Statement.keywordOf_render {x : Statement} (h : x.kind = .const) : Binder.keywordOf x.render = x.keyword := by
  have hword : ' ' ∉ x.keyword.toList := by
    unfold keyword
    split
    · decide
    · decide
  unfold render
  simp only [h, String.append_assoc]
  exact Binder.keywordOf_append hword _

namespace Function

/-- Everything that binds names in a function, in the order in which it is written, with
the keywords that stand in the text. -/
def binders (f : Function) : List Binder :=
  (f.params.toList.map fun p => { keyword := none, names := p.boundNames }) ++
    List.zipWith (fun c line => { keyword := some (Binder.keywordOf line), names := [c.localName] })
      f.consumers f.consumerLines ++
    f.setup.map Binder.ofLine ++
    (f.statements.filter fun x => x.kind == .const).map fun x =>
      { keyword := some (Binder.keywordOf x.render), names := x.boundNames }

/-- The names a function binds, each as often as it is bound. -/
def boundNames (f : Function) : List String := f.binders.flatMap Binder.names

/-- The names that the document binds in a function: all but those of the style helpers. -/
def ownNames (f : Function) : List String :=
  (f.params.map Pattern.boundNames).getD [] ++ f.consumers.map Consumer.localName ++
    Statement.declaredNames f.statements

/-- No name that is declared with `const` is bound a second time. -/
def Lexical (f : Function) : Prop :=
  ∀ b ∈ f.binders, b.keyword = some "const" → ∀ n ∈ b.names, f.boundNames.count n = 1

instance (f : Function) : Decidable f.Lexical :=
  inferInstanceAs (Decidable (∀ b ∈ f.binders, b.keyword = some "const" → ∀ n ∈ b.names, f.boundNames.count n = 1))

/-- Consumed contexts are declared with the keyword that the repeated names ask for. -/
theorem consumerBinders_eq (f : Function) :
    List.zipWith (fun (c : Consumer) line => (⟨some (Binder.keywordOf line), [c.localName]⟩ : Binder)) f.consumers
        f.consumerLines =
      f.consumers.map fun c => ⟨some (if f.redeclared.contains c.localName then "var" else "const"), [c.localName]⟩ := by
  unfold consumerLines
  rw [List.zipWith_map_right, List.zipWith_self]
  refine List.map_congr_left fun c _ => ?_
  unfold Consumer.declare
  simp only [String.append_assoc]
  rw [Binder.keywordOf_append]
  split
  · decide
  · decide

/-- The names of a function are its own and those of the style helpers. -/
theorem boundNames_perm (f : Function) :
    f.boundNames.Perm (f.ownNames ++ (f.setup.map Binder.ofLine).flatMap Binder.names) := by
  have hparams : (f.params.toList.map fun p : Pattern => (⟨none, p.boundNames⟩ : Binder)).flatMap Binder.names =
      (f.params.map Pattern.boundNames).getD [] := by
    cases f.params <;> simp
  have hconsumers : (f.consumers.map fun c => (⟨some (if f.redeclared.contains c.localName then "var" else "const"),
      [c.localName]⟩ : Binder)).flatMap Binder.names = f.consumers.map Consumer.localName := by
    rw [List.flatMap_map, List.map_eq_flatMap]
  have hstatements : ((f.statements.filter fun x => x.kind == .const).map fun x =>
      (⟨some (Binder.keywordOf x.render), x.boundNames⟩ : Binder)).flatMap Binder.names =
      Statement.declaredNames f.statements := by
    rw [List.flatMap_map]
    rfl
  unfold boundNames binders ownNames
  rw [consumerBinders_eq, List.flatMap_append, List.flatMap_append, List.flatMap_append, hparams, hconsumers,
    hstatements]
  simp only [List.append_assoc]
  exact (List.perm_append_comm.append_left _).append_left _

theorem count_boundNames (f : Function) (n : String) :
    f.boundNames.count n = f.ownNames.count n + ((f.setup.map Binder.ofLine).flatMap Binder.names).count n := by
  rw [f.boundNames_perm.count_eq, List.count_append]

/-! ## Functions of definitions -/

/-- What the style helpers need declared is one name, if it is anything. -/
theorem stylePrelude_binders (platform : Platform) (usage : StyleUsage) :
    (platform.stylePrelude usage).map Binder.ofLine =
      if platform.stylePrelude usage = [] then [] else [⟨some "const", ["__dimensions"]⟩] := by
  cases platform with
  | web => rfl
  | crossPlatform =>
    unfold Platform.stylePrelude
    dsimp only
    split
    · decide
    · rfl

section

variable (s : Scope) (index : Nat) (d : Node) (isComponent : Bool)

theorem ofDefinition_statements :
    (ofDefinition s index d isComponent).value.statements =
      (d.head.expressions.map Statement.ofExpression).map
        (Statement.mark (ofDefinition s index d isComponent).value.redeclared) := rfl

/-- The names that change the keyword are those the document binds more than once. -/
theorem ofDefinition_redeclared :
    (ofDefinition s index d isComponent).value.redeclared =
      Statement.repeatedNames (ofDefinition s index d isComponent).value.ownNames := by
  unfold ownNames
  rw [ofDefinition_statements, Statement.declaredNames_mark]
  rfl

variable {s index d isComponent}

/-- A name of the document that is declared with `const` is bound once by the document. -/
theorem count_ownNames {b : Binder} {n : String} {f : Function}
    (hf : f = (ofDefinition s index d isComponent).value)
    (hb : b ∈ f.binders) (hsetup : b ∉ f.setup.map Binder.ofLine) (hkeyword : b.keyword = some "const")
    (hn : n ∈ b.names) : f.ownNames.count n = 1 := by
  have hredeclared : f.redeclared = Statement.repeatedNames f.ownNames := hf ▸ ofDefinition_redeclared s index d isComponent
  have honce : n ∈ f.ownNames → n ∉ f.redeclared → f.ownNames.count n = 1 := by
    intro hmem hnot
    rw [hredeclared, Statement.mem_repeatedNames] at hnot
    have hpos := List.count_pos_iff.2 hmem
    omega
  unfold binders at hb
  rw [consumerBinders_eq, List.mem_append, List.mem_append, List.mem_append] at hb
  rcases hb with ((hb | hb) | hb) | hb
  · obtain ⟨p, -, rfl⟩ := List.mem_map.1 hb
    cases hkeyword
  · obtain ⟨c, hc, rfl⟩ := List.mem_map.1 hb
    obtain rfl := List.mem_singleton.1 hn
    apply honce
    · exact List.mem_append_left _ (List.mem_append_right _ (List.mem_map_of_mem hc))
    · intro hmem
      rw [Option.some.injEq, if_pos (List.contains_iff_mem.2 hmem)] at hkeyword
      exact absurd hkeyword (by decide)
  · exact absurd hb hsetup
  · obtain ⟨x, hx, rfl⟩ := List.mem_map.1 hb
    obtain ⟨hx, hkind⟩ := List.mem_filter.1 hx
    apply honce
    · exact List.mem_append_right _ (List.mem_flatMap.2 ⟨x, List.mem_filter.2 ⟨hx, hkind⟩, hn⟩)
    · have hstatements : f.statements = (d.head.expressions.map Statement.ofExpression).map
          (Statement.mark f.redeclared) := hf ▸ ofDefinition_statements s index d isComponent
      rw [hstatements] at hx
      obtain ⟨y, -, rfl⟩ := List.mem_map.1 hx
      rw [Option.some.injEq, Statement.keywordOf_render (beq_iff_eq.1 hkind)] at hkeyword
      rw [Statement.kind_mark, beq_iff_eq] at hkind
      rw [Statement.boundNames_mark] at hn
      exact Statement.not_mem_of_keyword hkind hkeyword hn

variable (s index d isComponent)

/-- The function of a definition is lexical unless it needs the declaration of the style
helpers and binds their name itself. -/
theorem ofDefinition_lexical_iff :
    (ofDefinition s index d isComponent).value.Lexical ↔
      (ofDefinition s index d isComponent).value.setup = [] ∨
        "__dimensions" ∉ (ofDefinition s index d isComponent).value.ownNames := by
  generalize hf : (ofDefinition s index d isComponent).value = f
  have hsetup : f.setup.map Binder.ofLine =
      if f.setup = [] then [] else [⟨some "const", ["__dimensions"]⟩] := by
    rw [← hf]
    exact stylePrelude_binders _ _
  by_cases hempty : f.setup = []
  · refine iff_of_true (fun b hb hkeyword n hn => ?_) (.inl hempty)
    rw [count_boundNames, hsetup, if_pos hempty]
    exact count_ownNames hf.symm hb (by simp [hempty]) hkeyword hn
  · rw [if_neg hempty] at hsetup
    have hcount : ∀ n, f.boundNames.count n = f.ownNames.count n + ["__dimensions"].count n := by
      intro n
      rw [count_boundNames, hsetup]
      rfl
    have hhelper : (⟨some "const", ["__dimensions"]⟩ : Binder) ∈ f.binders := by
      unfold binders
      rw [hsetup]
      simp
    simp only [hempty, false_or]
    constructor
    · -- the declaration of the helpers counts the name once already
      intro hlexical hmem
      have h := hlexical _ hhelper rfl "__dimensions" (by simp)
      have hpos := List.count_pos_iff.2 hmem
      rw [hcount, List.count_singleton_self] at h
      omega
    · intro hnot b hb hkeyword n hn
      rw [hcount]
      by_cases hb' : b ∈ f.setup.map Binder.ofLine
      · rw [hsetup, List.mem_singleton] at hb'
        subst hb'
        obtain rfl := List.mem_singleton.1 hn
        rw [List.count_eq_zero.2 hnot, List.count_singleton_self]
      · have hone := count_ownNames hf.symm hb hb' hkeyword hn
        have hne : n ≠ "__dimensions" := by
          rintro rfl
          rw [List.count_eq_zero.2 hnot] at hone
          cases hone
        rw [hone, List.count_eq_zero.2 (by simpa using hne)]

end

end Function

/-! ## Compiled files -/

/-- In every function of a compiled file, a name that is declared with `const` is bound
nowhere else in the function, exactly unless the function needs the declaration of the
style helpers and binds their name itself. -/
theorem compile_functions_lexical {document : Json} {options : Options} {output : Output}
    (h : compile document options = .ok output) :
    ∃ app, Load.app document = .ok app ∧ ∀ (i : Nat) (c : Node), app.components[i]? = some c →
      ∃ file block, output.files[i]? = some file ∧
        file.contents = ComponentFile.sourceText block (ComponentFile.functions (app.scope options) i c).value ∧
        ∀ f ∈ (ComponentFile.functions (app.scope options) i c).value,
          f.Lexical ↔ f.setup = [] ∨ "__dimensions" ∉ f.ownNames := by
  obtain ⟨app, files, hload, -, hwritten, rfl⟩ := compile_eq_ok h
  refine ⟨app, hload, fun i c hc => ?_⟩
  obtain ⟨file, ho, hfile⟩ := hwritten.artifact hc (app.scope options).contexts
  obtain ⟨-, block, -, hsource⟩ := ComponentFile.ofComponent_eq_ok ho
  refine ⟨_, block, hfile, hsource, fun f hf => ?_⟩
  unfold ComponentFile.functions Noted.eachIndexed at hf
  rw [Noted.value_each] at hf
  obtain ⟨⟨d, k⟩, -, rfl⟩ := List.mem_map.1 hf
  exact Function.ofDefinition_lexical_iff (app.scope options) i d (k == 0)

/-- A component with a style under a format, which binds `theme` three times and takes a
parameter that a statement binds again. -/
def reboundNames : Json :=
  .object [("platform", .string "cross-platform"),
    ("styleFormats", .object [("tall", .object [("orientation", .string "portrait")])]),
    ("components", .array
      [.object [("name", .string "App"), ("props", .object [("size", .object [])]),
        ("provideContexts", .string "theme"), ("useContexts", .array [.string "theme", .string "theme"]),
        ("style", .object [("format", .string "tall"), ("style", .object [("flex", .string "1")])]),
        ("expressions", .array
          [.object [("type", .string "var"), ("var", .string "size"), ("value", .string "size + 1")],
            .object [("type", .string "state"), ("var", .string "theme")]])]])]

theorem compile_functions_lexical_reboundNames :
    ∃ output app c, compile reboundNames {} = .ok output ∧ Load.app reboundNames = .ok app ∧
      app.components[0]? = some c ∧
      ((ComponentFile.functions (app.scope {}) 0 c).value.map Function.boundNames =
        [["size", "theme", "theme", "__dimensions", "size", "theme", "setTheme"]]) ∧
      ∀ f ∈ (ComponentFile.functions (app.scope {}) 0 c).value, f.Lexical := by
  have hnames : ((Load.app reboundNames).toOption.bind fun app => app.components[0]?.map fun c =>
      (ComponentFile.functions (app.scope {}) 0 c).value.map fun f => (f.boundNames, f.ownNames)) =
      some [(["size", "theme", "theme", "__dimensions", "size", "theme", "setTheme"],
        ["size", "theme", "theme", "size", "theme", "setTheme"])] := by decide +kernel
  obtain ⟨output, h⟩ : ∃ output, compile reboundNames {} = .ok output := exists_ok_of_isOk (by decide +kernel)
  obtain ⟨app, hload, hfiles⟩ := compile_functions_lexical h
  rw [hload] at hnames
  obtain ⟨c, hc, hnames⟩ := Option.map_eq_some_iff.1 hnames
  obtain ⟨-, -, -, -, hlexical⟩ := hfiles 0 c hc
  refine ⟨output, app, c, h, hload, hc, ?_, fun f hf => (hlexical f hf).2 (.inr ?_)⟩
  · have hfst := congrArg (List.map Prod.fst) hnames
    rw [List.map_map] at hfst
    exact hfst
  · have hmem := List.mem_map_of_mem (f := fun f : Function => (f.boundNames, f.ownNames)) hf
    rw [hnames, List.mem_singleton] at hmem
    rw [(Prod.mk.inj hmem).2]
    decide

/-- A component with a style under a format, whose statement binds the name that the style
helpers declare. -/
def ownDimensions : Json :=
  .object [("platform", .string "cross-platform"),
    ("styleFormats", .object [("tall", .object [("orientation", .string "portrait")])]),
    ("components", .array
      [.object [("name", .string "App"),
        ("style", .object [("format", .string "tall"), ("style", .object [("flex", .string "1")])]),
        ("expressions", .array
          [.object [("type", .string "var"), ("var", .string "__dimensions"), ("value", .string "1")]])]])]

/-- The name of the style helpers is declared twice with `const`. -/
theorem dimensions_declared_twice :
    (compile ownDimensions {}).isOk = true ∧
    ((Load.app ownDimensions).toOption.bind fun app => app.components[0]?.map fun c =>
      (ComponentFile.functions (app.scope {}) 0 c).value.map fun f => (f.binders, decide f.Lexical)) =
      some [([⟨some "const", ["__dimensions"]⟩, ⟨some "const", ["__dimensions"]⟩], false)] := by
  decide +kernel

end ViewTree
