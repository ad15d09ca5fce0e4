import ViewTree.Proofs.Compile.Links
import ViewTree.Proofs.Component.Declarations
import ViewTree.Proofs.Names.Apart

/-!
# Context objects that a function hides

The function of a definition refers to the contexts of the program by their identifiers,
where it declares what it uses and around what it returns. These identifiers are fresh among
the names of the program, but they are not kept apart from what a function binds itself: a
parameter, a used context or a statement of the document can have one of them as its name,
and hides the context object then. Nothing else does (`compile_contexts_hidden`): the
compiler binds no such name on its own account, and a context is never hidden by its own
local name.
-/

namespace ViewTree

namespace Contexts

/-- The context objects that the function of a definition refers to: those of the contexts
that it uses, and those that wrap its markup. -/
def referred (contexts : Contexts) (head : Head) : List String :=
  (contexts.consumers head).map Consumer.identifier ++ (contexts.providers head).map Provider.identifier

theorem mem_consumers {contexts : Contexts} {head : Head} {c : Consumer} (h : c ∈ contexts.consumers head) :
    c.localName ∈ head.uses ∧ ∃ context, contexts.lookup c.localName = some context ∧ c.identifier = context.identifier := by
  obtain ⟨name, hname, hc⟩ := List.mem_filterMap.1 h
  obtain ⟨context, hlookup, rfl⟩ := Option.map_eq_some_iff.1 hc
  exact ⟨hname, context, hlookup, rfl⟩

/-- A context object that a definition refers to is that of a context it uses or provides. -/
theorem mem_referred {contexts : Contexts} {head : Head} {identifier : String} (h : identifier ∈ contexts.referred head) :
    ∃ name ∈ head.uses ++ head.provides.map Provision.name, ∃ context,
      contexts.lookup name = some context ∧ identifier = context.identifier := by
  rcases List.mem_append.1 h with h | h
  · obtain ⟨c, hc, rfl⟩ := List.mem_map.1 h
    obtain ⟨huse, hcontext⟩ := mem_consumers hc
    exact ⟨c.localName, List.mem_append_left _ huse, hcontext⟩
  · obtain ⟨p, hp, rfl⟩ := List.mem_map.1 h
    obtain ⟨provision, hprovision, hp⟩ := List.mem_filterMap.1 hp
    obtain ⟨context, hlookup, rfl⟩ := Option.map_eq_some_iff.1 hp
    exact ⟨provision.name, List.mem_append_right _ (List.mem_map_of_mem hprovision), context, hlookup, rfl⟩

/-- A definition whose contexts are all bound has a local name for each that it uses. -/
theorem consumers_locals {contexts : Contexts} {head : Head} (h : ∀ name ∈ head.uses, contexts.has name = true) :
    (contexts.consumers head).map Consumer.localName = head.uses := by
  unfold consumers
  rw [List.map_filterMap]
  conv_rhs => rw [← List.filterMap_some (l := head.uses)]
  refine List.filterMap_congr fun name hname => ?_
  obtain ⟨context, hlookup⟩ := Option.isSome_iff_exists.1 (h name hname)
  rw [hlookup]
  rfl

end Contexts

/-- What the document binds in the function of a definition: the parameters, the contexts
that it uses, and what its statements declare. -/
def Head.bindings (head : Head) : List String :=
  ((Function.paramsOf head).map Pattern.boundNames).getD [] ++ head.uses ++
    Statement.declaredNames (head.expressions.map Statement.ofExpression)

/-- How the function of a definition refers to contexts, and which of them it hides. -/
structure Function.Refers (contexts : Contexts) (d : Node) (f : Function) : Prop where
  consumers : f.consumers = contexts.consumers d.head
  markup : ∃ inner, f.markup = provide (contexts.providers d.head) inner
  locals : f.consumers.map Consumer.localName = d.head.uses
  /-- The identifiers are those of contexts that the definition uses or provides. -/
  given : ∀ identifier ∈ contexts.referred d.head,
    ∃ name ∈ d.head.uses ++ d.head.provides.map Provision.name, Contexts.Given name identifier
  /-- A used context is not hidden by its own local name. -/
  own : ∀ c ∈ f.consumers, c.localName ≠ c.identifier
  /-- A context object is hidden exactly if the document binds its identifier. -/
  hidden : ∀ identifier ∈ contexts.referred d.head, identifier ∈ f.boundNames ↔ identifier ∈ d.head.bindings

/-! ## Functions of definitions -/

namespace Function

variable (s : Scope) (index : Nat) (d : Node) (isComponent : Bool)

theorem ofDefinition_ownNames (h : ∀ name ∈ d.head.uses, s.contexts.has name = true) :
    (ofDefinition s index d isComponent).value.ownNames = d.head.bindings := by
  have hconsumers : (ofDefinition s index d isComponent).value.consumers = s.contexts.consumers d.head := rfl
  unfold ownNames Head.bindings
  rw [ofDefinition_statements, Statement.declaredNames_mark, hconsumers, Contexts.consumers_locals h]
  rfl

/-- A name like those of context objects is bound by the document, if it is bound. -/
theorem mem_boundNames_of_cased {identifier : String} (hcased : Contexts.Cased identifier) :
    identifier ∈ (ofDefinition s index d isComponent).value.boundNames ↔
      identifier ∈ (ofDefinition s index d isComponent).value.ownNames := by
  generalize hf : (ofDefinition s index d isComponent).value = f
  have hsetup : f.setup.map Binder.ofLine = if f.setup = [] then [] else [⟨some "const", ["__dimensions"]⟩] := by
    rw [← hf]
    exact stylePrelude_binders _ _
  rw [f.boundNames_perm.mem_iff, List.mem_append, or_iff_left]
  intro hmem
  have hname : identifier = "__dimensions" := by
    rw [hsetup] at hmem
    split at hmem
    · cases hmem
    · simpa using hmem
  rw [hname] at hcased
  exact absurd hcased (by decide)

end Function

/-- The function of every definition refers to contexts by identifiers that were given to
them. -/
theorem App.refers {document : Json} {app : App} (hload : Load.app document = .ok app)
    (hcheck : app.checkProblems = []) {options : Options} (index : Nat) {d : Node} (hd : d ∈ app.definitions)
    (isComponent : Bool) :
    (Function.ofDefinition (app.scope options) index d isComponent).value.Refers (app.scope options).contexts d := by
  have hused := scope_used hcheck options d hd
  have hgiven := @contexts_given document app hload hcheck options
  refine ⟨rfl, ⟨_, rfl⟩, Contexts.consumers_locals hused, ?_, ?_, ?_⟩
  · intro identifier hmem
    obtain ⟨name, hname, context, hlookup, rfl⟩ := Contexts.mem_referred hmem
    exact ⟨name, hname, (hgiven hlookup).2⟩
  · intro c hc heq
    obtain ⟨-, context, hlookup, hidentifier⟩ := Contexts.mem_consumers hc
    obtain ⟨hname, hcontext⟩ := hgiven hlookup
    have hlength := hcontext.length_lt hname
    rw [← hidentifier, ← heq] at hlength
    exact absurd hlength (lt_irrefl _)
  · intro identifier hmem
    obtain ⟨name, -, context, hlookup, rfl⟩ := Contexts.mem_referred hmem
    obtain ⟨hname, hcontext⟩ := hgiven hlookup
    rw [Function.mem_boundNames_of_cased _ _ _ _ (hcontext.cased hname), Function.ofDefinition_ownNames _ _ _ _ hused]

/-- What holds of the functions of all definitions of a component holds of those in its
file. -/
theorem App.functionsOf_forall {app : App} {options : Options} {i : Nat} {c : Node} {P : Node → Function → Prop}
    (h : ∀ d ∈ c.definitions, ∀ isComponent, P d (Function.ofDefinition (app.scope options) i d isComponent).value) :
    List.Forall₂ P c.definitions (app.functionsOf options i c) := by
  unfold functionsOf ComponentFile.functions Noted.eachIndexed
  rw [Noted.value_each, List.forall₂_map_right_iff]
  have hall : ∀ x ∈ c.definitions.zipIdx,
      P x.1 (Function.ofDefinition (app.scope options) i x.1 (x.2 == 0)).value :=
    fun x hx => h x.1 (List.fst_mem_of_mem_zipIdx hx) _
  have hfst := List.zipIdx_map_fst 0 c.definitions
  generalize c.definitions.zipIdx = pairs at hall hfst ⊢
  rw [← hfst, List.forall₂_map_left_iff]
  exact List.forall₂_same.2 hall

/-- In every function of a compiled file, a context object that the function refers to is
hidden exactly if the document binds its identifier there: as a parameter, as the name of
another context that is used, or in a statement. -/
theorem compile_contexts_hidden {document : Json} {options : Options} {output : Output}
    (h : compile document options = .ok output) :
    ∃ app, Load.app document = .ok app ∧ ∀ (i : Nat) (c : Node), app.components[i]? = some c →
      ∃ a, output.FileOf app options i c a ∧
        List.Forall₂ (fun d f => f.Refers (app.scope options).contexts d) c.definitions (app.functionsOf options i c) := by
  obtain ⟨app, files, hload, hcheck, hwritten, rfl⟩ := compile_eq_ok h
  refine ⟨app, hload, fun i c hc => ?_⟩
  obtain ⟨a, ha⟩ := App.fileOf hwritten hc
  refine ⟨a, ha, App.functionsOf_forall fun d hd isComponent => App.refers hload hcheck i ?_ isComponent⟩
  exact List.mem_flatMap.2 ⟨c, List.mem_of_getElem? hc, hd⟩

/-- A component that provides and uses two contexts, and binds the identifier of one of them
in a statement. -/
def reboundContext : Json :=
  .object [("components", .array
    [.object [("name", .string "App"),
      ("provideContexts", .object [("theme", .string "1"), ("mode", .string "2")]),
      ("useContexts", .array [.string "theme", .string "mode"]),
      ("expressions", .array
        [.object [("type", .string "var"), ("var", .string "ModeContext"), ("value", .string "0")]])]])]

theorem compile_contexts_hidden_reboundContext :
    ∃ output app c f, compile reboundContext {} = .ok output ∧ Load.app reboundContext = .ok app ∧
      app.components[0]? = some c ∧ f ∈ app.functionsOf {} 0 c ∧
      (app.scope {}).contexts.referred c.head = ["ThemeContext", "ModeContext", "ThemeContext", "ModeContext"] ∧
      "ThemeContext" ∉ f.boundNames ∧ "ModeContext" ∈ f.boundNames := by
  have hnames : ((Load.app reboundContext).toOption.bind fun app => app.components[0]?.map fun c =>
      ((app.scope {}).contexts.referred c.head, c.head.bindings)) =
      some (["ThemeContext", "ModeContext", "ThemeContext", "ModeContext"], ["theme", "mode", "ModeContext"]) := by
    decide +kernel
  obtain ⟨output, h⟩ : ∃ output, compile reboundContext {} = .ok output := exists_ok_of_isOk (by decide +kernel)
  obtain ⟨app, hload, hfiles⟩ := compile_contexts_hidden h
  rw [hload] at hnames
  obtain ⟨c, hc, hnames⟩ := Option.map_eq_some_iff.1 hnames
  obtain ⟨hreferred, hbindings⟩ := Prod.mk.inj hnames
  obtain ⟨a, -, hrefers⟩ := hfiles 0 c hc
  have hdefinition := (Load.app_components hload c (List.mem_of_getElem? hc)).1
  rw [Node.definitions_cons hdefinition] at hrefers
  obtain ⟨f, rest, hf, -, hfunctions⟩ := List.forall₂_cons_left_iff.1 hrefers
  have hhidden := hf.hidden
  rw [hreferred, hbindings] at hhidden
  refine ⟨output, app, c, f, h, hload, hc, hfunctions ▸ List.mem_cons_self, hreferred, ?_, ?_⟩
  · exact mt (hhidden "ThemeContext" (by simp)).1 (by simp)
  · exact (hhidden "ModeContext" (by simp)).2 (by simp)

/-- Two contexts, one of which is called like the identifier of the other. -/
def nestedNames : Json :=
  .object [("components", .array
    [.object [("name", .string "App"), ("provideContexts", .object [("X", .string "1"), ("XContext", .string "2")])],
      .object [("name", .string "Reader"), ("useContexts", .array [.string "X", .string "XContext"])]])]

/-- The local name of the second context hides the object of the first. -/
theorem context_hidden_by_local :
    (compile nestedNames {}).isOk = true ∧
    ((Load.app nestedNames).toOption.bind fun app => app.components[1]?.map fun c =>
      ((app.scope {}).contexts.referred c.head,
        (app.functionsOf {} 1 c).map fun f => (f.consumers.map fun b => b.declare "const", f.boundNames))) =
      some (["XContext", "XContextContext"],
        [(["const X = useContext(XContext);", "const XContext = useContext(XContextContext);"], ["X", "XContext"])]) := by
  decide +kernel

end ViewTree
