import ViewTree.Load.App

/-!
# Where loading notes problems

Each step of loading is given the place of its part of the document, and the problems it
notes are there or further in: at a field, at an item, at a field of an item. So the places
that hold the first place and all that is further in (a `Region`) hold those of all the
problems. Apart from styles no step refers to a style format (`Quiet`).
-/

namespace ViewTree.Load

/-- Places that hold with one place every field and every item of it. -/
structure Region (At : String → Prop) : Prop where
  field : ∀ {path : String} (key : String), At path → At (field path key)
  item : ∀ {path : String} (i : Nat), At path → At (item path i)

/-- The step refers to the formats `uses` and to no others, and what it notes is at places
of a kind. -/
structure Notes {α : Type} (At : String → Prop) (uses : List FormatUse) (x : Load α) : Prop where
  formats : x.notes.formats = uses
  problems : ∀ p ∈ x.notes.problems, At p.path
  places : ∀ u ∈ uses, At u.path

/-- The step refers to no format. -/
abbrev Quiet {α : Type} (At : String → Prop) (x : Load α) : Prop := Notes At [] x

variable {α β : Type} {At : String → Prop}

/-! ## Sequences -/

theorem Notes.bind_value {uses more : List FormatUse} {x : Load α} {f : α → Load β} (hx : Notes At uses x)
    (hf : Notes At more (f x.value)) : Notes At (uses ++ more) (x >>= f) where
  formats := by rw [Noted.notes_bind, Log.formats_append, hx.formats, hf.formats]
  problems p hp := by
    rw [Noted.notes_bind, Log.problems_append, List.mem_append] at hp
    exact hp.elim (hx.problems p) (hf.problems p)
  places u hu := (List.mem_append.1 hu).elim (hx.places u) (hf.places u)

theorem Notes.bind {uses more : List FormatUse} {x : Load α} {f : α → Load β} (hx : Notes At uses x)
    (hf : ∀ a, Notes At more (f a)) : Notes At (uses ++ more) (x >>= f) :=
  hx.bind_value (hf x.value)

/-- A quiet step in front changes nothing. -/
theorem Quiet.bind {uses : List FormatUse} {x : Load α} {f : α → Load β} (hx : Quiet At x)
    (hf : ∀ a, Notes At uses (f a)) : Notes At uses (x >>= f) :=
  Notes.bind hx hf

/-- Quiet steps behind change nothing. -/
theorem Notes.bind_quiet {uses : List FormatUse} {x : Load α} {f : α → Load β} (hx : Notes At uses x)
    (hf : ∀ a, Quiet At (f a)) : Notes At uses (x >>= f) := by
  rw [← List.append_nil uses]
  exact hx.bind hf

theorem quiet_pure (a : α) : Quiet At (pure a : Load α) where
  formats := rfl
  problems := by simp
  places := by simp

theorem quiet_each {f : α → Load β} {as : List α} (h : ∀ a ∈ as, Quiet At (f a)) : Quiet At (Noted.each f as) := by
  induction as with
  | nil => exact quiet_pure []
  | cons a as ih =>
    refine Quiet.bind (h a List.mem_cons_self) fun b => ?_
    exact Quiet.bind (ih fun c hc => h c (List.mem_cons_of_mem a hc)) fun bs => quiet_pure _

theorem quiet_eachSome {f : α → Load (Option β)} {as : List α} (h : ∀ a ∈ as, Quiet At (f a)) :
    Quiet At (Noted.eachSome f as) :=
  Quiet.bind (quiet_each h) fun _ => quiet_pure _

theorem quiet_eachIndexed {f : Nat → α → Load β} {as : List α} (h : ∀ i a, Quiet At (f i a)) :
    Quiet At (Noted.eachIndexed f as) :=
  quiet_each fun (a, i) _ => h i a

/-- Items one after the other refer to the formats of each in turn. -/
theorem notes_eachIndexed {f : Nat → α → Load β} {uses : Nat → α → List FormatUse} {as : List α}
    (h : ∀ i a, Notes At (uses i a) (f i a)) :
    Notes At (as.zipIdx.flatMap fun (a, i) => uses i a) (Noted.eachIndexed f as) := by
  unfold Noted.eachIndexed
  induction as.zipIdx with
  | nil => exact quiet_pure []
  | cons first more ih =>
    rw [List.flatMap_cons]
    exact (h first.2 first.1).bind fun b => ih.bind_quiet fun bs => quiet_pure _

section
variable {path : String} (h : At path)
include h

/-! ## Steps that note problems at their own place -/

theorem quiet_problem (rule : Rule) (cause : Cause) : Quiet At (problem rule path cause) where
  formats := rfl
  problems p hp := by
    rw [List.mem_singleton.1 hp]
    exact h
  places := by simp

theorem quiet_fail (rule : Rule) (cause : Cause) : Quiet At (fail rule path cause : Load (Option α)) :=
  Quiet.bind (quiet_problem h rule cause) fun _ => quiet_pure none

theorem quiet_requiredScript (fields : Keyed Json) (key : String) (rule : Rule) (what : String) :
    Quiet At (requiredScript fields key path rule what) := by
  unfold requiredScript
  split
  · split
    · exact quiet_fail h _ _
    · exact quiet_pure _
  · exact quiet_fail h _ _

theorem quiet_identifierText (s : String) (rule : Rule) : Quiet At (identifierText s path rule) := by
  unfold identifierText
  split
  · exact quiet_pure _
  · exact quiet_fail h _ _

theorem quiet_identifier (value : Json) (rule : Rule) : Quiet At (identifier value path rule) := by
  unfold identifier
  split
  · exact quiet_identifierText h _ rule
  · exact quiet_fail h _ _

theorem quiet_restPlace (earlier : Option String) (isLast : Bool) : Quiet At (restPlace earlier isLast path) := by
  unfold restPlace
  split
  · exact Quiet.bind (quiet_problem h _ _) fun _ => quiet_pure _
  · split
    · exact quiet_pure _
    · exact Quiet.bind (quiet_problem h _ _) fun _ => quiet_pure _

theorem quiet_spread (raw : String) : Quiet At (spread raw path) := by
  unfold spread
  split
  · split
    · exact quiet_fail h _ _
    · exact quiet_pure _
  · exact quiet_fail h _ _

theorem quiet_textContent (text : String) : Quiet At (textContent text path) := by
  unfold textContent
  split
  · split
    · split
      · exact quiet_fail h _ _
      · exact quiet_pure _
    · exact quiet_fail h _ _
  · exact quiet_pure _

theorem quiet_inlineName (fields : Keyed Json) : Quiet At (inlineName fields path) := by
  unfold inlineName
  split
  · exact quiet_pure _
  · split
    · exact quiet_problem h _ _
    · exact quiet_pure _

theorem quiet_definitionName (fields : Keyed Json) : Quiet At (definitionName fields path) := by
  unfold definitionName
  split
  · exact quiet_problem h _ _
  · exact quiet_pure _

end

section
variable (hAt : Region At) {path : String} (h : At path)
include hAt h

theorem quiet_optionalString (fields : Keyed Json) (key : String) : Quiet At (optionalString fields key path) := by
  unfold optionalString
  split
  · exact quiet_pure _
  · exact quiet_pure _
  · exact quiet_pure _
  · exact quiet_fail (hAt.field key h) _ _

/-! ## Patterns -/

theorem quiet_propertyShape (value : Json) : Quiet At (propertyShape value path) := by
  unfold propertyShape
  split
  · exact quiet_pure _
  · exact quiet_pure _
  · exact Quiet.bind (quiet_identifierText h _ _) fun _ => quiet_pure _
  · dsimp only
    split
    · exact Quiet.bind (quiet_identifier (hAt.field "as" h) _ _) fun _ => quiet_pure _
    · exact Quiet.bind (quiet_pure none) fun _ => quiet_pure _
  · exact quiet_fail h _ _

theorem quiet_property (key : String) (value : Json) : Quiet At (property key value path) := by
  refine Quiet.bind (quiet_propertyShape hAt h value) fun shape => ?_
  split
  · exact quiet_pure _
  · split
    · exact quiet_fail h _ _
    · exact quiet_pure _

theorem quiet_objectEntries (entries : Keyed Json) (draft : ObjectDraft) :
    Quiet At (objectEntries path entries draft) := by
  induction entries generalizing draft with
  | nil => exact quiet_pure _
  | cons e entries ih =>
    obtain ⟨key, value⟩ := e
    have hplace := hAt.field key h
    rw [objectEntries]
    split
    · dsimp only
      split
      · refine Quiet.bind (quiet_identifier hplace value _) fun name => ?_
        exact Quiet.bind (quiet_restPlace hplace _ _) fun _ => ih _
      · refine Quiet.bind (quiet_identifierText hplace _ _) fun name => ?_
        exact Quiet.bind (quiet_restPlace hplace _ _) fun _ => ih _
    · refine Quiet.bind (quiet_property hAt hplace key value) fun loaded => ?_
      split
      · exact ih _
      · exact ih _

theorem quiet_arrayObject (fields : Keyed Json) : Quiet At (arrayObject fields path) := by
  unfold arrayObject
  dsimp only
  split
  · exact Quiet.bind (quiet_identifier (hAt.field "name" h) _ _) fun _ => quiet_pure _
  · exact Quiet.bind (quiet_fail h _ _) fun _ => quiet_pure _

theorem quiet_arrayItems (items : List Json) (i : Nat) (draft : ArrayDraft) :
    Quiet At (arrayItems path items i draft) := by
  induction items generalizing i draft with
  | nil => exact quiet_pure _
  | cons v items ih =>
    have hplace := hAt.item i h
    unfold arrayItems
    dsimp only
    split
    · exact ih _ _
    · split
      · refine Quiet.bind (quiet_identifierText hplace _ _) fun name => ?_
        exact Quiet.bind (quiet_restPlace hplace _ _) fun _ => ih _ _
      · refine Quiet.bind (quiet_identifierText hplace _ _) fun name => ?_
        split
        · exact ih _ _
        · exact ih _ _
    · refine Quiet.bind (quiet_arrayObject hAt hplace _) fun entry => ?_
      split
      · exact ih _ _
      · exact ih _ _
    · exact Quiet.bind (quiet_problem hplace _ _) fun _ => ih _ _

theorem quiet_patternShape (value : Json) : Quiet At (patternShape value path) := by
  unfold patternShape
  split
  · split
    · exact quiet_fail h _ _
    · exact Quiet.bind (quiet_identifierText h _ _) fun _ => quiet_pure _
  · exact Quiet.bind (quiet_objectEntries hAt h _ _) fun _ => quiet_pure _
  · exact Quiet.bind (quiet_arrayItems hAt h _ _ _) fun _ => quiet_pure _
  · exact quiet_fail h _ _

theorem quiet_pattern (value : Json) : Quiet At (pattern value path) := by
  refine Quiet.bind (quiet_patternShape hAt h value) fun shape => ?_
  split
  · exact quiet_pure _
  · split
    · exact quiet_fail h _ _
    · exact quiet_pure _

theorem quiet_params (fields : Keyed Json) : Quiet At (params fields path) := by
  unfold params
  split
  · exact quiet_pure _
  · exact quiet_pure _
  · exact quiet_pattern hAt (hAt.field "props" h) _

theorem quiet_loopVar (fields : Keyed Json) : Quiet At (loopVar fields path) := by
  unfold loopVar
  split
  · exact quiet_pattern hAt (hAt.field "var" h) _
  · exact quiet_pure _

theorem quiet_loopIndex (fields : Keyed Json) : Quiet At (loopIndex fields path) := by
  unfold loopIndex
  split
  · exact quiet_identifier (hAt.field "index" h) _ _
  · exact quiet_pure _

/-! ## Expressions -/

theorem quiet_statePair (value : Option Json) : Quiet At (statePair value path) := by
  unfold statePair
  split
  · refine Quiet.bind (quiet_identifier (hAt.item 0 h) _ _) fun getter => ?_
    exact Quiet.bind (quiet_identifier (hAt.item 1 h) _ _) fun setter => quiet_pure _
  · exact Quiet.bind (quiet_identifierText h _ _) fun _ => quiet_pure _
  · exact quiet_fail h _ _

theorem quiet_dependencies (value : Option Json) : Quiet At (dependencies value path) := by
  unfold dependencies
  split
  · exact quiet_pure _
  · exact quiet_pure _
  · refine Quiet.bind (quiet_eachIndexed fun i v => ?_) fun _ => quiet_pure _
    split
    · exact quiet_pure _
    · exact quiet_fail (hAt.item i h) _ _
  · exact quiet_fail h _ _

theorem quiet_typedExpression (fields : Keyed Json) : Quiet At (typedExpression fields path) := by
  have hvar := hAt.field "var" h
  unfold typedExpression
  split
  · exact Quiet.bind (quiet_requiredScript h _ _ _ _) fun _ => quiet_pure _
  · exact Quiet.bind (quiet_statePair hAt hvar _) fun _ => quiet_pure _
  · dsimp only
    split
    · split
      · exact Quiet.bind (quiet_pattern hAt hvar _) fun _ => Quiet.bind (quiet_pure _) fun _ => quiet_pure _
      · exact Quiet.bind (quiet_pattern hAt hvar _) fun _ => Quiet.bind (quiet_fail h _ _) fun _ => quiet_pure _
    · split
      · exact Quiet.bind (quiet_fail h _ _) fun _ => Quiet.bind (quiet_pure _) fun _ => quiet_pure _
      · exact Quiet.bind (quiet_fail h _ _) fun _ => Quiet.bind (quiet_fail h _ _) fun _ => quiet_pure _
  · dsimp only
    split
    · exact Quiet.bind (quiet_identifier hvar _ _) fun _ => quiet_pure _
    · exact Quiet.bind (quiet_fail h _ _) fun _ => quiet_pure _
  · refine Quiet.bind (quiet_requiredScript h _ _ _ _) fun body => ?_
    split
    · exact quiet_pure _
    · exact Quiet.bind (quiet_dependencies hAt (hAt.field "dependencies" h) _) fun _ => quiet_pure _
  · exact quiet_fail h _ _

theorem quiet_expression (value : Json) : Quiet At (expression value path) := by
  unfold expression
  split
  · exact quiet_pure _
  · exact quiet_typedExpression hAt h _
  · exact quiet_fail h _ _

theorem quiet_expressions (value : Json) : Quiet At (expressions value path) := by
  unfold expressions
  split
  · exact Quiet.bind (quiet_eachIndexed fun i v => quiet_expression hAt (hAt.item i h) v) fun _ => quiet_pure _
  · exact Quiet.bind (quiet_problem h _ _) fun _ => quiet_pure _

/-! ## Imports -/

theorem quiet_symbolShape (shape : Json) : Quiet At (symbolShape shape path) := by
  unfold symbolShape
  split
  · exact quiet_pure _
  · exact quiet_pure _
  · split
    · exact Quiet.bind (quiet_identifier (hAt.field "as" h) _ _) fun _ => quiet_pure _
    · exact quiet_pure _
  · exact Quiet.bind (quiet_identifierText h _ _) fun _ => quiet_pure _
  · exact quiet_fail h _ _

theorem quiet_symbolEntry (symbol : String) (shape : Json) : Quiet At (symbolEntry symbol shape path) := by
  refine Quiet.bind (quiet_symbolShape hAt h shape) fun renamed => ?_
  split
  · exact quiet_pure _
  · split
    · split
      · exact quiet_fail h _ _
      · exact quiet_pure _
    · split
      · exact quiet_pure _
      · exact quiet_fail h _ _

theorem quiet_symbolImports (symbols : Keyed Json) (source : String) : Quiet At (symbolImports symbols source path) := by
  refine Quiet.bind (quiet_eachSome fun (symbol, shape) _ => ?_) fun _ => quiet_pure _
  exact quiet_symbolEntry hAt (hAt.field symbol (hAt.field "import" h)) symbol shape

theorem quiet_nameImport (symbol : String) (fields : Keyed Json) (source : String) :
    Quiet At (nameImport symbol fields source path) := by
  unfold nameImport
  split
  · exact quiet_pure _
  · split
    · dsimp only
      split
      · exact Quiet.bind (quiet_identifier (hAt.field "as" h) _ _) fun _ => quiet_pure _
      · exact Quiet.bind (quiet_fail h _ _) fun _ => quiet_pure _
    · split
      · exact quiet_pure _
      · exact Quiet.bind (quiet_problem (hAt.field "import" h) _ _) fun _ => quiet_pure _

theorem quiet_importEntry (value : Json) : Quiet At (importEntry value path) := by
  unfold importEntry
  split
  · split
    · unfold importsFrom
      split
      · exact quiet_pure _
      · exact quiet_pure _
      · exact quiet_nameImport hAt h _ _ _
      · exact quiet_symbolImports hAt h _ _
      · exact Quiet.bind (quiet_problem (hAt.field "import" h) _ _) fun _ => quiet_pure _
    · exact Quiet.bind (quiet_problem h _ _) fun _ => quiet_pure _
  · split
    · exact quiet_pure _
    · exact Quiet.bind (quiet_problem h _ _) fun _ => quiet_pure _

theorem quiet_imports (value : Json) : Quiet At (imports value path) := by
  unfold imports
  split
  · exact quiet_pure _
  · exact Quiet.bind (quiet_eachIndexed fun i v => quiet_importEntry hAt (hAt.item i h) v) fun _ => quiet_pure _
  · exact quiet_importEntry hAt h _

/-! ## Props, contexts and sheets -/

theorem quiet_props (value : Json) : Quiet At (props value path) := by
  unfold props
  split
  · exact quiet_pure _
  · exact quiet_pure _
  · exact Quiet.bind (quiet_spread h _) fun _ => quiet_pure _
  · refine Quiet.bind (quiet_eachIndexed fun i v => ?_) fun _ => quiet_pure _
    split
    · exact quiet_pure _
    · exact quiet_spread (hAt.item i h) _
    · exact quiet_fail (hAt.item i h) _ _
  · exact Quiet.bind (quiet_problem h _ _) fun _ => quiet_pure _

theorem quiet_contextNames (value : Json) : Quiet At (contextNames value path) := by
  unfold contextNames
  split
  · exact Quiet.bind (quiet_identifierText h _ _) fun _ => quiet_pure _
  · exact Quiet.bind (quiet_eachIndexed fun i v => quiet_identifier (hAt.item i h) v _) fun _ => quiet_pure _
  · exact Quiet.bind (quiet_problem h _ _) fun _ => quiet_pure _

theorem quiet_provisions (value : Json) : Quiet At (provisions value path) := by
  unfold provisions
  split
  · refine quiet_eachSome fun (key, v) _ => ?_
    exact Quiet.bind (quiet_identifierText (hAt.field key h) _ _) fun _ => quiet_pure _
  · exact Quiet.bind (quiet_contextNames hAt h _) fun _ => quiet_pure _

theorem quiet_sheetOverride (isDefinition : Bool) (fields : Keyed Json) (key : String) :
    Quiet At (sheetOverride isDefinition fields key path) := by
  refine Quiet.bind (quiet_optionalString hAt h fields key) fun text => ?_
  split
  · exact quiet_pure _
  · split
    · exact quiet_pure _
    · exact quiet_fail (hAt.field key h) _ _

theorem quiet_ifPresent (fields : Keyed Json) (key : String) {load : Json → String → Load (List α)}
    (hload : ∀ v path, At path → Quiet At (load v path)) : Quiet At (ifPresent fields key path load) := by
  unfold ifPresent
  split
  · exact hload _ _ (hAt.field key h)
  · exact quiet_pure _

theorem quiet_ownProps (isDefinition : Bool) (fields : Keyed Json) : Quiet At (ownProps isDefinition fields path) := by
  unfold ownProps
  split
  · exact quiet_pure _
  · exact quiet_ifPresent hAt h fields "props" fun v _ hv => quiet_props hAt hv v

theorem quiet_onDefinition (isDefinition : Bool) (fields : Keyed Json) (key : String)
    {load : Json → String → Load (List α)} (hload : ∀ v path, At path → Quiet At (load v path)) {rule : Rule}
    {cause : Cause} :
    Quiet At (onDefinition isDefinition fields key path load (problem rule (field path key) cause)) := by
  unfold onDefinition
  split
  · exact quiet_pure _
  · split
    · exact hload _ _ (hAt.field key h)
    · exact Quiet.bind (quiet_problem (hAt.field key h) _ _) fun _ => quiet_pure _

theorem quiet_nodeType (fields : Keyed Json) : Quiet At (nodeType fields path) := by
  unfold nodeType
  split
  · exact quiet_fail h _ _
  · split
    · exact quiet_pure _
    · exact quiet_fail (hAt.field "type" h) _ _

theorem quiet_definitionType (fields : Keyed Json) : Quiet At (definitionType fields path) := by
  unfold definitionType
  split
  · exact quiet_pure _
  · exact quiet_pure _
  · exact quiet_problem (hAt.field "type" h) _ _

/-! ## Style formats -/

theorem quiet_conditions (entries : Keyed Json) (p : Predicate) : Quiet At (conditions path entries p) := by
  induction entries generalizing p with
  | nil => exact quiet_pure _
  | cons e entries ih =>
    obtain ⟨key, value⟩ := e
    rw [conditions]
    split
    · exact ih _
    · refine Quiet.bind (quiet_problem (hAt.field key h) _ _) fun _ => ?_
      exact Quiet.bind (ih p) fun _ => quiet_pure _

theorem quiet_formatPredicate (value : Json) : Quiet At (formatPredicate value path) := by
  unfold formatPredicate
  split
  · refine Quiet.bind (quiet_conditions hAt h _ _) fun p => ?_
    split
    · exact quiet_pure _
    · split
      · exact quiet_fail h _ _
      · exact quiet_pure _
  · exact quiet_fail h _ _

theorem quiet_styleMap (fields : Keyed Json) : Quiet At (styleMap fields path) := by
  unfold styleMap
  split
  · exact quiet_pure _
  · exact quiet_fail (hAt.field "style" h) _ _

theorem quiet_staticStyleMap (fields : Keyed Json) : Quiet At (staticStyleMap fields path) := by
  refine Quiet.bind (quiet_styleMap hAt h fields) fun style => ?_
  split
  · exact quiet_pure _
  · refine Quiet.bind (quiet_each fun (key, text) _ => ?_) fun _ => quiet_pure _
    exact quiet_problem (hAt.field key (hAt.field "style" h)) _ _

end

end ViewTree.Load
