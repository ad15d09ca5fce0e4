import ViewTree.Proofs.Markup.ClassLists

/-!
# The order of attributes

The attributes of an element are applied from left to right, and the last one that sets a
name wins; a spread sets all the names of a map. Props are written in the order in which
they are declared, except that on the web the class attribute comes before everything
else. So an element without styles gets what its props declare, with one exception: a
class that is declared after a spread loses to the class of that spread
(`attributes_follow_props`).
-/

namespace ViewTree

namespace Markup

/-- One attribute of an element. -/
inductive Setting where
  /-- The class attribute of the web. -/
  | classes (value : Value)
  | named (key : String) (value : Value)
  | spread (code : String)

namespace Setting

/-- What an attribute of the props sets. -/
def ofProp (platform : Platform) (key : String) (value : Value) : Setting :=
  if isClassKey platform key then classes value else named key value

/-- The value of the class attribute. -/
def class? : Setting → Option Value
  | classes value => some value
  | _ => none

/-- The attribute as it is written. -/
def text : Setting → String
  | classes value => "className=" ++ Text.shield ((classValue [value]).getD "")
  | named key value => Text.shield (attributeText key value)
  | spread code => "\x7b..." ++ Text.shield code ++ "\x7d"

/-! ## Evaluation -/

section
variable {V : Type} (spreads : String → String → Option V) (value : Value → V)

/-- What an attribute gives a name, where `spreads` are the maps that scripts stand for. -/
def gives : Setting → String → Option V
  | classes v, name => if name = "className" then some (value v) else none
  | named key v, name => if name = key then some (value v) else none
  | spread code, name => spreads code name

/-- The values of names after one more attribute. -/
def apply (state : String → Option V) (s : Setting) : String → Option V :=
  fun name => (s.gives spreads value name).or (state name)

/-- The final value of each name, once attributes are applied from left to right. -/
def final (settings : List Setting) : String → Option V := settings.foldl (apply spreads value) fun _ => none

variable {spreads value}

theorem foldl_apply (settings : List Setting) (state : String → Option V) (name : String) :
    settings.foldl (apply spreads value) state name = (final spreads value settings name).or (state name) := by
  unfold final
  induction settings generalizing state with
  | nil => rfl
  | cons s settings ih =>
    rw [List.foldl_cons, List.foldl_cons, ih, ih (apply spreads value (fun _ => none) s)]
    simp only [apply, Option.or_none, Option.or_assoc]

theorem final_append (a b : List Setting) (name : String) :
    final spreads value (a ++ b) name = (final spreads value b name).or (final spreads value a name) := by
  unfold final
  rw [List.foldl_append, foldl_apply]
  rfl

theorem final_cons (s : Setting) (settings : List Setting) (name : String) :
    final spreads value (s :: settings) name =
      (final spreads value settings name).or (s.gives spreads value name) := by
  have happend := @final_append V spreads value [s] settings name
  rw [List.singleton_append] at happend
  rw [happend]
  simp [final, apply]

end

/-! ## The written order -/

/-- The attributes as the markup has them: the class attribute first, the others in order. -/
def written (settings : List Setting) : List Setting :=
  (settings.filterMap class?).map classes ++ settings.filter fun s => s.class?.isNone

theorem others_of_none {settings : List Setting} (h : settings.filterMap class? = []) :
    (settings.filter fun s => s.class?.isNone) = settings :=
  List.filter_eq_self.2 fun s hs => by simpa using List.filterMap_eq_nil_iff.1 h s hs

theorem written_of_none {settings : List Setting} (h : settings.filterMap class? = []) :
    written settings = settings := by
  rw [written, h, others_of_none h]
  rfl

/-- A single class attribute moves to the front. -/
theorem written_of_one {before after : List Setting} {v : Value}
    (h : ((before ++ classes v :: after).filterMap class?).length ≤ 1) :
    written (before ++ classes v :: after) = classes v :: (before ++ after) := by
  have hv : (before ++ classes v :: after).filterMap class? =
      before.filterMap class? ++ v :: after.filterMap class? := by
    rw [List.filterMap_append, List.filterMap_cons]
    rfl
  rw [hv, List.length_append, List.length_cons] at h
  have hbefore : before.filterMap class? = [] := List.length_eq_zero_iff.1 (by omega)
  have hafter : after.filterMap class? = [] := List.length_eq_zero_iff.1 (by omega)
  rw [written, hv, List.filter_append, List.filter_cons_of_neg (by simp [class?]), hbefore, hafter,
    others_of_none hbefore, others_of_none hafter]
  rfl

theorem exists_class {settings : List Setting} (h : settings.filterMap class? ≠ []) :
    ∃ before v after, settings = before ++ classes v :: after := by
  obtain ⟨v, hv⟩ := List.exists_mem_of_ne_nil _ h
  obtain ⟨s, hs, hclass⟩ := List.mem_filterMap.1 hv
  obtain ⟨before, after, rfl⟩ := List.append_of_mem hs
  cases s with
  | classes v => exact ⟨before, v, after, rfl⟩
  | named key v => cases hclass
  | spread code => cases hclass

/-- What a name has in the written order. It is what the props say, unless the name is the
class, which then goes to the last spread before it that holds one. -/
theorem final_written_iff {V : Type} (spreads : String → String → Option V) (value : Value → V)
    {settings : List Setting} (h : (settings.filterMap class?).length ≤ 1) (name : String) :
    final spreads value (written settings) name = final spreads value settings name ↔
      ∀ before v after, settings = before ++ classes v :: after → name = "className" →
        (final spreads value after name).isSome = true ∨ ∀ w ∈ final spreads value before name, w = value v := by
  have hone : ∀ before v after, settings = before ++ classes v :: after →
      (final spreads value (written settings) name = final spreads value settings name ↔
        (name = "className" → (final spreads value after name).isSome = true ∨
          ∀ w ∈ final spreads value before name, w = value v)) := by
    rintro before v after rfl
    rw [written_of_one h, final_cons, final_append, final_append, final_cons]
    by_cases hname : name = "className"
    · simp only [gives, if_pos hname]
      cases final spreads value after name with
      | some w => simp
      | none =>
        cases final spreads value before name with
        | none => simp
        | some w => simp [hname]
    · simp [gives, hname]
  constructor
  · intro heq before v after hsplit
    exact (hone before v after hsplit).1 heq
  · intro hall
    by_cases hclass : settings.filterMap class? = []
    · rw [written_of_none hclass]
    · obtain ⟨before, v, after, hsplit⟩ := exists_class hclass
      exact (hone before v after hsplit).2 (hall before v after hsplit)

end Setting

/-! ## Attributes of props -/

/-- What an entry of the props sets, in order. -/
def settingsOf (platform : Platform) : PropEntry → List Setting
  | .attributes values => values.map fun (key, value) => Setting.ofProp platform key value
  | .spread code => [.spread code]

/-- What props set, in the order in which they are declared. -/
def declared (platform : Platform) (props : List PropEntry) : List Setting := props.flatMap (settingsOf platform)

/-- Puts one attribute where it is collected. -/
def Attributes.push (a : Attributes) : Setting → Attributes
  | .classes value => { a with classes := a.classes ++ [value] }
  | s => { a with others := a.others ++ [s.text] }

theorem Attributes.foldl_push (a : Attributes) (settings : List Setting) :
    settings.foldl push a =
      { a with
        classes := a.classes ++ settings.filterMap Setting.class?
        others := a.others ++ (settings.filter fun s => s.class?.isNone).map Setting.text } := by
  induction settings generalizing a with
  | nil => simp
  | cons s settings ih =>
    rw [List.foldl_cons, ih]
    cases s with
    | classes v => simp [push, Setting.class?]
    | named key v => simp [push, List.filterMap_cons, Setting.class?]
    | spread code => simp [push, List.filterMap_cons, Setting.class?]

theorem Attributes.push_fragments (a : Attributes) (s : Setting) : (a.push s).fragments = a.fragments := by
  cases s <;> rfl

theorem add_eq_push (platform : Platform) {a : Attributes} (h : a.fragments = []) (key : String) (value : Value) :
    a.add platform key value = a.push (.ofProp platform key value) := by
  unfold Attributes.add Setting.ofProp
  split
  · rfl
  · simp [Attributes.push, Setting.text, h]

theorem foldl_add (platform : Platform) (values : Keyed Value) {a : Attributes} (h : a.fragments = []) :
    values.foldl (fun a (key, value) => a.add platform key value) a =
      (values.map fun (key, value) => Setting.ofProp platform key value).foldl Attributes.push a := by
  induction values generalizing a with
  | nil => rfl
  | cons p values ih =>
    obtain ⟨key, value⟩ := p
    simp only [List.foldl_cons, List.map_cons, add_eq_push platform h]
    exact ih (by rw [Attributes.push_fragments, h])

theorem Attributes.foldl_push_fragments (a : Attributes) (settings : List Setting) :
    (settings.foldl push a).fragments = a.fragments := by
  rw [foldl_push]

/-- Props add what they declare, one after the other. -/
theorem foldl_addEntry (platform : Platform) (props : List PropEntry) {a : Attributes} (h : a.fragments = []) :
    props.foldl (Attributes.addEntry platform) a = (declared platform props).foldl Attributes.push a := by
  induction props generalizing a with
  | nil => rfl
  | cons entry props ih =>
    have hentry : a.addEntry platform entry = (settingsOf platform entry).foldl Attributes.push a := by
      cases entry with
      | spread code => rfl
      | attributes values => exact foldl_add platform values h
    rw [declared, List.flatMap_cons, List.foldl_append, List.foldl_cons, hentry]
    exact ih (by rw [Attributes.foldl_push_fragments, h])

/-- The cross-platform target has no class attribute. -/
theorem declared_crossPlatform (props : List PropEntry) :
    (declared .crossPlatform props).filterMap Setting.class? = [] := by
  rw [List.filterMap_eq_nil_iff]
  intro s hs
  obtain ⟨entry, -, hs⟩ := List.mem_flatMap.1 hs
  cases entry with
  | spread code =>
    obtain rfl := List.mem_singleton.1 hs
    rfl
  | attributes values =>
    obtain ⟨⟨key, value⟩, -, rfl⟩ := List.mem_map.1 hs
    rfl

/-- Without styles, the attributes are those that the props declare, in the written order. -/
theorem attributes_eq_written (platform : Platform) {props : List PropEntry}
    (h : ((declared platform props).filterMap Setting.class?).length ≤ 1) :
    (attributes platform props []).value = (Setting.written (declared platform props)).map Setting.text := by
  have hcollect : Attributes.collect platform props [] = (declared platform props).foldl Attributes.push {} :=
    foldl_addEntry platform props rfl
  rw [Attributes.foldl_push, List.nil_append, List.nil_append] at hcollect
  have hvalue : (attributes platform props []).value =
      (Attributes.collect platform props []).renderClass platform ++
        ((declared platform props).filter fun s => s.class?.isNone).map Setting.text := by
    unfold attributes
    rw [hcollect]
    cases platform <;> rfl
  rw [hvalue, Setting.written, List.map_append, hcollect]
  congr 1
  cases platform with
  | crossPlatform =>
    rw [declared_crossPlatform]
    rfl
  | web =>
    match hvalues : (declared .web props).filterMap Setting.class? with
    | [] => rfl
    | [v] =>
      obtain ⟨text, htext⟩ := classValue_isSome (List.cons_ne_nil v [])
      simp only [Attributes.renderClass, Platform.classAttribute, htext, List.map_cons, List.map_nil, Setting.text,
        Option.getD_some]
      rfl
    | v :: w :: more => simp [hvalues] at h

/-- An element without styles has the attributes that its props declare, the class
attribute of the web first. However spreads and values are evaluated, every name ends with
the value that the props give it in the declared order, except the class of the web: it
does so exactly if a later spread has a class anyway, or the last class of the spreads
before it, if any, is the same. -/
theorem attributes_follow_props (platform : Platform) {props : List PropEntry}
    (h : ((declared platform props).filterMap Setting.class?).length ≤ 1) :
    (attributes platform props []).value = (Setting.written (declared platform props)).map Setting.text ∧
      ∀ {V : Type} (spreads : String → String → Option V) (value : Value → V) (name : String),
        Setting.final spreads value (Setting.written (declared platform props)) name =
            Setting.final spreads value (declared platform props) name ↔
          ∀ before v after, declared platform props = before ++ .classes v :: after → name = "className" →
            (Setting.final spreads value after name).isSome = true ∨
              ∀ w ∈ Setting.final spreads value before name, w = value v :=
  ⟨attributes_eq_written platform h, fun spreads value name => Setting.final_written_iff spreads value h name⟩

/-- Two spreads, and between them a class and another attribute. -/
def layeredProps : List PropEntry :=
  [.spread "theme", .attributes [("class", .script "k"), ("id", .literal (.string "a"))], .spread "rest"]

/-- Both spreads have a class, and the second has an `id`. -/
def layeredMaps : String → String → Option String
  | "theme", "className" => some "from theme"
  | "rest", "className" => some "from rest"
  | "rest", "id" => some "from rest"
  | _, _ => none

theorem attributes_follow_props_layered :
    ((declared .web layeredProps).filterMap Setting.class?).length ≤ 1 ∧
    (attributes .web layeredProps []).value =
      ["className=\x7b`$\x7bk\x7d`\x7d", "\x7b...theme\x7d", "id=\"a\"", "\x7b...rest\x7d"] ∧
    (∀ name, Setting.final layeredMaps Value.code (Setting.written (declared .web layeredProps)) name =
      Setting.final layeredMaps Value.code (declared .web layeredProps) name) := by
  have hone : ((declared .web layeredProps).filterMap Setting.class?).length ≤ 1 := by decide
  obtain ⟨hattributes, hfinal⟩ := attributes_follow_props .web hone
  refine ⟨hone, by rw [hattributes]; decide, fun name => (hfinal layeredMaps Value.code name).2 ?_⟩
  rintro before v after hsplit rfl
  have hdeclared : declared .web layeredProps =
      [.spread "theme"] ++ .classes (.script "k") :: [.named "id" (.literal (.string "a")), .spread "rest"] := rfl
  rw [hdeclared] at hsplit
  -- the only class is the second of the attributes
  rcases before with _ | ⟨first, _ | ⟨second, before⟩⟩
  · simp at hsplit
  · obtain ⟨-, hrest⟩ := List.cons_eq_cons.1 hsplit
    obtain ⟨-, rfl⟩ := List.cons_eq_cons.1 hrest
    exact .inl rfl
  · simp [List.cons_eq_append_iff] at hsplit

/-- A spread and, after it, a class. -/
def spreadThenClass : List PropEntry := [.spread "rest", .attributes [("className", .literal (.string "a"))]]

/-- The props say that the class is `a`, the attributes that it is that of the spread. -/
theorem class_lost_to_spread :
    (attributes .web spreadThenClass []).value = ["className=\"a\"", "\x7b...rest\x7d"] ∧
    Setting.final (fun _ _ => some "b") Value.code (declared .web spreadThenClass) "className" = some "\"a\"" ∧
    Setting.final (fun _ _ => some "b") Value.code (Setting.written (declared .web spreadThenClass)) "className" =
      some "b" := by
  decide

end Markup

end ViewTree
