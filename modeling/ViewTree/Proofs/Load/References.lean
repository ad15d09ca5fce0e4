import ViewTree.Node.Equality
import ViewTree.Proofs.Load.Objects
import ViewTree.Proofs.Load.WellFormed
import ViewTree.Proofs.Markup.StyleScripts

/-!
# Script references without a script

A script that is a child or a style of its own is refused if it is empty. A value of an
attribute or of a style map is not looked at, and a spread is looked at before the dots are
dropped. So the scripts of a loaded app are all there exactly if no attribute and no style
value of its objects holds nothing between the braces, and no spread nothing but the dots
(`load_references`).
-/

namespace ViewTree

open Text

/-! ## References as they are written -/

namespace Script

/-- A text that holds a script between braces, with blanks anywhere around it. -/
def Wraps (raw code : String) : Prop :=
  ∃ a b c d : List Char, (∀ x ∈ a ++ d, isSpace x = true) ∧ (∀ x ∈ b ++ c, isSpace x = true) ∧
    raw.toList = a ++ ('\x7b' :: (b ++ (code.toList ++ c) ++ ['\x7d']) ++ d)

theorem inside?_eq_some {cs inner : List Char} : inside? cs = some inner ↔ cs = '\x7b' :: (inner ++ ['\x7d']) := by
  constructor
  · intro h
    unfold inside? at h
    split at h
    · rename_i rest
      split at h
      · rename_i last hlast
        obtain rfl := Option.some.inj h
        rw [← List.reverse_cons, ← hlast, List.reverse_reverse]
      · cases h
    · cases h
  · rintro rfl
    simp [inside?]

theorem dropAroundWhile_braces (inner : List Char) :
    dropAroundWhile isSpace ('\x7b' :: (inner ++ ['\x7d'])) = '\x7b' :: (inner ++ ['\x7d']) := by
  have hopen : ¬ isSpace '\x7b' = true := by decide
  have hclose : ¬ isSpace '\x7d' = true := by decide
  rw [dropAroundWhile, List.dropWhile_cons_of_neg hopen, ← List.cons_append, dropEndWhile, List.reverse_append,
    List.reverse_singleton, List.singleton_append, List.dropWhile_cons_of_neg hclose, List.reverse_cons,
    List.reverse_reverse]

/-- A reference is a text that holds its script, trimmed, between braces. -/
theorem reference?_eq_some {raw code : String} : reference? raw = some code ↔ trim code = code ∧ Wraps raw code := by
  have htrim : trim code = code ↔ dropAroundWhile isSpace code.toList = code.toList := by
    rw [trim, ← String.toList_inj, String.toList_ofList]
  rw [htrim, reference?, Option.map_eq_some_iff]
  constructor
  · rintro ⟨inner, hinner, rfl⟩
    obtain ⟨a, d, ha, hd, hraw⟩ := dropAroundWhile_split isSpace raw.toList
    obtain ⟨b, c, hb, hc, hcode⟩ := dropAroundWhile_split isSpace inner
    rw [inside?_eq_some.1 hinner] at hraw
    rw [String.toList_ofList]
    refine ⟨dropAroundWhile_idempotent _ _, a, b, c, d, List.forall_mem_append.2 ⟨ha, hd⟩,
      List.forall_mem_append.2 ⟨hb, hc⟩, ?_⟩
    rw [String.toList_ofList, ← hcode]
    exact hraw
  · rintro ⟨hcode, a, b, c, d, hout, hin, hraw⟩
    obtain ⟨ha, hd⟩ := List.forall_mem_append.1 hout
    obtain ⟨hb, hc⟩ := List.forall_mem_append.1 hin
    refine ⟨b ++ (code.toList ++ c), inside?_eq_some.2 ?_, ?_⟩
    · rw [hraw, dropAroundWhile_append ha hd, dropAroundWhile_braces]
    · rw [dropAroundWhile_append hb hc, hcode, String.ofList_toList]

/-- The script of a reference is blank only if there is nothing between the braces. -/
theorem reference_blank {raw code : String} (h : reference? raw = some code) : isBlank code = true ↔ Wraps raw "" := by
  have hwraps := reference?_eq_some.1 h
  rw [isBlank_iff_trim, hwraps.1]
  constructor
  · rintro rfl
    exact hwraps.2
  · intro hempty
    exact Option.some.inj (h.symm.trans (reference?_eq_some.2 ⟨rfl, hempty⟩))

end Script

/-! ## Scripts that are not checked -/

/-- The strings among the values of an object. -/
def stringsOf (fields : Keyed Json) : List String :=
  fields.filterMap fun (_, v) => match v with
    | .string s => some s
    | _ => none

/-- The scripts among the values of attributes. -/
def PropEntry.valueScripts : PropEntry → List String
  | attributes values => values.filterMap fun (_, v) => v.script?
  | spread _ => []

/-- The strings among the values of an entry of the props. -/
def propStrings : Json → List String
  | .object fields => stringsOf fields
  | _ => []

/-- The scripts among the values of a plain map or of a map under a condition. -/
def StyleEntry.valueScripts : StyleEntry → List String
  | plain style => Style.scripts style
  | conditional _ style => Style.scripts style
  | _ => []

/-- The strings among the values of an entry of a style that may be scripts: those of a plain
map, or of the map under a condition. -/
def styleStrings : Json → List String
  | .object fields =>
    if Keyed.has fields "format" || Keyed.has fields "selector" then []
    else if Keyed.has fields "condition" then
      match fields.lookup "style" with
      | some (.object style) => stringsOf style
      | _ => []
    else if Keyed.has fields "script" then []
    else stringsOf fields
  | _ => []

theorem mem_stringsOf {fields : Keyed Json} {raw : String} :
    raw ∈ stringsOf fields ↔ ∃ key, (key, .string raw) ∈ fields := by
  simp only [stringsOf, List.mem_filterMap]
  constructor
  · rintro ⟨⟨key, v⟩, hp, hraw⟩
    cases v with
    | string s =>
      obtain rfl := Option.some.inj hraw
      exact ⟨key, hp⟩
    | _ => cases hraw
  · rintro ⟨key, hp⟩
    exact ⟨_, hp, rfl⟩

theorem mem_scripts {fields : Keyed Json} {code : String} :
    code ∈ Style.scripts fields ↔ ∃ raw ∈ stringsOf fields, Script.reference? raw = some code := by
  simp only [Style.scripts, List.mem_flatMap, Option.mem_toList]
  constructor
  · rintro ⟨⟨key, v⟩, hp, hcode⟩
    cases v with
    | string raw =>
      refine ⟨raw, mem_stringsOf.2 ⟨key, hp⟩, ?_⟩
      rw [Value.ofJson] at hcode
      cases hr : Script.reference? raw with
      | none => simp [hr, Value.script?] at hcode
      | some found => simpa [hr, Value.script?] using hcode
    | _ => cases hcode
  · rintro ⟨raw, hraw, hcode⟩
    obtain ⟨key, hp⟩ := mem_stringsOf.1 hraw
    refine ⟨_, hp, ?_⟩
    rw [Value.ofJson, hcode]
    rfl

/-- The scripts of a map are not blank exactly if none of its strings holds nothing between
the braces. -/
theorem scripts_filled (fields : Keyed Json) :
    (∀ code ∈ Style.scripts fields, isBlank code = false) ↔ ∀ raw ∈ stringsOf fields, ¬ Script.Wraps raw "" := by
  constructor
  · intro h raw hraw hempty
    have hcode := Script.reference?_eq_some.2 ⟨rfl, hempty⟩
    exact absurd (h "" (mem_scripts.2 ⟨raw, hraw, hcode⟩)) (by decide)
  · intro h code hcode
    obtain ⟨raw, hraw, hreference⟩ := mem_scripts.1 hcode
    exact Bool.eq_false_iff.2 fun hblank => h raw hraw ((Script.reference_blank hreference).1 hblank)

namespace Load

/-! ## Entries -/

theorem attributes_scripts (fields : Keyed Json) : (attributes fields).valueScripts = Style.scripts fields := by
  rw [attributes, PropEntry.valueScripts, Style.scripts, List.filterMap_map, List.filterMap_eq_flatMap_toList]
  rfl

/-- A trimmed script from which the dots are dropped is blank only if it is the dots. -/
theorem isBlank_dropDots {code : String} (htrim : trim code = code) (hne : code ≠ "") :
    isBlank (String.ofList ((afterLead? ['.', '.', '.'] code.toList).getD code.toList)) = true ↔ code = "..." := by
  cases hlead : afterLead? ['.', '.', '.'] code.toList with
  | some rest =>
    rw [Option.getD_some, isBlank, String.toList_ofList, List.all_eq_true]
    rw [afterLead?_eq_some] at hlead
    constructor
    · -- blanks after the dots would have been trimmed
      intro hrest
      have hkept := dropAroundWhile_append (p := isSpace) (a := []) (by simp) hrest ['.', '.', '.']
      rw [List.nil_append, ← hlead] at hkept
      rw [← htrim, trim, hkept]
      rfl
    · rintro rfl
      obtain rfl : rest = [] := by simpa using hlead
      simp
  | none =>
    rw [Option.getD_none, String.ofList_toList]
    refine iff_of_false (fun hblank => ?_) ?_
    · rw [isBlank_iff_trim, htrim] at hblank
      exact hne hblank
    · rintro rfl
      cases hlead

/-- A spread is blank only if there is nothing but the dots between the braces. -/
theorem spread_blank {raw path code : String} (h : (spread raw path).value = some (.spread code)) :
    isBlank code = true ↔ Script.Wraps raw "..." := by
  unfold spread at h
  split at h
  · rename_i found hfound
    split at h
    · cases h
    · rename_i hempty
      obtain ⟨htrim, hwraps⟩ := Script.reference?_eq_some.1 hfound
      have hdots : Script.Wraps raw "..." ↔ found = "..." := by
        constructor
        · intro hdots
          exact Option.some.inj (hfound.symm.trans (Script.reference?_eq_some.2 ⟨rfl, hdots⟩))
        · rintro rfl
          exact hwraps
      simp only [Noted.value_pure, Option.some.injEq, PropEntry.spread.injEq] at h
      have hcode : code = trim (String.ofList ((afterLead? ['.', '.', '.'] found.toList).getD found.toList)) := by
        rw [← h, trim, String.toList_ofList]
      rw [hdots, hcode, isBlank_trim]
      exact isBlank_dropDots htrim (mt String.isEmpty_iff.2 hempty)
  · cases h

theorem spread_isSome {raw path : String} (h : (spread raw path).notes.problems = []) :
    ∃ code, (spread raw path).value = some (.spread code) := by
  unfold spread at h ⊢
  split at h
  · split at h
    · cases h
    · rename_i hempty
      rw [if_neg hempty]
      exact ⟨_, rfl⟩
  · cases h

theorem propEntry_spread (v : Json) (path : String) (hp : (propEntry v path).notes.problems = []) :
    (∀ e, (propEntry v path).value = some e → ∀ code, e = .spread code → isBlank code = false) ↔
      ∀ raw, v = .string raw → ¬ Script.Wraps raw "..." := by
  cases v with
  | string raw =>
    rw [propEntry] at hp ⊢
    obtain ⟨code, hcode⟩ := spread_isSome hp
    simp only [hcode, Option.some.injEq, forall_eq', PropEntry.spread.injEq, Json.string.injEq]
    rw [← spread_blank hcode, Bool.not_eq_true]
  | object fields => simp [propEntry, attributes]
  | _ => cases hp

theorem propEntry_scripts (v : Json) (path : String) (hp : (propEntry v path).notes.problems = []) :
    (∀ e, (propEntry v path).value = some e → ∀ code ∈ e.valueScripts, isBlank code = false) ↔
      ∀ raw ∈ propStrings v, ¬ Script.Wraps raw "" := by
  cases v with
  | string raw =>
    rw [propEntry] at hp ⊢
    obtain ⟨code, hcode⟩ := spread_isSome hp
    simp [hcode, PropEntry.valueScripts, propStrings]
  | object fields =>
    rw [propStrings, ← scripts_filled, ← attributes_scripts]
    simp [propEntry]
  | _ => cases hp

/-- A map under a condition is there, and so is the condition. -/
theorem conditionalEntry_value {fields : Keyed Json} {path : String}
    (h : (conditionalEntry fields path).notes.problems = []) :
    ∃ predicate style, fields.lookup "style" = some (.object style) ∧
      (conditionalEntry fields path).value = some (.conditional predicate style) := by
  unfold conditionalEntry at h ⊢
  rw [problems_bind] at h
  obtain ⟨hrequired, hrest⟩ := h
  obtain ⟨predicate, hpredicate⟩ := requiredScript_isSome hrequired
  rw [hpredicate] at hrest
  rw [Noted.value_bind, hpredicate]
  rw [problems_bind] at hrest
  have hmap := hrest.1
  unfold styleMap at hmap
  split at hmap
  · rename_i style hstyle
    refine ⟨predicate, style, hstyle, ?_⟩
    simp only [Noted.value_bind, Noted.value_pure, styleMap, hstyle, Option.map_some]
  · cases hmap

theorem staticEntry_scripts {fields : Keyed Json} {path : String} {e : StyleEntry}
    (hkeys : Keyed.has fields "format" || Keyed.has fields "selector") (h : (styleObject fields path).value = some e) :
    e.valueScripts = [] := by
  unfold styleObject at h
  split at h
  · unfold formatEntry at h
    split at h
    · obtain ⟨style, -, rfl⟩ := Option.map_eq_some_iff.1 h
      rfl
    · cases h
  · unfold selectorEntry at h
    split at h
    · obtain ⟨style, -, rfl⟩ := Option.map_eq_some_iff.1 h
      rfl
    · cases h
  · rename_i hformat hselector
    simp [Keyed.has, hformat, hselector] at hkeys

/-- An entry that names neither a format nor a selector. -/
theorem styleObject_keyless {fields : Keyed Json} (path : String)
    (hkeys : ¬ (Keyed.has fields "format" || Keyed.has fields "selector") = true) :
    styleObject fields path =
      if Keyed.has fields "condition" then conditionalEntry fields path
      else if Keyed.has fields "script" then do
        let code ← requiredScript fields "script" path .style "dynamic style"
        pure (code.map .dynamic)
      else pure (some (.plain fields)) := by
  simp only [Keyed.has, Bool.or_eq_true, Option.isSome_iff_ne_none, not_or, not_not] at hkeys
  unfold styleObject
  rw [hkeys.1, hkeys.2]

theorem styleEntry_scripts (v : Json) (path : String) (hp : (styleEntry v path).notes.problems = []) :
    (∀ e, (styleEntry v path).value = some e → ∀ code ∈ e.valueScripts, isBlank code = false) ↔
      ∀ raw ∈ styleStrings v, ¬ Script.Wraps raw "" := by
  cases v with
  | string text =>
    refine iff_of_true (fun e he code hcode => ?_) (by simp [styleStrings])
    unfold styleEntry at he
    dsimp only at he
    split at he
    · split at he
      · split at he
        · cases he
        · cases he
          cases hcode
      · cases he
    · cases he
      cases hcode
  | object fields =>
    rw [styleEntry] at hp ⊢
    rw [styleStrings]
    by_cases hkeys : Keyed.has fields "format" || Keyed.has fields "selector"
    · rw [if_pos hkeys]
      refine iff_of_true (fun e he code hcode => ?_) (by simp)
      rw [staticEntry_scripts hkeys he] at hcode
      cases hcode
    · rw [if_neg hkeys]
      rw [styleObject_keyless path hkeys] at hp ⊢
      by_cases hcondition : Keyed.has fields "condition"
      · rw [if_pos hcondition] at hp ⊢
        rw [if_pos hcondition]
        obtain ⟨predicate, style, hstyle, hvalue⟩ := conditionalEntry_value hp
        rw [hvalue, hstyle, ← scripts_filled]
        simp [StyleEntry.valueScripts]
      · rw [if_neg hcondition] at hp ⊢
        rw [if_neg hcondition]
        by_cases hscript : Keyed.has fields "script"
        · rw [if_pos hscript, if_pos hscript]
          refine iff_of_true (fun e he code hcode => ?_) (by simp)
          obtain ⟨found, -, rfl⟩ := Option.map_eq_some_iff.1 he
          cases hcode
        · rw [if_neg hscript, if_neg hscript, ← scripts_filled]
          simp [StyleEntry.valueScripts]
  | _ => cases hp

/-- What can be said of an entry of the props as well as of its value. Definitions have no
entries: their props are a pattern. -/
theorem app_props_iff {document : Json} {app : App} (h : Load.app document = .ok app) {P : PropEntry → Prop}
    {Q : Json → Prop}
    (hload : ∀ v path, (propEntry v path).notes.problems = [] →
      ((∀ e, (propEntry v path).value = some e → P e) ↔ Q v)) :
    (∀ n ∈ app.nodes, ∀ e ∈ n.head.props, P e) ↔
      ∀ o, NodeObject document false o → ∀ v ∈ fieldEntries (o.lookup "props"), Q v := by
  rw [app_nodes_iff_objects h (Q := fun d o => ∀ v ∈ if d then [] else fieldEntries (o.lookup "props"), Q v)
    fun hloaded => hloaded.props.forall_iff hload]
  constructor
  · exact fun hall o ho => hall false o ho
  · rintro hall (_ | _) o ho
    · exact hall o ho
    · simp

/-- Every node of a loaded app is well formed. -/
theorem app_nodes_wellFormed {document : Json} {app : App} (h : Load.app document = .ok app) :
    ∀ n ∈ app.nodes, n.WellFormed app.styleFormats := by
  obtain ⟨fields, items, -, -, hparts, happ, hformats, -⟩ := app_eq_ok h
  intro n hn
  obtain ⟨c, hc, hn⟩ := List.mem_flatMap.1 hn
  rw [happ] at hc
  exact componentItems_forall (built_wellFormed _) items 0 ⟨hparts, (known_of_unknownFormats hformats).right⟩ c hc n hn

end Load

/-! ## Loaded apps -/

/-- In a loaded app no script that is a child or a style of its own is blank. A spread is
blank exactly if its text holds nothing but the dots between the braces, and a script that is
the value of an attribute or of a plain or conditional style map exactly if its text holds
nothing there; so there is none in the app exactly if there is no such text in the objects
that its nodes are loaded from. -/
theorem load_references {document : Json} {app : App} (h : Load.app document = .ok app) :
    (∀ n ∈ app.nodes, (∀ code, .script code ∈ n.children ++ n.fallback → isBlank code = false) ∧
      ∀ code, .dynamic code ∈ n.head.style → isBlank code = false) ∧
    ((∀ n ∈ app.nodes, ∀ code, .spread code ∈ n.head.props → isBlank code = false) ↔
      ∀ o, NodeObject document false o → ∀ raw, .string raw ∈ fieldEntries (o.lookup "props") →
        ¬ Script.Wraps raw "...") ∧
    ((∀ n ∈ app.nodes, ∀ e ∈ n.head.props, ∀ code ∈ e.valueScripts, isBlank code = false) ↔
      ∀ o, NodeObject document false o → ∀ v ∈ fieldEntries (o.lookup "props"), ∀ raw ∈ propStrings v,
        ¬ Script.Wraps raw "") ∧
    ((∀ n ∈ app.nodes, ∀ e ∈ n.head.style, ∀ code ∈ e.valueScripts, isBlank code = false) ↔
      ∀ isDefinition o, NodeObject document isDefinition o → ∀ v ∈ fieldEntries (o.lookup "style"),
        ∀ raw ∈ styleStrings v, ¬ Script.Wraps raw "") := by
  refine ⟨fun n hn => ?_, ?_, ?_, ?_⟩
  · have hwell := Load.app_nodes_wellFormed h n hn
    exact ⟨hwell.scripts, fun code hcode => hwell.head.style _ hcode⟩
  · have hspreads := Load.app_props_iff h Load.propEntry_spread
    constructor
    · exact fun hall o ho raw hraw =>
        hspreads.1 (fun n hn e he code hcode => hall n hn code (hcode ▸ he)) o ho _ hraw raw rfl
    · exact fun hall n hn code hcode =>
        hspreads.2 (fun o ho v hv raw hraw => hall o ho raw (hraw ▸ hv)) n hn _ hcode code rfl
  · exact Load.app_props_iff h Load.propEntry_scripts
  · exact Load.app_nodes_iff_objects h fun hloaded => hloaded.style.forall_iff Load.styleEntry_scripts

/-- A component with one element, which has these props and this style. -/
def oneElement (props style : Json) : Json :=
  .object [("components", .array [.object [("name", .string "App"), ("children", .object
    [("type", .string "div"), ("props", props), ("style", style)])]])]

theorem load_references_blankSpread :
    let document := oneElement (.array [.string "\x7b ... \x7d", .object [("id", .string "\x7b id \x7d")]])
      (.object [("color", .string "\x7b ink \x7d")])
    (∃ o, NodeObject document false o ∧ ∃ raw, .string raw ∈ fieldEntries (o.lookup "props") ∧
        Script.Wraps raw "...") ∧
      ∀ isDefinition o, NodeObject document isDefinition o → ∀ v ∈ fieldEntries (o.lookup "style"),
        ∀ raw ∈ styleStrings v, ¬ Script.Wraps raw "" := by
  intro document
  have hspread : ((Load.app document).toOption.any fun app => app.nodes.any fun n =>
      n.head.props.any fun e => e.same (.spread "")) = true := by decide +kernel
  have hstyle : ((Load.app document).toOption.all fun app => app.nodes.all fun n =>
      (n.head.style.flatMap StyleEntry.valueScripts).all fun code => !isBlank code) = true := by decide +kernel
  cases hload : Load.app document with
  | error problems => simp [hload, Except.toOption] at hspread
  | ok app =>
    obtain ⟨-, hspreads, -, hstyles⟩ := load_references hload
    simp only [hload, Except.toOption, Option.any_some, Option.all_some, List.any_eq_true, List.all_eq_true] at hspread hstyle
    constructor
    · obtain ⟨n, hn, e, he, hsame⟩ := hspread
      obtain rfl : e = .spread "" := by
        cases e with
        | attributes values => cases hsame
        | spread code => rw [eq_of_beq hsame]
      -- without such an object no spread of the app would be blank
      by_contra hnone
      have hall := hspreads.2 fun o ho raw hraw hwraps => hnone ⟨o, ho, raw, hraw, hwraps⟩
      exact absurd (hall n hn "" he) (by decide)
    · refine hstyles.1 fun n hn e he code hcode => ?_
      simpa using hstyle n hn code (List.mem_flatMap.2 ⟨e, he, hcode⟩)

/-- Empty references between the braces of a tag. -/
theorem empty_references_emitted :
    ((compile (oneElement (.array [.string "\x7b...\x7d", .object [("id", .string "\x7b\x7d")]])
      (.object [("color", .string "\x7b \x7d")])) {}).toOption.bind fun output => output.files[0]?.map (·.contents)) =
      some ("import '../styles/global.css';\nimport '../styles/app.scss';\n\nexport default function App() \x7b\n" ++
        "  return <div \x7b...\x7d id=\x7b\x7d style=\x7b\x7b color:  \x7d\x7d />;\n\x7d\n") := by
  decide +kernel

end ViewTree
