import ViewTree.Proofs.Import.Triples
import ViewTree.Style.Resolved

/-!
# Merging styles at run time

The fragments of a style are merged into one ordered map when the program runs: a later
key wins, and it keeps the place in which it came first. What a fragment adds depends on
the conditions that hold, on the formats that the screen satisfies and on what scripts give
(`Valuation`).

Neighbouring plain maps become one fragment while a style is resolved, also across entries
that are no fragments. Merging does not show that: whatever the valuation, it gives what the
entries of the style give one by one in declaration order (`Style.resolve_merges`). The
reason is `Keyed.putAll_assoc`, which needs that the maps hold no key twice, as maps that are
read from an object do. What is no fragment is a rule of the node's class block on the web.
-/

namespace ViewTree

/-! ## Ordered maps -/

namespace Keyed

variable {α β : Type}

theorem put_put (m : Keyed α) (key : String) (v w : α) : (m.put key v).put key w = m.put key w := by
  induction m with
  | nil => simp [put]
  | cons q m ih =>
    by_cases hq : q.1 = key
    · simp [put, hq]
    · simp [put, hq, ih]

/-- Setting a key that is there commutes with setting another one. -/
theorem put_comm {m : Keyed α} {j k : String} (hne : j ≠ k) (hk : k ∈ m.map Prod.fst) (v w : α) :
    (m.put j v).put k w = (m.put k w).put j v := by
  induction m with
  | nil => simp at hk
  | cons q m ih =>
    obtain ⟨a, u⟩ := q
    by_cases haj : a = j
    · simp [put, haj, hne]
    · by_cases hak : a = k
      · simp [put, hak, hne.symm]
      · have hm : k ∈ m.map Prod.fst := by simpa [Ne.symm hak] using hk
        simp [put, haj, hak, ih hm]

@[simp]
theorem putAll_nil (m : Keyed α) : m.putAll [] = m := rfl

@[simp]
theorem putAll_cons (m : Keyed α) (p : String × α) (more : Keyed α) :
    m.putAll (p :: more) = (m.put p.1 p.2).putAll more := rfl

/-- A key that is there can be set before the pairs of a map without that key. -/
theorem put_putAll {base more : Keyed α} {k : String} (hk : k ∈ base.map Prod.fst) (hmore : k ∉ more.map Prod.fst)
    (w : α) : (base.putAll more).put k w = (base.put k w).putAll more := by
  induction more generalizing base with
  | nil => rfl
  | cons p more ih =>
    simp only [List.map_cons, List.mem_cons, not_or] at hmore
    have hbase : k ∈ (base.put p.1 p.2).map Prod.fst := (keys_put base p.1 k p.2).2 (.inr hk)
    rw [putAll_cons, putAll_cons, ih hbase hmore.2, put_comm (Ne.symm hmore.1) hk]

/-- Putting a map with one more key is putting the map and then the key. -/
theorem putAll_put {more : Keyed α} (h : (more.map Prod.fst).Nodup) (base : Keyed α) (k : String) (w : α) :
    base.putAll (more.put k w) = (base.putAll more).put k w := by
  induction more generalizing base with
  | nil => rfl
  | cons p more ih =>
    obtain ⟨a, v⟩ := p
    rw [List.map_cons, List.nodup_cons] at h
    by_cases hak : a = k
    · -- the key keeps its place, so the rest of the map does not come in between
      subst hak
      have hthere : a ∈ (base.put a v).map Prod.fst := (keys_put base a a v).2 (.inl rfl)
      simp only [put, if_true, putAll_cons, put_putAll hthere h.1, put_put]
    · simp only [put, if_neg hak, putAll_cons, ih h.2]

theorem keys_putAll_nodup {base : Keyed α} (h : (base.map Prod.fst).Nodup) (more : Keyed α) :
    ((base.putAll more).map Prod.fst).Nodup := by
  induction more generalizing base with
  | nil => exact h
  | cons p more ih => exact ih (keys_put_nodup h p.1 p.2)

/-- Putting two maps one after the other is putting the second one into the first. -/
theorem putAll_assoc {last : Keyed α} (h : (last.map Prod.fst).Nodup) (base more : Keyed α) :
    base.putAll (last.putAll more) = (base.putAll last).putAll more := by
  induction more generalizing last with
  | nil => rfl
  | cons p more ih => rw [putAll_cons, putAll_cons, ih (keys_put_nodup h p.1 p.2), putAll_put h]

/-- The map with other values. -/
def mapValues (f : α → β) (m : Keyed α) : Keyed β := m.map fun p => (p.1, f p.2)

theorem keys_mapValues (f : α → β) (m : Keyed α) : (mapValues f m).map Prod.fst = m.map Prod.fst := by
  simp [mapValues]

theorem mapValues_put (f : α → β) (m : Keyed α) (k : String) (v : α) :
    mapValues f (m.put k v) = (mapValues f m).put k (f v) := by
  induction m with
  | nil => rfl
  | cons q m ih =>
    unfold mapValues at ih ⊢
    by_cases hq : q.1 = k
    · simp [put, hq]
    · simp [put, hq, ih]

theorem mapValues_putAll (f : α → β) (m more : Keyed α) :
    mapValues f (m.putAll more) = (mapValues f m).putAll (mapValues f more) := by
  induction more generalizing m with
  | nil => rfl
  | cons p more ih =>
    rw [putAll_cons, ih, mapValues_put]
    rfl

end Keyed

/-! ## What a style stands for -/

/-- What the parts of a style stand for while a program runs: the conditions that hold, the
formats that the screen satisfies, the values of properties, and the maps that scripts
give. -/
structure Valuation (V : Type) where
  holds : String → Bool
  /-- Whether the screen satisfies a format of this name and predicate. -/
  fits : String → Predicate → Bool
  value : Json → V
  script : String → Keyed V

namespace Valuation

variable {V : Type} (ρ : Valuation V)

/-- A style map with its values. -/
def style (style : StyleMap) : Keyed V := Keyed.mapValues ρ.value style

/-- What a fragment adds to the style. -/
def fragment : Fragment → Keyed V
  | .object style => ρ.style style
  | .conditional predicate style => if ρ.holds predicate then ρ.style style else []
  | .guarded format predicate style => if ρ.fits format predicate then ρ.style style else []
  | .dynamic code => ρ.script code

/-- The style that fragments are merged into, from left to right. -/
def merge (fragments : List Fragment) : Keyed V := (fragments.map ρ.fragment).foldl Keyed.putAll []

/-- What an entry adds to the style on a platform, if it is left to run time there: a format
is a guard on the cross-platform target and a rule on the web, and selectors and sheet text
are never left to run time. -/
def entry? (platform : Platform) (formats : Keyed Predicate) : StyleEntry → Option (Keyed V)
  | .plain style => some (ρ.style style)
  | .conditional predicate style => some (if ρ.holds predicate then ρ.style style else [])
  | .dynamic code => some (ρ.script code)
  | .format format style =>
    match platform with
    | .web => none
    | .crossPlatform =>
      (formats.lookup format).map fun predicate => if ρ.fits format predicate then ρ.style style else []
  | .selector _ _ => none
  | .text _ => none

end Valuation

/-- The rule that an entry is in a stylesheet on a platform. Only the web has stylesheet
rules. -/
def StyleEntry.rule? (platform : Platform) (formats : Keyed Predicate) : StyleEntry → Option String
  | .format name style =>
    match platform with
    | .web => (formats.lookup name).map fun predicate => Style.block ("@media " ++ Style.mediaQuery predicate) style
    | .crossPlatform => none
  | .selector name style =>
    match platform with
    | .web => some (Style.block name style)
    | .crossPlatform => none
  | .text sheet =>
    match platform with
    | .web => some (Text.trim sheet)
    | .crossPlatform => none
  | .plain _ => none
  | .conditional _ _ => none
  | .dynamic _ => none

namespace Style

section
variable {V : Type} (ρ : Valuation V) (platform : Platform) (formats : Keyed Predicate)

/-! ## One entry -/

/-- What adding an entry does: a plain map is pushed, and any other entry is appended as a
fragment or as a rule, or it is dropped. -/
theorem addEntry_cases (parts : Parts) (e : StyleEntry) :
    (∃ style, e = .plain style ∧
        addEntry platform formats parts e = { parts with runtime := pushObject style parts.runtime }) ∨
      (∃ f, (∀ style, f ≠ .object style) ∧ ρ.entry? platform formats e = some (ρ.fragment f) ∧
        e.rule? platform formats = none ∧
        addEntry platform formats parts e = { parts with runtime := parts.runtime ++ [f] }) ∨
      (∃ rule, ρ.entry? platform formats e = none ∧ e.rule? platform formats = some rule ∧
        addEntry platform formats parts e = { parts with rules := parts.rules ++ [rule] }) ∨
      (ρ.entry? platform formats e = none ∧ e.rule? platform formats = none ∧
        addEntry platform formats parts e = parts) := by
  cases e with
  | plain style => exact .inl ⟨style, rfl, rfl⟩
  | conditional predicate style => exact .inr (.inl ⟨.conditional predicate style, by simp, rfl, rfl, rfl⟩)
  | dynamic code => exact .inr (.inl ⟨.dynamic code, by simp, rfl, rfl, rfl⟩)
  | format name style =>
    cases hf : formats.lookup name with
    | none =>
      -- a format that nobody declared is dropped on both platforms
      refine .inr (.inr (.inr ?_))
      cases platform <;> simp [Valuation.entry?, StyleEntry.rule?, addEntry, project, Parts.add, hf]
    | some predicate =>
      cases platform with
      | web =>
        refine .inr (.inr (.inl ⟨block ("@media " ++ mediaQuery predicate) style, rfl, ?_, ?_⟩))
        · simp [StyleEntry.rule?, hf]
        · simp [addEntry, project, Platform.formatEntry, Parts.add, hf]
      | crossPlatform =>
        refine .inr (.inl ⟨.guarded name predicate style, by simp, ?_, rfl, ?_⟩)
        · simp [Valuation.entry?, Valuation.fragment, hf]
        · simp [addEntry, project, Platform.formatEntry, Parts.add, hf]
  | selector name style =>
    cases platform with
    | web => exact .inr (.inr (.inl ⟨block name style, rfl, rfl, rfl⟩))
    | crossPlatform => exact .inr (.inr (.inr ⟨rfl, rfl, rfl⟩))
  | text sheet =>
    cases platform with
    | web => exact .inr (.inr (.inl ⟨Text.trim sheet, rfl, rfl, rfl⟩))
    | crossPlatform => exact .inr (.inr (.inr ⟨rfl, rfl, rfl⟩))

/-- The plain maps among the fragments hold no key twice. -/
def PlainDistinct (fragments : List Fragment) : Prop :=
  ∀ style, .object style ∈ fragments → (style.map Prod.fst).Nodup

theorem pushObject_distinct {fragments : List Fragment} (h : PlainDistinct fragments) {style : StyleMap}
    (hs : (style.map Prod.fst).Nodup) : PlainDistinct (pushObject style fragments) := by
  fun_induction pushObject style fragments with
  | case1 => simpa [PlainDistinct] using hs
  | case2 last =>
    have hlast := h last List.mem_cons_self
    simpa [PlainDistinct] using Keyed.keys_putAll_nodup hlast style
  | case3 f rest _ ih =>
    have hrest := ih fun style' hs => h style' (List.mem_cons_of_mem _ hs)
    intro style' hmem
    rcases List.mem_cons.1 hmem with rfl | hmem
    · exact h style' List.mem_cons_self
    · exact hrest style' hmem

/-- A plain map is merged after what is there, whether or not it joins the last fragment. -/
theorem foldl_pushObject {fragments : List Fragment} (h : PlainDistinct fragments) (style : StyleMap) (m : Keyed V) :
    ((pushObject style fragments).map ρ.fragment).foldl Keyed.putAll m =
      ((fragments.map ρ.fragment).foldl Keyed.putAll m).putAll (ρ.style style) := by
  fun_induction pushObject style fragments generalizing m with
  | case1 => rfl
  | case2 last =>
    have hlast : ((ρ.style last).map Prod.fst).Nodup := by
      rw [Valuation.style, Keyed.keys_mapValues]
      exact h last List.mem_cons_self
    have hjoined : ρ.style (last.putAll style) = (ρ.style last).putAll (ρ.style style) :=
      Keyed.mapValues_putAll ρ.value last style
    calc m.putAll (ρ.style (last.putAll style))
        = m.putAll ((ρ.style last).putAll (ρ.style style)) := by rw [hjoined]
      _ = (m.putAll (ρ.style last)).putAll (ρ.style style) := Keyed.putAll_assoc hlast m _
  | case3 f rest _ ih =>
    rw [List.map_cons, List.map_cons, List.foldl_cons, List.foldl_cons]
    exact ih (fun style' hs => h style' (List.mem_cons_of_mem _ hs)) _

/-! ## Lists of entries -/

/-- The parts are those of the entries: merged, they give what the entries give one by one,
and the rules are those of the entries. -/
structure Represents (entries : List StyleEntry) (parts : Parts) : Prop where
  distinct : PlainDistinct parts.runtime
  merge : ρ.merge parts.runtime = (entries.filterMap (ρ.entry? platform formats)).foldl Keyed.putAll []
  rules : parts.rules = entries.filterMap (StyleEntry.rule? platform formats)

variable {ρ platform formats}

theorem Represents.addEntry {entries : List StyleEntry} {parts : Parts}
    (h : Represents ρ platform formats entries parts) {e : StyleEntry}
    (he : ∀ style, e = .plain style → (style.map Prod.fst).Nodup) :
    Represents ρ platform formats (entries ++ [e]) (addEntry platform formats parts e) := by
  obtain ⟨style, rfl, hadd⟩ | ⟨f, hf, hentry, hrule, hadd⟩ | ⟨rule, hentry, hrule, hadd⟩ | ⟨hentry, hrule, hadd⟩ :=
    addEntry_cases ρ platform formats parts e
  · rw [hadd]
    refine ⟨pushObject_distinct h.distinct (he style rfl), ?_, ?_⟩
    · rw [Valuation.merge, foldl_pushObject ρ h.distinct, ← Valuation.merge, h.merge]
      simp [Valuation.entry?]
    · simp [h.rules, StyleEntry.rule?]
  · rw [hadd]
    refine ⟨fun style hmem => ?_, ?_, ?_⟩
    · rcases List.mem_append.1 hmem with hmem | hmem
      · exact h.distinct style hmem
      · exact absurd (List.mem_singleton.1 hmem).symm (hf style)
    · have hmerge := h.merge
      unfold Valuation.merge at hmerge ⊢
      simp [hentry, hmerge]
    · simp [h.rules, hrule]
  · rw [hadd]
    refine ⟨h.distinct, ?_, ?_⟩
    · simp [h.merge, hentry]
    · simp [h.rules, hrule]
  · rw [hadd]
    refine ⟨h.distinct, ?_, ?_⟩
    · simp [h.merge, hentry]
    · simp [h.rules, hrule]

theorem Represents.foldl {done entries : List StyleEntry} {parts : Parts}
    (h : Represents ρ platform formats done parts) (he : ∀ style, .plain style ∈ entries → (style.map Prod.fst).Nodup) :
    Represents ρ platform formats (done ++ entries) (entries.foldl (Style.addEntry platform formats) parts) := by
  induction entries generalizing done parts with
  | nil => simpa using h
  | cons e entries ih =>
    have hnext := h.addEntry (e := e) fun style hs => he style (hs ▸ List.mem_cons_self)
    have hall := ih hnext fun style hs => he style (List.mem_cons_of_mem _ hs)
    rwa [List.append_assoc, List.singleton_append] at hall

variable (ρ platform formats)

theorem split_represents {entries : List StyleEntry}
    (h : ∀ style, .plain style ∈ entries → (style.map Prod.fst).Nodup) :
    Represents ρ platform formats entries (split platform formats entries) := by
  have hstart : Represents ρ platform formats [] {} := ⟨by simp [PlainDistinct], rfl, rfl⟩
  exact hstart.foldl h

/-- Merging the fragments of a node's style gives the ordered map that its entries give one
by one in declaration order, as far as the platform leaves them to run time. The block of
its class holds the rules of the other entries in declaration order, and there is none on
the cross-platform target. -/
theorem resolve_merges (naming : Naming) {head : Head}
    (h : ∀ style, .plain style ∈ head.style → (style.map Prod.fst).Nodup) :
    ρ.merge (resolve platform formats naming head).runtime =
        (head.style.filterMap (ρ.entry? platform formats)).foldl Keyed.putAll [] ∧
      (resolve platform formats naming head).css =
        if head.style.filterMap (StyleEntry.rule? platform formats) = [] then none
        else (naming.classOf head).map fun c =>
          classBlock c (head.style.filterMap (StyleEntry.rule? platform formats)) := by
  have hparts := split_represents ρ platform formats h
  refine ⟨hparts.merge, ?_⟩
  simp only [resolve, hparts.rules, List.isEmpty_iff]
  split
  · rfl
  · rfl

end

/-- Plain maps that share a key, with a selector and a format between them, and entries that
are left to run time on every platform. -/
def interleavedStyles : Head :=
  { kind := .element "View", path := "components[0]", position := [0]
    style :=
      [.plain [("flex", .string "1"), ("gap", .string "2px")],
        .selector ":hover" [("color", .string "red")],
        .plain [("gap", .string "3px"), ("top", .string "0")],
        .format "tall" [("flex", .string "2")],
        .conditional "open" [("left", .string "1px")],
        .dynamic "rest",
        .plain [("flex", .string "4")]] }

/-- A tall screen, where no condition holds and `rest` sets two properties. -/
def tallScreen : Valuation String where
  holds _ := false
  fits name _ := name == "tall"
  value := Json.asCode
  script _ := [("left", "5px"), ("gap", "6px")]

theorem resolve_merges_interleaved :
    (∀ style, .plain style ∈ interleavedStyles.style → (style.map Prod.fst).Nodup) ∧
    (resolve .crossPlatform [("tall", { orientation := some .portrait })] {} interleavedStyles).runtime.length = 5 ∧
    tallScreen.merge
        (resolve .crossPlatform [("tall", { orientation := some .portrait })] {} interleavedStyles).runtime =
      [("flex", "4"), ("gap", "6px"), ("top", "0"), ("left", "5px")] ∧
    (resolve .web [("tall", { orientation := some .portrait })] { classes := [([0], "view")] } interleavedStyles).css =
      some (".view \x7b\n  :hover \x7b\n    color: red !important;\n  \x7d\n" ++
        "  @media (orientation: portrait) \x7b\n    flex: 2 !important;\n  \x7d\n\x7d\n") := by
  have h : ∀ style, .plain style ∈ interleavedStyles.style → (style.map Prod.fst).Nodup := by
    simp [interleavedStyles]
  refine ⟨h, by decide, ?_, ?_⟩
  · rw [(resolve_merges tallScreen .crossPlatform _ _ h).1]
    decide
  · rw [(resolve_merges tallScreen .web _ _ h).2]
    decide

end Style

end ViewTree
