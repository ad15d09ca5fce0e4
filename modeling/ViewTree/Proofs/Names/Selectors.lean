import ViewTree.Proofs.Names.Classes
import ViewTree.Proofs.Names.Stems

/-!
# Classes as selectors

In a stylesheet a class stands after a period, and it has to be an identifier there: it
starts with a letter, or with a hyphen and a letter. A class starts with the first letter
or digit that its stem keeps of a name (`Text.head?_toKebab`), and what comes before that
is dropped, the underscore that guards an identifier against a digit included. So the
class is a selector exactly if that character is no digit (`Names.resolve_selectors`).
-/

namespace ViewTree

namespace Text

/-- Whether a class name is an identifier of stylesheets: it starts with a letter, or with
a hyphen and a letter. -/
def isSelectorName (s : String) : Bool :=
  isClassName s &&
    match s.toList with
    | '-' :: c :: _ => isLower c
    | c :: _ => isLower c
    | [] => false

/-- The first character that a class stem keeps of a name. -/
def firstStem (name : String) : Option Char := (name.toList.flatMap lowerStem).find? isStemChar

/-! ## The first character of a stem -/

/-- The hyphens inside a name are none of the characters that a stem keeps. -/
theorem find?_splitCamel (cs : List Char) :
    ((splitCamel cs).flatMap lowerStem).find? isStemChar = (cs.flatMap lowerStem).find? isStemChar := by
  fun_induction splitCamel cs with
  | case1 => rfl
  | case2 c => rfl
  | case3 c d rest _ ih =>
    have hhyphen : (lowerStem '-').find? isStemChar = none := by decide
    rw [List.flatMap_cons, List.find?_append, List.flatMap_cons, List.find?_append, hhyphen, Option.none_or, ih,
      ← List.find?_append, ← List.flatMap_cons]
  | case4 c d rest _ ih =>
    rw [List.flatMap_cons, List.find?_append, ih, ← List.find?_append, ← List.flatMap_cons]

/-- Behind the marks at its start, a collapsed text starts with the first character kept. -/
theorem head?_dropWhile_collapse {keep : Char → Bool} {mark : Char} (hmark : keep mark = false) (inRun : Bool)
    (cs : List Char) : ((collapse keep mark inRun cs).dropWhile (· == mark)).head? = cs.find? keep := by
  rw [dropWhile_collapse hmark]
  induction cs with
  | nil => rfl
  | cons c cs ih =>
    cases hc : keep c with
    | true => simp [collapse, hc]
    | false => simpa [collapse, hc] using ih

/-- What is dropped at the end leaves the start as it is. -/
theorem head?_dropAroundWhile (p : Char → Bool) (cs : List Char) :
    (dropAroundWhile p cs).head? = (cs.dropWhile p).head? := by
  have hprefix : dropAroundWhile p cs <+: cs.dropWhile p := List.rdropWhile_prefix p _
  cases hd : dropAroundWhile p cs with
  | cons c rest =>
    rw [hd] at hprefix
    obtain ⟨back, hback⟩ := hprefix
    rw [← hback]
    rfl
  | nil =>
    cases hw : cs.dropWhile p with
    | nil => rfl
    | cons c rest =>
      have hall := List.rdropWhile_eq_nil_iff.1 (show (cs.dropWhile p).rdropWhile p = [] from hd)
      have hc := hall c (by rw [hw]; exact List.mem_cons_self)
      have := List.head_dropWhile_not p (l := cs) (by rw [hw]; exact List.cons_ne_nil c rest)
      simp [hw, hc] at this

/-- A stem starts with the first character that it keeps; `node` stands for a name of which
it keeps none. -/
theorem head?_toKebab (name : String) : (toKebab name).toList.head? = some ((firstStem name).getD 'n') := by
  have hfirst : (dropAroundWhile (· == '-') (collapse isStemChar '-' false
      ((splitCamel name.toList).flatMap lowerStem))).head? = firstStem name := by
    rw [head?_dropAroundWhile, head?_dropWhile_collapse (by decide), find?_splitCamel, firstStem]
  unfold toKebab
  dsimp only
  split
  · rename_i hnil
    rw [hnil] at hfirst
    rw [← hfirst]
    rfl
  · rename_i c cs hcons
    rw [hcons] at hfirst
    rw [← hfirst, String.toList_ofList]
    rfl

theorem isDigit_of_isLower {c : Char} (h : isLower c = true) : isDigit c = false := by
  simp only [isLower, Bool.and_eq_true, decide_eq_true_eq, Char.le_def, UInt32.le_iff_toNat_le] at h
  simp only [isDigit, Bool.and_eq_false_iff, decide_eq_false_iff_not, Char.le_def, UInt32.le_iff_toNat_le]
  have hlower : 97 ≤ c.val.toNat := h.1
  exact .inr fun hdigit => absurd (show c.val.toNat ≤ 57 from hdigit) (by omega)

/-- A class name that starts with a letter or a digit is a selector exactly if that is no
digit. -/
theorem isSelectorName_eq {s : String} (hname : isClassName s = true) {c : Char} (hhead : s.toList.head? = some c)
    (hc : isStemChar c = true) : isSelectorName s = !isDigit c := by
  obtain ⟨cs, hcs⟩ := List.head?_eq_some_iff.1 hhead
  have hlower : isSelectorName s = isLower c := by
    unfold isSelectorName
    rw [hname, Bool.true_and, hcs]
    split
    next heq =>
      -- a hyphen is no character of a stem
      obtain ⟨rfl, -⟩ := List.cons.inj heq
      cases hc
    next heq => rw [(List.cons.inj heq).1]
    next heq => cases heq
  rw [hlower]
  cases hc' : isLower c with
  | true => rw [isDigit_of_isLower hc']; rfl
  | false =>
    rw [isStemChar, hc', Bool.false_or] at hc
    rw [hc]
    rfl

end Text

namespace Names

/-- The name that the class of a node is made from: its own in the document, unless it is
a definition, or that of the definition passed last. -/
def stemSource (head : Head) (owner : String) : String :=
  if head.isDefinition then owner else head.name.getD owner

theorem classStem_eq (head : Head) (owner : String) : classStem head owner = Text.toKebab (stemSource head owner) := by
  unfold classStem stemSource
  cases head.isDefinition with
  | true => cases head.name <;> rfl
  | false => cases head.name <;> rfl

variable {document : Json} {app : App} (hload : Load.app document = .ok app) {table : NameTable}
  (hnames : (resolve app {}).outcome = .ok table)

include hload hnames

/-- A class is made of lower-case letters, digits and hyphens, and it starts with a letter
or a digit: with the first one that is kept of the name that it is made from. It is a
selector exactly if that is no digit. -/
theorem resolve_selectors {before after : List Node} {n : Node} (hsplit : app.nodes = before ++ n :: after)
    {k : String} (hclass : (resolve app {}).naming.classOf n.head = some k) :
    ∃ e owner c, lastDefinition (before ++ [n]) = some e ∧ (resolve app {}).naming.nameOf e.head = some owner ∧
      c = (Text.firstStem (stemSource n.head owner)).getD 'n' ∧
      Text.isClassName k = true ∧ k.toList.head? = some c ∧ Text.isStemChar c = true ∧
      Text.isSelectorName k = !Text.isDigit c := by
  have hn : n ∈ app.nodes := by
    rw [hsplit]
    exact List.mem_append_right _ List.mem_cons_self
  have hstatic : n.head.hasStaticStyle = true := by rw [← classOf_isSome hload hnames hn, hclass]; rfl
  obtain ⟨e, hlast⟩ := App.exists_lastDefinition hload hsplit
  obtain ⟨owner, suffix, howner, -, hgiven⟩ := resolve_classOf hload hnames hsplit hlast hstatic
  rw [hclass, Option.some.injEq, classStem_eq] at hgiven
  have hname : Text.isClassName k = true := resolve_isClassName hnames hclass
  have hhead : k.toList.head? = some ((Text.firstStem (stemSource n.head owner)).getD 'n') := by
    rw [hgiven, String.toList_append, String.toList_append, String.toList_append, List.append_assoc, List.append_assoc,
      List.head?_append, Text.head?_toKebab, Option.some_or]
  have hstem : Text.isStemChar ((Text.firstStem (stemSource n.head owner)).getD 'n') = true := by
    unfold Text.firstStem
    cases hfirst : List.find? Text.isStemChar ((stemSource n.head owner).toList.flatMap Text.lowerStem) with
    | none => decide
    | some c => exact List.find?_some hfirst
  exact ⟨e, owner, _, hlast, howner, rfl, hname, hhead, hstem, Text.isSelectorName_eq hname hhead hstem⟩

omit hload hnames

/-- A paragraph and a component with names that start with a digit. -/
def digitNames : Json :=
  .object [("components", .array
    [.object [("name", .string "App"), ("style", .string "color: red"), ("children", .array
      [.object [("type", .string "p"), ("name", .string "2nd Title"), ("style", .string "color: red")]])],
      .object [("name", .string "3d"), ("style", .string "color: red")]])]

theorem resolve_selectors_digitNames :
    ∃ app table before after n k c, Load.app digitNames = .ok app ∧ (resolve app {}).outcome = .ok table ∧
      app.nodes = before ++ n :: after ∧ (resolve app {}).naming.classOf n.head = some k ∧
      Text.isClassName k = true ∧ k.toList.head? = some c ∧ Text.isSelectorName k = !Text.isDigit c := by
  have hgiven : ((Load.app digitNames).toOption.bind fun app => (resolve app {}).outcome.toOption.bind fun _ =>
      app.nodes[0]?.bind fun n => (resolve app {}).naming.classOf n.head) = some "app-62a3f0" := by
    decide +kernel
  obtain ⟨app, happ, hgiven⟩ := Option.bind_eq_some_iff.1 hgiven
  obtain ⟨table, htable, hgiven⟩ := Option.bind_eq_some_iff.1 hgiven
  obtain ⟨n, hn, hclass⟩ := Option.bind_eq_some_iff.1 hgiven
  obtain ⟨before, after, hsplit⟩ := List.append_of_mem (List.mem_of_getElem? hn)
  have hload := eq_ok_of_toOption happ
  have hnames := eq_ok_of_toOption htable
  obtain ⟨-, -, c, -, -, -, hname, hhead, -, hselector⟩ := resolve_selectors hload hnames hsplit hclass
  exact ⟨app, table, before, after, n, _, c, hload, hnames, hsplit, hclass, hname, hhead, hselector⟩

/-- The underscore in the name of the second component is gone from its class. -/
theorem class_starts_with_digit :
    ((Load.app digitNames).toOption.bind fun app => (resolve app {}).outcome.toOption.map fun _ =>
      app.nodes.map fun n => ((resolve app {}).naming.nameOf n.head,
        (resolve app {}).naming.classOf n.head, ((resolve app {}).naming.classOf n.head).map Text.isSelectorName)) =
      some [(some "App", some "app-62a3f0", some true), (none, some "2nd-title-dfcbe4", some false),
        (some "_3d", some "3d-e94b6c", some false)] := by
  decide +kernel

end Names

end ViewTree
