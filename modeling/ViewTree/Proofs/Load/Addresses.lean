import Mathlib.Data.List.Nodup
import ViewTree.Proofs.Load.Positions
import ViewTree.Proofs.Text.Identifier

/-!
# Paths of loaded nodes

The paths of the items of a field differ in their numbers, and those of two fields in their
keys; the bracket after the number and the dot before the key keep them apart however they
go on. So the paths of a loaded app differ as its positions do, and both follow the walk
through the tree (`app_addresses`).
-/

namespace ViewTree

/-- What stands before the first occurrence of a character is the same in equal lists. -/
theorem eq_of_append_cons {c : Char} {a b x y : List Char} (ha : c ∉ a) (hb : c ∉ b)
    (h : a ++ c :: x = b ++ c :: y) : a = b := by
  have hbefore : ∀ {d : List Char} (z : List Char), c ∉ d → (d ++ c :: z).takeWhile (fun e => e != c) = d := by
    intro d z hd
    have hall : ∀ e ∈ d, (e != c) = true := fun e he => bne_iff_ne.2 fun hec => hd (hec ▸ he)
    rw [List.takeWhile_append_of_pos hall, List.takeWhile_cons_of_neg (by simp), List.append_nil]
  rw [← hbefore x ha, h, hbefore y hb]

namespace Load

theorem toList_item (path : String) (i : Nat) :
    (item path i).toList = path.toList ++ '[' :: ((Text.decimal i).toList ++ [']']) := by
  simp only [item, String.toList_append]
  simp

theorem toList_field (path key : String) : (field path key).toList = path.toList ++ '.' :: key.toList := by
  simp only [field, String.toList_append]
  simp

theorem bracket_notMem_decimal (i : Nat) : ']' ∉ (Text.decimal i).toList :=
  fun h => absurd (Text.isDigit_of_mem_decimal h) (by decide)

/-- What goes on from two items of different numbers differs. -/
theorem precedes_item (path : String) {k l : Nat} (h : k ≠ l) :
    Precedes (· ≠ ·) (item path k).toList (item path l).toList := by
  rintro _ _ ⟨x, rfl⟩ ⟨y, rfl⟩ heq
  simp only [toList_item, List.append_assoc, List.cons_append, List.nil_append] at heq
  have hnumbers := List.tail_eq_of_cons_eq (List.append_cancel_left heq)
  have hsame := eq_of_append_cons (bracket_notMem_decimal k) (bracket_notMem_decimal l) hnumbers
  exact h (Text.decimal_injective (String.toList_inj.1 hsame))

/-- What goes on from an item of `children` differs from what goes on from one of `else`. -/
theorem precedes_children_else (path : String) (k l : Nat) :
    Precedes (· ≠ ·) (item (field path "children") k).toList (item (field path "else") l).toList := by
  rintro _ _ ⟨x, rfl⟩ ⟨y, rfl⟩ heq
  simp only [toList_item, toList_field, List.append_assoc, List.cons_append] at heq
  have hkeys := List.tail_eq_of_cons_eq (List.append_cancel_left heq)
  simp at hkeys

end Load

theorem Node.Placed.paths_apart {n : Node} (h : n.Placed) :
    n.OrderedBelow (fun n => n.head.path.toList) (· ≠ ·) where
  below m hm := by
    obtain ⟨key, offset, i, hplace⟩ := h.child hm
    have hpath : m.head.path = Load.item (Load.field n.head.path key) i := congrArg Prod.fst hplace
    refine ⟨'.' :: (key.toList ++ '[' :: ((Text.decimal i).toList ++ [']'])), List.cons_ne_nil _ _, ?_⟩
    rw [hpath, Load.toList_item, Load.toList_field, List.append_assoc]
    rfl
  siblings := by
    refine h.pairwise (R := fun a b => Precedes (· ≠ ·) a.1.toList b.1.toList) ?_ ?_
    · intro key offset k l hkl
      exact Load.precedes_item _ (Nat.ne_of_lt hkl)
    · intro count k l _
      exact Load.precedes_children_else _ k l

/-- No two nodes of a loaded app share a path. -/
theorem Load.app_paths_nodup {document : Json} {app : App} (h : Load.app document = .ok app) :
    (app.nodes.map fun n => n.head.path).Nodup := by
  obtain ⟨count, hc⟩ := components_placed h
  have hroots := hc.pairwise (R := fun a b => Precedes (· ≠ ·) a.1.toList b.1.toList)
    fun k l hkl => precedes_item "components" (Nat.ne_of_lt hkl)
  have hlonger : ∀ p step : List Char, step ≠ [] → p ≠ p ++ step :=
    fun p step hne heq => hne (List.self_eq_append_right.1 heq)
  have hapart := app_ordered h hlonger hroots fun n hn => hn.paths_apart
  refine List.Nodup.of_map String.toList ?_
  rw [List.map_map]
  exact hapart

/-- In document order the positions of a loaded app increase; what stands right below a node
has its position and one number more, and only components stand below none; all paths
differ. The walk through a tree is its root and then the walks through the nodes right below
it. -/
theorem app_addresses {document : Json} {app : App} (h : Load.app document = .ok app) :
    (positions app.nodes).Pairwise (· < ·) ∧
      (∀ n ∈ app.nodes, n ∈ app.components ∨ ∃ parent ∈ app.nodes, n ∈ parent.childNodes) ∧
      (∀ parent ∈ app.nodes, ∀ n ∈ parent.childNodes, ∃ k, n.head.position = parent.head.position ++ [k]) ∧
      (app.nodes.map fun n => n.head.path).Nodup ∧
      ∀ n : Node, n.nodes = n :: n.childNodes.flatMap Node.nodes := by
  refine ⟨Load.app_positions h, fun n hn => ?_, fun parent hparent n hn => ?_, Load.app_paths_nodup h, Node.nodes_eq⟩
  · obtain ⟨c, hc, hn⟩ := List.mem_flatMap.1 hn
    rcases Node.exists_parent hn with rfl | ⟨parent, hparent, hn⟩
    · exact .inl hc
    · exact .inr ⟨parent, List.mem_flatMap.2 ⟨c, hc, hparent⟩, hn⟩
  · obtain ⟨key, offset, i, hplace⟩ := (Load.app_forall Load.built_placed h parent hparent).child hn
    exact ⟨offset + i, congrArg Prod.snd hplace⟩

/-- Below the component a text, a node with one piece of content for either case and one more
node: the text takes a number, and the `em` is numbered after the `span`. -/
def numberedNodes : Json :=
  .object [("components", .array [.object [("name", .string "App"),
    ("children", .array [.string "text",
      .object [("type", .string "If"), ("condition", .string "ready"),
        ("children", .object [("type", .string "span")]), ("else", .array [.null, .object [("type", .string "em")]])],
      .object [("type", .string "p")]])]])]

theorem app_addresses_numbered :
    ∃ app, Load.app numberedNodes = .ok app ∧
      app.nodes.map Node.place =
        [("components[0]", [0]), ("components[0].children[1]", [0, 1]), ("components[0].children[1].children[0]", [0, 1, 0]),
          ("components[0].children[1].else[1]", [0, 1, 2]), ("components[0].children[2]", [0, 2])] ∧
      (positions app.nodes).Pairwise (· < ·) ∧ (app.nodes.map fun n => n.head.path).Nodup := by
  have hplaces : (Load.app numberedNodes).toOption.map (fun app => app.nodes.map Node.place) =
      some [("components[0]", [0]), ("components[0].children[1]", [0, 1]),
        ("components[0].children[1].children[0]", [0, 1, 0]), ("components[0].children[1].else[1]", [0, 1, 2]),
        ("components[0].children[2]", [0, 2])] := by
    decide +kernel
  cases hload : Load.app numberedNodes with
  | error problems => simp [hload, Except.toOption] at hplaces
  | ok app =>
    simp only [hload, Except.toOption, Option.map_some, Option.some.injEq] at hplaces
    obtain ⟨hpositions, -, -, hpaths, -⟩ := app_addresses hload
    exact ⟨app, rfl, hplaces, hpositions, hpaths⟩

end ViewTree
