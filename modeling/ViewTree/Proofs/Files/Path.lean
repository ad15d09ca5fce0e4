import Mathlib.Data.List.TakeWhile
import ViewTree.Component
import ViewTree.Files.Path

/-!
# Where paths lead

A path is followed step by step: blank parts and `.` lead nowhere, `..` goes back, and
every other part goes down. A file that imports a source follows it from the directory
the file lies in (`FilePath.target`). The way from a component directory back to the root
of the output (`toRoot`) has one `..` for each step of the directory, so what follows it
is followed from the root.
-/

namespace ViewTree

/-! ## Parts -/

namespace Text

theorem splitAt_eq_splitOn : splitAt = List.splitOn := by
  funext separator cs
  induction cs with
  | nil => rfl
  | cons c cs ih =>
    obtain ⟨part, parts, hparts⟩ := List.exists_cons_of_ne_nil (List.splitOn_ne_nil separator cs)
    rw [splitAt, List.splitOn_cons_eq_if_modifyHead, ih, hparts]
    simp

theorem join_empty_cons (s : String) (ts : List String) : join "" (s :: ts) = s ++ join "" ts := by
  cases ts with
  | nil => simp [join]
  | cons t ts => simp [join]

end Text

namespace FilePath

/-- The part that goes back to the directory above. -/
def back : List Char := ['.', '.']

/-- The parts of a path that lead somewhere. -/
def steps (path : String) : List (List Char) := (Text.splitAt '/' path.toList).filter isStep

/-- Where steps lead from a place. -/
def walk (place : List (List Char)) : List (List Char) → List (List Char)
  | [] => place
  | step :: rest => walk (if step = back then place.dropLast else place ++ [step]) rest

/-- Where a path leads from the root. -/
def place (path : String) : List (List Char) := walk [] (steps path)

/-- Where a source leads that the file at a path imports. -/
def target (file source : String) : List (List Char) := walk (place file).dropLast (steps source)

/-! ## Steps -/

theorem steps_slash (a b : String) : steps (a ++ "/" ++ b) = steps a ++ steps b := by
  have h : (a ++ "/" ++ b).toList = a.toList ++ '/' :: b.toList := by simp
  unfold steps
  rw [h, Text.splitAt_eq_splitOn, List.splitOn_append_cons_self, List.filter_append]

theorem steps_name {name : String} (hslash : '/' ∉ name.toList) (hstep : isStep name.toList = true) :
    steps name = [name.toList] := by
  unfold steps
  rw [Text.splitAt_eq_splitOn, List.splitOn_eq_singleton hslash, List.filter_cons_of_pos hstep, List.filter_nil]

theorem toList_dropSlashes (dir : String) :
    ∃ slashes, dir.toList = (ComponentFile.dropSlashes dir).toList ++ slashes ∧ ∀ c ∈ slashes, c = '/' := by
  refine ⟨(dir.toList.reverse.takeWhile (· == '/')).reverse, ?_, ?_⟩
  · unfold ComponentFile.dropSlashes Text.dropEndWhile
    rw [String.toList_ofList, ← List.reverse_append, List.takeWhile_append_dropWhile, List.reverse_reverse]
  · intro c hc
    simpa using List.mem_takeWhile_imp (List.mem_reverse.1 hc)

/-- Slashes at the end of a path lead nowhere. -/
theorem steps_dropSlashes (dir : String) : steps (ComponentFile.dropSlashes dir) = steps dir := by
  have hslashes : ∀ (cs ss : List Char), (∀ c ∈ ss, c = '/') →
      (Text.splitAt '/' (cs ++ ss)).filter isStep = (Text.splitAt '/' cs).filter isStep := by
    intro cs ss hss
    induction ss generalizing cs with
    | nil => rw [List.append_nil]
    | cons c ss ih =>
      obtain rfl := hss c List.mem_cons_self
      have hrest := ih [] fun c hc => hss c (List.mem_cons_of_mem _ hc)
      rw [Text.splitAt_eq_splitOn] at hrest ⊢
      rw [List.splitOn_append_cons_self, List.filter_append, ← List.nil_append ss, hrest]
      simp [isStep]
  obtain ⟨ss, hsplit, hss⟩ := toList_dropSlashes dir
  unfold steps
  rw [hsplit, hslashes _ ss hss]

theorem steps_back (path : String) : steps ("../" ++ path) = back :: steps path := by
  have h := steps_slash ".." path
  rw [show ".." ++ "/" = "../" from rfl] at h
  rw [h]
  rfl

/-- The way back to the root has a step back for each step of the directory. -/
theorem steps_toRoot (dir path : String) :
    steps (ComponentFile.toRoot dir ++ path) = List.replicate (steps dir).length back ++ steps path := by
  have hback : ∀ parts : List (List Char), steps (Text.join "" (parts.map fun _ => "../") ++ path) =
      List.replicate parts.length back ++ steps path := by
    intro parts
    induction parts with
    | nil => simp [Text.join]
    | cons part parts ih =>
      rw [List.map_cons, Text.join_empty_cons, String.append_assoc, steps_back, ih, List.length_cons,
        List.replicate_succ, List.cons_append]
  unfold ComponentFile.toRoot
  rw [show (Text.splitAt '/' dir.toList).filter (fun p => p != [] && p != ['.']) = steps dir from rfl]
  dsimp only
  split
  · rename_i hempty
    have hdot := steps_slash "." path
    rw [show "." ++ "/" = "./" from rfl, show steps "." = [] from rfl, List.nil_append] at hdot
    rw [List.isEmpty_iff.1 hempty, hdot]
    rfl
  · exact hback (steps dir)

/-! ## Walks -/

theorem walk_append (p a b : List (List Char)) : walk p (a ++ b) = walk (walk p a) b := by
  induction a generalizing p with
  | nil => rfl
  | cons step a ih => rw [List.cons_append, walk, walk, ih]

theorem walk_forward (p : List (List Char)) {ss : List (List Char)} (h : back ∉ ss) : walk p ss = p ++ ss := by
  induction ss generalizing p with
  | nil => rw [walk, List.append_nil]
  | cons step ss ih =>
    rw [List.mem_cons, not_or] at h
    rw [walk, if_neg (Ne.symm h.1), ih _ h.2, List.append_assoc, List.singleton_append]

/-- As many steps back as there are steps lead to the root. -/
theorem walk_back (p : List (List Char)) : walk p (List.replicate p.length back) = [] := by
  generalize hn : p.length = n
  induction n generalizing p with
  | zero => exact List.eq_nil_of_length_eq_zero hn
  | succ n ih =>
    rw [List.replicate_succ, walk, if_pos rfl]
    exact ih p.dropLast (by simp [hn])

/-! ## Files of one directory -/

/-- A text that is the name of a file: one part of a path, which goes down. -/
def IsName (name : String) : Prop := '/' ∉ name.toList ∧ isStep name.toList = true ∧ name.toList ≠ back

variable {dir name : String}

theorem walk_dir (h : back ∉ steps dir) : walk [] (steps (ComponentFile.dropSlashes dir)) = steps dir := by
  rw [steps_dropSlashes, walk_forward _ h, List.nil_append]

theorem place_file (h : back ∉ steps dir) (hname : IsName name) :
    place (ComponentFile.dropSlashes dir ++ "/" ++ name) = steps dir ++ [name.toList] := by
  unfold place
  rw [steps_slash, walk_append, walk_dir h, steps_name hname.1 hname.2.1,
    walk_forward _ (List.mem_singleton.not.2 (Ne.symm hname.2.2))]

/-- A source that starts with `./` leads into the directory of the file. -/
theorem target_sibling (h : back ∉ steps dir) (hname : IsName name) (other : String) :
    target (ComponentFile.dropSlashes dir ++ "/" ++ name) ("./" ++ other) =
      place (ComponentFile.dropSlashes dir ++ "/" ++ other) := by
  have hdot : steps ("./" ++ other) = steps other := steps_slash "." other
  unfold target
  rw [place_file h hname, List.dropLast_concat, hdot]
  unfold place
  rw [steps_slash, walk_append, walk_dir h]

/-- A source that starts with the way to the root leads where the rest of it leads from
the root. -/
theorem target_toRoot (h : back ∉ steps dir) (hname : IsName name) (path : String) :
    target (ComponentFile.dropSlashes dir ++ "/" ++ name) (ComponentFile.toRoot dir ++ path) = place path := by
  unfold target
  rw [place_file h hname, List.dropLast_concat, steps_toRoot, walk_append, walk_back]
  rfl

end FilePath

end ViewTree
