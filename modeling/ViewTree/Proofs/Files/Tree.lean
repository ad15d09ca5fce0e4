import ViewTree.Files.Tree
import ViewTree.Proofs.Files.Path

/-!
# What operations do to a tree

A path leads to a place that depends on the tree only by the directory that relative paths
start from (`placeOf`), however much of the way is there. An operation that succeeds on a
path reads or changes what is at its place.

The operations of the compiler make directories and write files. What a row of them has
done is told by the files alone (`Wrote`): the directories are still there, and a file holds
what was written to its place last, or what it held before.
-/

namespace ViewTree.FileTree

/-! ## Places -/

/-- The place that a path leads to, by its names alone. -/
def placeOf (t : FileTree) (path : String) : Place :=
  (FilePath.walk ((t.start path).map String.toList) (FilePath.steps path)).map String.ofList

theorem placeOf_congr {t t' : FileTree} (h : t'.current = t.current) : t'.placeOf = t.placeOf := by
  funext path
  unfold placeOf start
  rw [h]

theorem enter_ok {t : FileTree} {place next : Place} {part : List Char} (hpart : part ≠ [])
    (h : t.enter place (String.ofList part) = .ok next) :
    next.map String.toList = FilePath.walk (place.map String.toList) ([part].filter FilePath.isStep) := by
  unfold enter at h
  split at h
  · rename_i hdot
    have hpart : part = ['.'] := by simpa using congrArg String.toList hdot
    injection h with hnext
    rw [hpart, ← hnext]
    rfl
  · rename_i hdot
    have hstep : FilePath.isStep part = true := by
      have hne : part ≠ ['.'] := fun h => hdot (by rw [h])
      simp [FilePath.isStep, hpart, hne]
    rw [List.filter_cons_of_pos hstep, List.filter_nil, FilePath.walk, FilePath.walk]
    split at h
    · rename_i hback
      have hpart : part = FilePath.back := by simpa [FilePath.back] using congrArg String.toList hback
      injection h with hnext
      rw [if_pos hpart, ← hnext, List.map_dropLast]
    · rename_i hback
      have hne : part ≠ FilePath.back := fun h => hback (by rw [h]; rfl)
      rw [if_neg hne]
      split at h
      · cases h
      · injection h with hnext
        simp [← hnext]
      · cases h
      · cases h

/-- Where a walk through a tree ends is told by the names. -/
theorem walk_ok {t : FileTree} {parts : List (List Char)} (hparts : [] ∉ parts) {place last : Place}
    (h : t.walk place (parts.map String.ofList) = .ok last) :
    last.map String.toList = FilePath.walk (place.map String.toList) (parts.filter FilePath.isStep) := by
  induction parts generalizing place with
  | nil =>
    injection h with hlast
    rw [← hlast]
    rfl
  | cons part parts ih =>
    rw [List.mem_cons, not_or] at hparts
    rw [List.map_cons, walk] at h
    split at h
    · cases h
    · rename_i next hnext
      rw [ih hparts.2 h, enter_ok (Ne.symm hparts.1) hnext, ← FilePath.walk_append, ← List.filter_append,
        List.singleton_append]

theorem resolve_named_iff {t : FileTree} {path name : String} {dir : Place} :
    t.resolve path = .ok (.named dir name) ↔ pathError? path = none ∧ path.isEmpty = false ∧
      t.walk (t.start path) (names path).dropLast = .ok dir ∧ (names path).getLast? = some name ∧
      name ≠ "." ∧ name ≠ ".." := by
  constructor
  · intro h
    unfold resolve at h
    split at h
    · cases h
    split at h
    · cases h
    split at h
    · cases h
    · cases h
    split at h
    · cases h
    split at h
    · cases h
    rename_i herror hempty _ _ place last hwalk hlast hdot hback
    injection h with h
    injection h with hplace hname
    subst hplace hname
    exact ⟨herror, by simpa using hempty, hwalk, hlast, hdot, hback⟩
  · rintro ⟨herror, hempty, hwalk, hlast, hdot, hback⟩
    unfold resolve
    rw [herror]
    dsimp only
    rw [hempty, if_neg (by decide), hwalk, hlast]
    dsimp only
    rw [if_neg hdot, if_neg hback]

/-- A path that ends at a name leads to the place of that name. -/
theorem placeOf_named {t : FileTree} {path name : String} {dir : Place} (h : t.resolve path = .ok (.named dir name)) :
    t.placeOf path = dir ++ [name] := by
  obtain ⟨-, -, hwalk, hlast, hdot, hback⟩ := resolve_named_iff.1 h
  -- Blank parts are left out of the names, and those that lead nowhere out of the steps.
  have hsteps : FilePath.steps path = ((Text.splitAt '/' path.toList).filter (· != [])).filter FilePath.isStep := by
    rw [List.filter_filter]
    refine List.filter_congr fun part _ => ?_
    cases part <;> simp [FilePath.isStep]
  have hparts : [] ∉ (Text.splitAt '/' path.toList).filter (· != []) := by simp
  unfold placeOf
  rw [hsteps]
  unfold names at hwalk hlast
  generalize (Text.splitAt '/' path.toList).filter (· != []) = parts at hwalk hlast hparts
  rw [List.getLast?_map, Option.map_eq_some_iff] at hlast
  obtain ⟨part, hlast, rfl⟩ := hlast
  obtain ⟨parts, rfl⟩ := List.getLast?_eq_some_iff.1 hlast
  rw [List.map_append, List.map_singleton, List.dropLast_concat] at hwalk
  have hdir := walk_ok (fun hmem => hparts (List.mem_append_left _ hmem)) hwalk
  have hstep : FilePath.isStep part = true := by
    have hblank : part ≠ [] := fun h => hparts (by simp [h])
    have hne : part ≠ ['.'] := fun h => hdot (by rw [h])
    simp [FilePath.isStep, hblank, hne]
  have hforward : part ≠ FilePath.back := fun h => hback (by rw [h]; rfl)
  rw [List.filter_append, List.filter_cons_of_pos hstep, List.filter_nil, FilePath.walk_append, ← hdir,
    FilePath.walk_forward _ (List.mem_singleton.not.2 (Ne.symm hforward))]
  simp

/-! ## Walks in a tree that keeps its directories -/

section

variable {t t' : FileTree} (hcurrent : t'.current = t.current)
  (hdirs : ∀ p, t.entry? p = some .directory → t'.entry? p = some .directory)

include hdirs in
theorem walk_mono {place last : Place} {names : List String} (h : t.walk place names = .ok last) :
    t'.walk place names = .ok last := by
  induction names generalizing place with
  | nil => exact h
  | cons name names ih =>
    rw [walk] at h ⊢
    split at h
    · cases h
    · rename_i next hnext
      have hnext' : t'.enter place name = .ok next := by
        unfold enter at hnext ⊢
        split
        · rename_i hdot
          rwa [if_pos hdot] at hnext
        · rename_i hdot
          rw [if_neg hdot] at hnext
          split
          · rename_i hback
            rwa [if_pos hback] at hnext
          · rename_i hback
            rw [if_neg hback] at hnext
            split at hnext
            · cases hnext
            · rename_i hname hentry
              rw [hname, hdirs _ hentry]
              exact hnext
            · cases hnext
            · cases hnext
      rw [hnext']
      exact ih h

include hcurrent hdirs in
theorem resolve_mono {path name : String} {dir : Place} (h : t.resolve path = .ok (.named dir name)) :
    t'.resolve path = .ok (.named dir name) := by
  obtain ⟨herror, hempty, hwalk, hname⟩ := resolve_named_iff.1 h
  refine resolve_named_iff.2 ⟨herror, hempty, ?_, hname⟩
  have hstart : t'.start path = t.start path := by
    unfold start
    rw [hcurrent]
  rw [hstart]
  exact walk_mono hdirs hwalk

end

/-! ## Paths in a directory -/

theorem steps_join {dir path : String} (hpath : path.toList.head? ≠ some '/') :
    FilePath.steps (FilePath.join dir path) = FilePath.steps dir ++ FilePath.steps path := by
  unfold FilePath.join
  rw [if_neg hpath]
  split
  · rename_i hempty
    rw [String.isEmpty_iff.1 hempty]
    rfl
  split
  · rename_i hlast
    obtain ⟨cs, hcs⟩ := List.getLast?_eq_some_iff.1 hlast
    have hdir : dir = String.ofList cs ++ "/" ++ "" := String.toList_injective (by simp [hcs])
    rw [hdir, FilePath.steps_slash, String.append_assoc, String.empty_append, FilePath.steps_slash]
    rw [show FilePath.steps "" = [] from rfl, List.append_nil]
  · exact FilePath.steps_slash dir path

theorem start_join (t : FileTree) {dir path : String} (hpath : path.toList.head? ≠ some '/') :
    t.start (FilePath.join dir path) = t.start dir := by
  unfold FilePath.join
  rw [if_neg hpath]
  split
  · rename_i hempty
    unfold start
    rw [String.isEmpty_iff.1 hempty, if_neg hpath]
    rfl
  · rename_i hempty
    have hhead : ∀ rest : String, (dir ++ rest).toList.head? = dir.toList.head? := by
      intro rest
      obtain ⟨c, cs, hdir⟩ : ∃ c cs, dir.toList = c :: cs := List.exists_cons_of_ne_nil fun hnil =>
        hempty (String.isEmpty_iff.2 (String.toList_injective hnil))
      rw [String.toList_append, hdir, List.cons_append, List.head?_cons, List.head?_cons]
    unfold start
    split
    · rw [hhead]
    · rw [String.append_assoc, hhead]

/-- A path in a directory leads on from where the directory is. -/
theorem placeOf_join (t : FileTree) {dir path : String} (hpath : path.toList.head? ≠ some '/') :
    t.placeOf (FilePath.join dir path) =
      (FilePath.walk ((t.placeOf dir).map String.toList) (FilePath.steps path)).map String.ofList := by
  unfold placeOf
  rw [start_join t hpath, steps_join hpath, FilePath.walk_append]
  simp

/-- A path that ends in a name leads to a place of that name, from wherever it starts. -/
theorem placeOf_join_last (t : FileTree) (dir : String) {path name : String} {before : List (List Char)}
    (hname : FilePath.IsName name) (hpath : FilePath.steps path = before ++ [name.toList]) :
    ∃ place, t.placeOf (FilePath.join dir path) = place ++ [name] := by
  have hlast : ∀ p, FilePath.walk p (FilePath.steps path) = FilePath.walk p before ++ [name.toList] := by
    intro p
    rw [hpath, FilePath.walk_append, FilePath.walk_forward _ (List.mem_singleton.not.2 (Ne.symm hname.2.2))]
  by_cases hhead : path.toList.head? = some '/'
  · unfold FilePath.join placeOf
    rw [if_pos hhead, hlast]
    exact ⟨_, by rw [List.map_append, List.map_singleton, String.ofList_toList]⟩
  · rw [placeOf_join t hhead, hlast]
    exact ⟨_, by rw [List.map_append, List.map_singleton, String.ofList_toList]⟩

theorem placeOf_join_name (t : FileTree) {dir name : String} (h : FilePath.IsName name) :
    t.placeOf (FilePath.join dir name) = t.placeOf dir ++ [name] := by
  have hhead : name.toList.head? ≠ some '/' := fun hslash => h.1 (List.mem_of_head? hslash)
  rw [placeOf_join t hhead, FilePath.steps_name h.1 h.2.1,
    FilePath.walk_forward _ (List.mem_singleton.not.2 (Ne.symm h.2.2))]
  simp

/-- A path that never goes back leads down from where the directory is. -/
theorem placeOf_join_forward (t : FileTree) {dir path : String} (hhead : path.toList.head? ≠ some '/')
    (hback : FilePath.back ∉ FilePath.steps path) :
    t.placeOf (FilePath.join dir path) = t.placeOf dir ++ (FilePath.steps path).map String.ofList := by
  rw [placeOf_join t hhead, FilePath.walk_forward _ hback, List.map_append]
  simp

/-! ## Operations by their places -/

theorem lookup_filter {α : Type} (keep : Place → Bool) (p : Place) (entries : List (Place × α)) :
    (entries.filter fun e => keep e.1).lookup p = if keep p then entries.lookup p else none := by
  induction entries with
  | nil => simp
  | cons e entries ih =>
    obtain ⟨place, entry⟩ := e
    by_cases hp : p = place
    · subst hp
      by_cases hkeep : keep p = true <;> simp [hkeep, ih]
    · have hne : (p == place) = false := by simpa using hp
      by_cases hkeep : keep place = true <;> simp [List.lookup_cons, hkeep, hne, ih]

/-- An entry that is put at a place changes nothing elsewhere. -/
theorem entry?_insert (t : FileTree) {place : Place} (h : place ≠ []) (entry : FileEntry) (p : Place) :
    entry? (t.insert place entry) p = if p = place then some entry else t.entry? p := by
  unfold entry? insert
  dsimp only
  rw [List.lookup_append, lookup_filter (· != place)]
  by_cases hp : p = place
  · subst hp
    simp [h]
  · have hne : (p == place) = false := by simpa using hp
    simp [List.lookup_cons, hp, hne]

section

variable {t t' : FileTree} {path : String}

/-- The text that is read is that of the file at the place. -/
theorem readText_ok {text : String} (h : t.readText path = .ok text) :
    t.entry? (t.placeOf path) = some (.file (.text text)) := by
  unfold readText at h
  split at h
  · cases h
  · rename_i place s hlocate
    injection h with h
    subst h
    unfold locate at hlocate
    split at hlocate
    · cases hlocate
    · cases hlocate
    rename_i dir name hresolve
    split at hlocate
    · cases hlocate
    · cases hlocate
    · cases hlocate
    rename_i hname hentry
    split at hlocate
    · cases hlocate
    cases hlocate
    rw [placeOf_named hresolve]
    exact hentry
  · cases h
  · cases h

/-- The way of a path is there and ends at a name that a file can have. -/
def Writable (t : FileTree) (path : String) : Prop :=
  ∃ dir name, t.resolve path = .ok (.named dir name) ∧ nameError? name = none ∧ endsInSlash path = false

theorem Writable.readText_eq (h : t.Writable path) {text : String}
    (hentry : t.entry? (t.placeOf path) = some (.file (.text text))) : t.readText path = .ok text := by
  obtain ⟨dir, name, hresolve, hname, hslash⟩ := h
  rw [placeOf_named hresolve] at hentry
  unfold readText locate
  simp only [hresolve, hname, hentry, hslash]
  rfl

theorem write_ok {contents : FileContents} (h : t.write path contents = .ok t') :
    t.Writable path ∧ t.entry? (t.placeOf path) ≠ some .directory ∧
      t' = t.insert (t.placeOf path) (.file contents) := by
  unfold write at h
  split at h
  · cases h
  · cases h
  rename_i dir name hresolve
  split at h
  · cases h
  rename_i hslash
  split at h
  · cases h
  · cases h
  rename_i hname hentry
  injection h with h
  rw [placeOf_named hresolve]
  exact ⟨⟨dir, name, hresolve, hname, by simpa using hslash⟩, hentry, h.symm⟩

theorem makeDirectory_ok (h : t.makeDirectory path = .ok t') :
    t.placeOf path ≠ [] ∧ t.entry? (t.placeOf path) = none ∧ t' = t.insert (t.placeOf path) .directory := by
  unfold makeDirectory at h
  split at h
  · cases h
  · cases h
  rename_i dir name hresolve
  split at h
  · cases h
  · cases h
  rename_i hname hnone
  injection h with h
  rw [placeOf_named hresolve]
  exact ⟨by simp, hnone, h.symm⟩

end

/-! ## Rows of operations -/

/-- The text that was written to a place last. -/
def lastText (writes : List (Place × String)) (p : Place) : Option String := writes.reverse.lookup p

/-- One tree became the other by making directories and by writing these texts, in this
order. -/
structure Wrote (t : FileTree) (writes : List (Place × String)) (t' : FileTree) : Prop where
  current : t'.current = t.current
  directory : ∀ p, t.entry? p = some .directory → t'.entry? p = some .directory
  file : ∀ p contents, t'.entry? p = some (.file contents) ↔
    match lastText writes p with
    | some text => contents = .text text
    | none => t.entry? p = some (.file contents)

theorem lastText_append (writes more : List (Place × String)) (p : Place) :
    lastText (writes ++ more) p = (lastText more p).or (lastText writes p) := by
  unfold lastText
  rw [List.reverse_append, List.lookup_append]

theorem lastText_singleton (place p : Place) (text : String) :
    lastText [(place, text)] p = if p = place then some text else none := by
  unfold lastText
  by_cases hp : p = place
  · subst hp
    simp
  · have hne : (p == place) = false := by simpa using hp
    simp [List.lookup_cons, hp, hne]

theorem lastText_filter (keep : Place → Bool) {p : Place} (h : keep p = true) (writes : List (Place × String)) :
    lastText (writes.filter fun w => keep w.1) p = lastText writes p := by
  unfold lastText
  rw [← List.filter_reverse, lookup_filter, if_pos h]

theorem exists_lastText {writes : List (Place × String)} {p : Place} {text : String} (h : (p, text) ∈ writes) :
    ∃ last, lastText writes p = some last := by
  cases hlast : lastText writes p with
  | some last => exact ⟨last, rfl⟩
  | none =>
    have hne := List.lookup_eq_none_iff.1 hlast (p, text) (List.mem_reverse.2 h)
    simp at hne

theorem mem_of_lastText {writes : List (Place × String)} {p : Place} {text : String}
    (h : lastText writes p = some text) : (p, text) ∈ writes := by
  obtain ⟨before, after, hwrites, -⟩ := List.lookup_eq_some_iff.1 h
  rw [← List.mem_reverse, hwrites]
  simp

namespace Wrote

variable {t t' t'' : FileTree} {writes more : List (Place × String)}

theorem refl (t : FileTree) : Wrote t [] t := ⟨rfl, fun _ h => h, fun _ _ => Iff.rfl⟩

theorem trans (h : Wrote t writes t') (h' : Wrote t' more t'') : Wrote t (writes ++ more) t'' := by
  refine ⟨h'.current.trans h.current, fun p hp => h'.directory p (h.directory p hp), fun p contents => ?_⟩
  rw [h'.file, lastText_append]
  cases lastText more p with
  | some text => exact Iff.rfl
  | none => exact h.file p contents

theorem placeOf_eq (h : Wrote t writes t') : t'.placeOf = t.placeOf :=
  placeOf_congr h.current

/-- A path that can be written to can still be written to. -/
theorem writable (h : Wrote t writes t') {path : String} (hpath : t.Writable path) : t'.Writable path := by
  obtain ⟨dir, name, hresolve, hname⟩ := hpath
  exact ⟨dir, name, resolve_mono h.current h.directory hresolve, hname⟩

end Wrote

section

variable {t t' : FileTree} {path : String}

theorem write_wrote {text : String} (h : t.write path (.text text) = .ok t') :
    Wrote t [(t.placeOf path, text)] t' := by
  obtain ⟨⟨dir, name, hresolve, -⟩, hentry, rfl⟩ := write_ok h
  have hplace : t.placeOf path ≠ [] := by simp [placeOf_named hresolve]
  refine ⟨rfl, fun p hp => ?_, fun p contents => ?_⟩
  · rw [entry?_insert t hplace, if_neg]
    · exact hp
    · rintro rfl
      exact hentry hp
  · rw [entry?_insert t hplace, lastText_singleton]
    by_cases hp : p = t.placeOf path
    · simp [hp, eq_comm]
    · simp [hp]

theorem makeDirectory_wrote (h : t.makeDirectory path = .ok t') : Wrote t [] t' := by
  obtain ⟨hplace, hentry, rfl⟩ := makeDirectory_ok h
  refine ⟨rfl, fun p hp => ?_, fun p contents => ?_⟩
  · rw [entry?_insert t hplace]
    split
    · rfl
    · exact hp
  · rw [entry?_insert t hplace]
    by_cases hp : p = t.placeOf path
    · simp [hp, hentry, lastText]
    · simp [hp, lastText]

end

/-! ## Operations on the state -/

theorem run_bind {α β : Type} {x : StateM FileTree α} {t t' : FileTree} {a : α} (h : x.run t = (a, t'))
    (f : α → StateM FileTree β) : (x >>= f).run t = (f a).run t' := by
  rw [StateT.run_bind, h]
  rfl

/-- A changed tree is kept, and a failure keeps the tree as it is. -/
theorem run_change (result : Except FileError FileTree) (t : FileTree) : (change result).run t =
    match result with
    | .ok t' => (.ok (), t')
    | .error e => (.error e, t) := by
  cases result <;> rfl

theorem run_writeText (path text : String) (t : FileTree) : (system.writeText path text).run t =
    match t.write path (.text text) with
    | .ok t' => (.ok (), t')
    | .error e => (.error e, t) :=
  run_change (t.write path (.text text)) t

theorem ensureDirectory_wrote (path : String) (t : FileTree) :
    Wrote t [] ((system.ensureDirectory path).run t).2 := by
  have hrun : (system.ensureDirectory path).run t =
      match t.makeDirectory path with
      | .ok t' => (.ok (), t')
      | .error e => (if t.isDirectory path then .ok () else .error e, t) := by
    unfold FileSystem.ensureDirectory
    rw [StateT.run_bind]
    have hmake : (system.makeDirectory path).run t = match t.makeDirectory path with
      | .ok t' => (.ok (), t')
      | .error e => (.error e, t) := run_change (t.makeDirectory path) t
    rw [hmake]
    cases t.makeDirectory path with
    | ok t' => rfl
    | error e =>
      change (StateT.run (if t.isDirectory path then _ else _) t : _) = _
      split <;> rfl
  rw [hrun]
  split
  · exact makeDirectory_wrote ‹_›
  · exact .refl t

/-- What is done first is followed by what is done with its result. -/
theorem Wrote.bind {α β : Type} {t : FileTree} {x : StateM FileTree α} {f : α → StateM FileTree β}
    {writes more : List (Place × String)} (hx : Wrote t writes (x.run t).2)
    (hf : Wrote (x.run t).2 more ((f (x.run t).1).run (x.run t).2).2) :
    Wrote t (writes ++ more) ((x >>= f).run t).2 :=
  hx.trans hf

theorem ensureDirectories_wrote (paths : List String) (t : FileTree) :
    Wrote t [] ((system.ensureDirectories paths).run t).2 := by
  induction paths generalizing t with
  | nil => exact .refl t
  | cons path above ih =>
    unfold FileSystem.ensureDirectories
    split
    · exact .refl t
    · refine (ensureDirectory_wrote path t).bind ?_
      split
      · refine (ih _).bind ?_
        split
        · exact .refl _
        · exact ensureDirectory_wrote path _
      · exact .refl _

end ViewTree.FileTree
