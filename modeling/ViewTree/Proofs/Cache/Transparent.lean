import Mathlib.Control.Traversable.Basic
import ViewTree.Proofs.Cache.Entries
import ViewTree.Proofs.CommandLine.Reading

/-!
# The cache shows in no result

Documents of different paths may share an entry, and an entry may be of an earlier text. What
keeps the cache right is that every entry is genuine: whoever has its digest has its output.
An empty cache is genuine, and a compilation keeps it so (`compileOne_genuine`), hence each
of a row of compilations gives what compiling gives, and one that fails leaves the files as
they were.
-/

namespace ViewTree

/-! ## Genuine entries -/

namespace Cache

/-- A document that is to be compiled with options. -/
structure Request where
  document : SourceDocument
  options : Options

/-- What is digested for the entry of a request. -/
def Request.digested (r : Request) : String := hashedText r.document.text r.options

/-- What compiling gives. -/
def Request.answer (r : Request) : Except (List Problem) Output := compile r.document.value r.options

/-- The entry of a request's output: where it lies, and its text. -/
def Request.entryWrite (placeOf : String → Place) (dir : String) (r : Request) (output : Output) : Place × String :=
  (placeOf (entryPath dir r.document.path),
    (entryJson { hash := hash r.document.text r.options, output }).render)

@[simp] theorem Request.entryWrite_fst (placeOf : String → Place) (dir : String) (r : Request) (output : Output) :
    (r.entryWrite placeOf dir output).1 = placeOf (entryPath dir r.document.path) := rfl

/-- No file lies in the directory of the cache. -/
def Empty (t : FileTree) (dir : String) : Prop :=
  ∀ name contents, t.entry? (t.placeOf dir ++ [name]) ≠ some (.file contents)

/-- The text is that of an entry, and what has its digest among these requests has its
output. -/
def GenuineEntry (requests : List Request) (text : String) : Prop :=
  ∃ entry, parseEntry text = some entry ∧
    ∀ r ∈ requests, entry.hash = Digest.hexOfText r.digested → r.answer = .ok entry.output

/-- Every text where the cache keeps an entry is a genuine one. -/
def Genuine (requests : List Request) (t : FileTree) (dir : String) : Prop :=
  ∀ key text, t.entry? (t.placeOf (entryPath dir key)) = some (.file (.text text)) → GenuineEntry requests text

/-- The name of the file of an entry. -/
def entryName (key : String) : String := String.ofList (key.toList.map safeChar) ++ ".json"

theorem toList_entryName (key : String) : (entryName key).toList = key.toList.map safeChar ++ ".json".toList := by
  unfold entryName
  rw [String.toList_append, String.toList_ofList]

theorem isName_entryName (key : String) : FilePath.IsName (entryName key) := by
  have hlength : 5 ≤ (entryName key).toList.length := by
    rw [toList_entryName, List.length_append]
    exact Nat.le_add_left 5 _
  refine ⟨?_, ?_, ?_⟩
  · rw [toList_entryName, List.mem_append, List.mem_map, not_or]
    refine ⟨?_, by decide⟩
    rintro ⟨c, -, hc⟩
    unfold safeChar at hc
    split at hc
    · exact absurd hc (by decide)
    · rename_i hsafe
      exact hsafe (.inl hc)
  · have hnil : (entryName key).toList ≠ [] := fun h => by simp [h] at hlength
    have hdot : (entryName key).toList ≠ ['.'] := fun h => by simp [h] at hlength
    simp [FilePath.isStep, hnil, hdot]
  · intro h
    simp [h, FilePath.back] at hlength

/-- The entry of a document lies in the directory of the cache. -/
theorem placeOf_entryPath (t : FileTree) (dir key : String) :
    t.placeOf (entryPath dir key) = t.placeOf dir ++ [entryName key] :=
  t.placeOf_join_name (isName_entryName key)

theorem Empty.genuine {t : FileTree} {dir : String} (h : Empty t dir) (requests : List Request) :
    Genuine requests t dir := by
  intro key text hentry
  rw [placeOf_entryPath] at hentry
  exact absurd hentry (h _ _)

theorem Genuine.wrote {requests : List Request} {t t' : FileTree} {dir : String} {writes : List (Place × String)}
    (h : Genuine requests t dir) (hwrote : t.Wrote writes t')
    (hwrites : ∀ key text, (t.placeOf (entryPath dir key), text) ∈ writes → GenuineEntry requests text) :
    Genuine requests t' dir := by
  intro key text hentry
  rw [hwrote.placeOf_eq, hwrote.file] at hentry
  split at hentry
  · rename_i last hlast
    injection hentry with htext
    subst htext
    exact hwrites key text (FileTree.mem_of_lastText hlast)
  · exact h key text hentry

/-! ## Operations -/

theorem run_fetch (dir key hash : String) (t : FileTree) : (fetch FileTree.system dir key hash).run t =
    match t.readText (entryPath dir key) with
    | .error _ => (none, t)
    | .ok text =>
      match parseEntry text with
      | some entry => (if entry.hash = hash then some entry.output else none, t)
      | none => (none, t.removeFile (entryPath dir key)) := by
  have hread : (FileTree.system.readText (entryPath dir key)).run t = (t.readText (entryPath dir key), t) := rfl
  have hremove : (FileTree.system.removeFile (entryPath dir key)).run t = ((), t.removeFile (entryPath dir key)) := rfl
  unfold fetch
  rw [FileTree.run_bind hread]
  cases t.readText (entryPath dir key) with
  | error e => rfl
  | ok text =>
    dsimp only
    cases parseEntry text with
    | some entry => rfl
    | none =>
      dsimp only
      rw [FileTree.run_bind hremove]
      rfl

section

variable {requests : List Request} {t : FileTree} {dir : String} {r : Request}

/-- From a genuine cache come only right outputs, and nothing is removed. -/
theorem fetch_genuine (h : Genuine requests t dir) (hr : r ∈ requests) (key : String) :
    ∃ found, (fetch FileTree.system dir key (hash r.document.text r.options)).run t = (found, t) ∧
      ∀ output ∈ found, r.answer = .ok output := by
  rw [run_fetch]
  split
  · exact ⟨none, rfl, by simp⟩
  · rename_i text hread
    obtain ⟨entry, hentry, hanswer⟩ := h key text (FileTree.readText_ok hread)
    rw [hentry]
    refine ⟨_, rfl, ?_⟩
    intro output houtput
    split at houtput
    · rename_i hhash
      rw [hanswer r hr hhash, Option.mem_some_iff.1 houtput]
    · cases houtput

/-- The entry of an output is genuine where digests tell requests. -/
theorem genuineEntry_entryJson (hparsed : ∀ r ∈ requests, r.document.Parsed)
    (hfree : Digest.CollisionFree (requests.map Request.digested)) (hr : r ∈ requests) {output : Output}
    (hanswer : r.answer = .ok output) :
    GenuineEntry requests (entryJson { hash := hash r.document.text r.options, output }).render := by
  refine ⟨_, parseEntry_entryJson _, ?_⟩
  intro r' hr' hhash
  have hdigested : r.digested = r'.digested :=
    hfree _ (List.mem_map_of_mem hr) _ (List.mem_map_of_mem hr') hhash
  obtain ⟨htext, hoptions⟩ := hashedText_inj (hparsed r hr) (hparsed r' hr') hdigested
  have hvalue : r.document.value = r'.document.value := by
    have hparse := hparsed r hr
    unfold SourceDocument.Parsed at hparse
    rw [htext, hparsed r' hr'] at hparse
    injection hparse with hvalue
    exact hvalue.symm
  rw [← hanswer]
  unfold Request.answer
  rw [hvalue, hoptions]

/-- A cache that gets entries of requests stays genuine. -/
theorem Genuine.stored (h : Genuine requests t dir) (hparsed : ∀ r ∈ requests, r.document.Parsed)
    (hfree : Digest.CollisionFree (requests.map Request.digested)) {t' : FileTree} {writes : List (Place × String)}
    (hwrote : t.Wrote writes t')
    (hwrites : ∀ w ∈ writes, ∃ r ∈ requests, ∃ d output, r.answer = .ok output ∧ w = r.entryWrite t.placeOf d output) :
    Genuine requests t' dir := by
  refine h.wrote hwrote ?_
  intro key text hmem
  obtain ⟨r, hr, d, output, hanswer, heq⟩ := hwrites _ hmem
  obtain ⟨-, rfl⟩ := Prod.mk.inj heq
  exact genuineEntry_entryJson hparsed hfree hr hanswer

end

end Cache

/-! ## Compilations -/

open Cache CommandLine

/-- A compilation, without a cache or with a genuine one, gives what compiling gives and
writes at most the entry of its output. -/
theorem compileOne_genuine {requests : List Request} {t : FileTree} {cacheDir : Option String} {r : Request}
    (h : ∀ dir ∈ cacheDir, Genuine requests t dir) (hr : r ∈ requests) :
    ∃ t' writes, (compileOne FileTree.system r.options cacheDir r.document).run t = (r.answer, t') ∧
      t.Wrote writes t' ∧ (∀ problems, r.answer = .error problems → t' = t) ∧
      ∀ w ∈ writes, ∃ dir ∈ cacheDir, ∃ output, r.answer = .ok output ∧ w = r.entryWrite t.placeOf dir output := by
  cases cacheDir with
  | none => exact ⟨t, [], rfl, .refl t, fun _ _ => rfl, by simp⟩
  | some dir =>
    obtain ⟨found, hfetch, hfound⟩ := fetch_genuine (h dir rfl) hr r.document.path
    unfold compileOne
    dsimp only
    rw [FileTree.run_bind hfetch]
    cases found with
    | some output =>
      rw [hfound output rfl]
      exact ⟨t, [], rfl, .refl t, fun _ _ => rfl, by simp⟩
    | none =>
      unfold Request.answer
      cases compile r.document.value r.options with
      | error problems => exact ⟨t, [], rfl, .refl t, fun _ _ => rfl, by simp⟩
      | ok output =>
        have hstore := FileTree.run_writeText (entryPath dir r.document.path) (r.entryWrite t.placeOf dir output).2 t
        unfold store
        dsimp only
        rw [bind_assoc]
        split at hstore
        · rename_i t' hwrite
          refine ⟨t', _, FileTree.run_bind hstore _, FileTree.write_wrote hwrite, by simp, ?_⟩
          intro w hw
          exact ⟨dir, rfl, output, rfl, List.mem_singleton.1 hw⟩
        · exact ⟨t, [], FileTree.run_bind hstore _, .refl t, by simp, by simp⟩

/-- A request that is compiled with the cache or without it. -/
structure Call where
  request : Request
  parsed : request.document.Parsed
  cached : Bool

/-- Compiles a document with the cache in a directory, or without it. -/
def Call.run (dir : String) (c : Call) : StateM FileTree (Except (List Problem) Output) :=
  compileOne FileTree.system c.request.options (if c.cached then some dir else none) c.request.document

/-- Compiles documents one after the other. -/
def compileEach (dir : String) (calls : List Call) : StateM FileTree (List (Except (List Problem) Output)) :=
  calls.mapM (Call.run dir)

section

variable {requests : List Request} {t : FileTree} {dir : String}
  (hparsed : ∀ r ∈ requests, r.document.Parsed) (hfree : Digest.CollisionFree (requests.map Request.digested))

include hparsed hfree

/-- One call: the result is right, and the cache stays genuine. -/
theorem Call.run_genuine (h : Genuine requests t dir) {c : Call} (hc : c.request ∈ requests) :
    ∃ t', (c.run dir).run t = (c.request.answer, t') ∧ Genuine requests t' dir ∧
      ∀ problems, c.request.answer = .error problems → t' = t := by
  have hdir : ∀ d ∈ (if c.cached then some dir else none), Genuine requests t d := by
    intro d hd
    rw [Option.mem_ite_none_right, Option.mem_some_iff] at hd
    exact hd.2 ▸ h
  obtain ⟨t', writes, hrun, hwrote, herror, hwrites⟩ := compileOne_genuine hdir hc
  refine ⟨t', hrun, h.stored hparsed hfree hwrote ?_, herror⟩
  intro w hw
  obtain ⟨d, -, output, hanswer, heq⟩ := hwrites w hw
  exact ⟨c.request, hc, d, output, hanswer, heq⟩

/-- A row of calls, from one to the next. -/
theorem compileEach_genuine (h : Genuine requests t dir) {calls : List Call}
    (hcalls : ∀ c ∈ calls, c.request ∈ requests) :
    ∃ t', (compileEach dir calls).run t = (calls.map (·.request.answer), t') ∧ Genuine requests t' dir := by
  unfold compileEach
  induction calls generalizing t with
  | nil => exact ⟨t, rfl, h⟩
  | cons c calls ih =>
    obtain ⟨hc, hrest⟩ := List.forall_mem_cons.1 hcalls
    obtain ⟨t₁, hfirst, h₁, -⟩ := Call.run_genuine hparsed hfree h hc
    obtain ⟨t₂, hlater, h₂⟩ := ih h₁ hrest
    refine ⟨t₂, ?_, h₂⟩
    rw [List.mapM_cons, FileTree.run_bind hfirst, FileTree.run_bind hlater]
    rfl

end

/-- From an empty cache on, every compilation of a row gives what compiling the document
with its options gives, with the cache or without it, whatever the paths of the documents
are and whichever of them come again with other texts or options. A compilation that fails
leaves the files as they were. -/
theorem compileEach_transparent (t : FileTree) (dir : String) (hempty : Cache.Empty t dir) (calls : List Call)
    (hfree : Digest.CollisionFree (calls.map (·.request.digested))) :
    (compileEach dir calls).run' t = calls.map (·.request.answer) ∧
    ∀ before c after, calls = before ++ c :: after → ∀ problems, c.request.answer = .error problems →
      ((compileEach dir (before ++ [c])).run t).2 = ((compileEach dir before).run t).2 := by
  have hgenuine := hempty.genuine (calls.map Call.request)
  have hparsed : ∀ r ∈ calls.map Call.request, r.document.Parsed := by
    intro r hr
    obtain ⟨c, -, rfl⟩ := List.mem_map.1 hr
    exact c.parsed
  replace hfree : Digest.CollisionFree ((calls.map Call.request).map Request.digested) := by
    rwa [List.map_map]
  constructor
  · obtain ⟨t', hrun, -⟩ := compileEach_genuine hparsed hfree hgenuine fun c hc => List.mem_map_of_mem hc
    exact congrArg Prod.fst hrun
  · intro before c after hcalls problems herror
    have hbefore : ∀ c' ∈ before, c'.request ∈ calls.map Call.request := by
      intro c' hc'
      rw [hcalls]
      exact List.mem_map_of_mem (List.mem_append_left _ hc')
    have hc : c.request ∈ calls.map Call.request := by
      rw [hcalls]
      exact List.mem_map_of_mem (by simp)
    obtain ⟨t₁, hrun, h₁⟩ := compileEach_genuine hparsed hfree hgenuine hbefore
    obtain ⟨t₂, hlast, -, hsame⟩ := Call.run_genuine hparsed hfree h₁ hc
    have hboth : (compileEach dir (before ++ [c])).run t =
        (before.map (·.request.answer) ++ [c.request.answer], t₂) := by
      unfold compileEach at hrun ⊢
      rw [List.mapM_append, FileTree.run_bind hrun, List.mapM_cons, List.mapM_nil, bind_assoc,
        FileTree.run_bind hlast]
      rfl
    rw [hboth, hrun]
    exact hsame problems herror

/-- Options of little text. -/
def bareOptions : Options := { runtimeModule := "", componentDir := "", styleDir := "" }

/-- A document that compiles. -/
def goodCall : Call :=
  ⟨⟨⟨"a/b", "\x7b\"components\":[]\x7d", .object [("components", .array [])]⟩, bareOptions⟩, by
    unfold SourceDocument.Parsed; cbv, true⟩

/-- A document that does not compile, and whose entry would have the same path. -/
def wrongCall : Call := ⟨⟨⟨"a_b", "[]", .array []⟩, bareOptions⟩, by unfold SourceDocument.Parsed; cbv, true⟩

/-- A tree with an empty directory. -/
def cacheTree : FileTree := { entries := [([".cache"], .directory)] }

theorem compileEach_transparent_shared :
    entryPath ".cache" "a/b" = entryPath ".cache" "a_b" ∧ Cache.Empty cacheTree ".cache" ∧
    Digest.CollisionFree ([goodCall, wrongCall, goodCall].map (·.request.digested)) ∧
    (compileEach ".cache" [goodCall, wrongCall, goodCall]).run' cacheTree =
      [goodCall, wrongCall, goodCall].map (·.request.answer) ∧
    ((compileEach ".cache" [goodCall, wrongCall]).run cacheTree).2 =
      ((compileEach ".cache" [goodCall]).run cacheTree).2 := by
  have hplace : cacheTree.placeOf ".cache" = [".cache"] := by decide +kernel
  have hempty : Cache.Empty cacheTree ".cache" := by
    intro name contents
    rw [hplace]
    simp [cacheTree, FileTree.entry?, List.lookup_cons]
  have hfree : Digest.CollisionFree ([goodCall, wrongCall, goodCall].map (·.request.digested)) := by
    have hdigests : (Digest.hexOfText goodCall.request.digested != Digest.hexOfText wrongCall.request.digested) =
        true := by
      decide +kernel
    rw [bne_iff_ne] at hdigests
    simp [Digest.CollisionFree, hdigests, Ne.symm hdigests]
  have hwrong : ∃ problems, wrongCall.request.answer = .error problems := by
    have hnone : wrongCall.request.answer.toOption.isNone = true := by decide +kernel
    cases h : wrongCall.request.answer with
    | error problems => exact ⟨problems, rfl⟩
    | ok output => simp [h, Except.toOption] at hnone
  obtain ⟨problems, hproblems⟩ := hwrong
  obtain ⟨hresults, hfiles⟩ :=
    compileEach_transparent cacheTree ".cache" hempty [goodCall, wrongCall, goodCall] hfree
  exact ⟨by decide +kernel, hempty, hfree, hresults, hfiles [goodCall] wrongCall [goodCall] rfl problems hproblems⟩

end ViewTree
