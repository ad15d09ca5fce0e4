import ViewTree.Cache
import ViewTree.Options.Config
import ViewTree.Proofs.Json.RoundTrip
import ViewTree.Proofs.Json.Spared

/-!
# Entries of the cache

An entry is read back from its text (`parseEntry_entryJson`), and so are options from
theirs. Since the text of a document holds no zero character, what is digested for an
entry tells the document and the options (`hashedText_inj`).
-/

namespace ViewTree

open Json (Reads)
open Json.RecordShape (Fills)

/-! ## Options -/

namespace Options

theorem readPlatform_reads (platform : Option Platform) {json : Json}
    (h : json = platform.elim .null fun p => .string p.name) : Reads readPlatform json.render.toList platform := by
  subst h
  cases platform with
  | none => exact ⟨⟨_, _, rfl, by decide⟩, fun rest => rfl⟩
  | some p =>
    have hlookup : Platform.names.lookup p.name = some p := by cases p <;> rfl
    have hchoice := Json.readChoice_reads hlookup
    refine ⟨hchoice.start, fun rest => ?_⟩
    have hopen : readPlatform ((Json.quote p.name).toList ++ rest) =
        (Json.readChoice Platform.names ((Json.quote p.name).toList ++ rest)).map fun read => (some read.1, read.2) := by
      rw [Json.toList_quote]
      rfl
    exact hopen.trans (by rw [hchoice.ok]; rfl)

/-- Options are read back from their text. -/
theorem reads_toJson (options : Options) :
    Reads (shape.readRecord {}) options.toJson.render.toList options :=
  Json.RecordShape.readRecord_fills
    (.part (fun platform => { platform }) rfl rfl (fun _ => rfl)
      (readPlatform_reads options.platform (by cases options.platform <;> rfl))
    (.part (fun s => { platform := options.platform, runtimeModule := s }) rfl rfl (fun _ => rfl)
      (Json.readText_reads options.runtimeModule)
    (.part (fun s => { platform := options.platform, runtimeModule := options.runtimeModule, componentDir := s })
      rfl rfl (fun _ => rfl) (Json.readText_reads options.componentDir)
    (.part (fun s => { options with styleDir := s, parallel := true }) rfl rfl (fun _ => rfl)
      (Json.readText_reads options.styleDir)
    (.part (fun b => { options with parallel := b }) rfl rfl (fun _ => rfl) (Json.readBool_reads options.parallel)
    (.done _ _))))))

theorem render_toJson_injective {options options' : Options} (h : options.toJson.render = options'.toJson.render) :
    options = options' := by
  have hread := (reads_toJson options).ok []
  rw [h, (reads_toJson options').ok []] at hread
  injection hread with hpair
  exact (congrArg Prod.fst hpair).symm

end Options

namespace Cache

/-! ## Entries -/

theorem readArtifact_reads (f : Artifact) : Reads readArtifact (artifactJson f).render.toList f := by
  have hkind : ArtifactKind.names.lookup f.kind.name = some f.kind := by cases f.kind <;> rfl
  have hdraft : Reads (artifactShape.readRecord {}) (artifactJson f).render.toList
      ⟨some f.path, some f.kind, some f.contents⟩ :=
    Json.RecordShape.readRecord_fills
      (.part (fun s => ⟨some s, none, none⟩) rfl rfl (fun _ => rfl) (Json.readText_reads f.path)
      (.part (fun k => ⟨some f.path, some k, none⟩) rfl rfl (fun _ => rfl) (Json.readChoice_reads hkind)
      (.part (fun s => ⟨some f.path, some f.kind, some s⟩) rfl rfl (fun _ => rfl) (Json.readText_reads f.contents)
      (.done _ _))))
  refine ⟨hdraft.start, fun rest => ?_⟩
  unfold readArtifact
  rw [hdraft.ok, Json.ok_bind]
  rfl

theorem readFiles_reads (files : List Artifact) :
    Reads (Json.readList readArtifact) (Json.render (.array (files.map artifactJson))).toList files := by
  have hitems : Json.renderItems (files.map artifactJson) = files.map fun f => (artifactJson f).render := by
    induction files with
    | nil => rfl
    | cons f files ih => rw [List.map_cons, Json.renderItems, ih, List.map_cons]
  rw [Json.render, hitems]
  refine Json.readList_reads ?_
  rw [List.map_map, List.forall₂_map_left_iff, List.forall₂_same]
  exact fun f _ => readArtifact_reads f

theorem readOutput_reads (o : Output) : Reads readOutput (outputJson o).render.toList o := by
  have hplatform : Platform.names.lookup o.platform.name = some o.platform := by cases o.platform <;> rfl
  have hdraft : Reads (outputShape.readRecord {}) (outputJson o).render.toList
      ⟨some o.platform, some o.files, some o.fingerprint⟩ :=
    Json.RecordShape.readRecord_fills
      (.part (fun p => ⟨some p, none, none⟩) rfl rfl (fun _ => rfl) (Json.readChoice_reads hplatform)
      (.part (fun fs => ⟨some o.platform, some fs, none⟩) rfl rfl (fun _ => rfl) (readFiles_reads o.files)
      (.part (fun s => ⟨some o.platform, some o.files, some s⟩) rfl rfl (fun _ => rfl)
        (Json.readText_reads o.fingerprint)
      (.done _ _))))
  refine ⟨hdraft.start, fun rest => ?_⟩
  unfold readOutput
  rw [hdraft.ok, Json.ok_bind]
  rfl

theorem readEntry_reads (e : CacheEntry) : Reads readEntry (entryJson e).render.toList e := by
  have hdraft : Reads (entryShape.readRecord {}) (entryJson e).render.toList ⟨some e.hash, some e.output⟩ :=
    Json.RecordShape.readRecord_fills
      (.part (fun s => ⟨some s, none⟩) rfl rfl (fun _ => rfl) (Json.readText_reads e.hash)
      (.part (fun o => ⟨some e.hash, some o⟩) rfl rfl (fun _ => rfl) (readOutput_reads e.output)
      (.done _ _)))
  refine ⟨hdraft.start, fun rest => ?_⟩
  unfold readEntry
  rw [hdraft.ok, Json.ok_bind]
  rfl

/-- An entry is read back from its text. -/
theorem parseEntry_entryJson (e : CacheEntry) : parseEntry (entryJson e).render = some e := by
  have hread := (readEntry_reads e).ok []
  rw [List.append_nil] at hread
  unfold parseEntry Json.readWhole
  rw [hread]
  rfl

/-! ## Digests -/

/-- What is digested tells a document from another, and options from others. -/
theorem hashedText_inj {text text' : String} {options options' : Options} {value value' : Json}
    (htext : Json.parse text = .ok value) (htext' : Json.parse text' = .ok value')
    (h : hashedText text options = hashedText text' options') : text = text' ∧ options = options' := by
  obtain ⟨htexts, hoptions⟩ := Text.append_zero_inj (Json.parse_zero htext) (Json.parse_zero htext') h
  exact ⟨htexts, Options.render_toJson_injective hoptions⟩

end Cache

end ViewTree
