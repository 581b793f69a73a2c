import SimpleStorage.Objects.Filing

/-!
# Operations keep rows and blobs together

Every operation on objects keeps to the protocol `filing`, whatever the others do meanwhile.
There is one lemma for each kind of step an operation takes (`generate_holds`,
`writeFile_holds`, `delete_holds`, …), then one for each operation, and each says what the
thread knows of the paths in its hands when it is done.

What a blob gives back when it is read with the descriptor of its row is `contentOf`.  It does not
change, so that what was written is what the row of a commit stands for.
-/

namespace SimpleStorage
namespace Filing

open ObjectsService ObjectsTypes Program Statements StorageService StorageTypes

variable {N : Node} {age : ℕ} {start : List Text} {i : ℕ} {v : Shared Event World}
  {α : Type} {path : Text}

/-! ## Steps that leave everything alone -/

/-- A thread's own steps are like those of others, if they claim nothing and leave the files. -/
theorem Goes.of_unclaimed {e : Option Event} {s : World} (he : e.bind claimOf = none)
    (hversions : ∀ r ∈ s.db.objectVersions, r ∈ v.state.db.objectVersions)
    (hparts : ∀ r ∈ s.db.multipartParts, r ∈ v.state.db.multipartParts)
    (hdisk : s.disk = v.state.disk) (hencryption : s.encryption = v.state.encryption)
    (hcalls : v.state.calls ≤ s.calls) : Goes N age start i v (v.after i e s) where
  record := ⟨_, rfl⟩
  versions r hr := Or.inl (hversions r hr)
  parts r hr := Or.inl (hparts r hr)
  later := later_after fun _ _ h => nomatch he.symm.trans h
  calls := hcalls
  encryption := hencryption
  unclaimed path _ hnot hclaimed := by
    rw [claimed_after, he] at hclaimed
    exact hnot (hclaimed.resolve_right fun ⟨_, h⟩ => nomatch h)
  held path blob _ _ hblob := Or.inl (by rw [Shared.state_after, hdisk]; exact hblob)
  content path blob _ hblob := by
    rw [Shared.state_after, hdisk] at hblob
    exact hblob

theorem Unnoticed.of_reading {e : Option Event} (he : ∀ x, e = some x → x.OfReading) {s : World} :
    Unnoticed i v e s where
  claimOf := by
    cases e with
    | none => rfl
    | some x =>
      have hx := he x rfl
      cases x <;> first | rfl | exact hx.elim
  wroteBlob path call h := he _ h
  startedSweep call h := (he _ h).elim
  computedCutOff call h := (he _ h).elim

/-- **What the others do not undo stays known** while a thread reads and draws. -/
theorem traceless_holds (known : Shared Event World → Prop)
    (hknown : ∀ v v', Goes N age start i v v' → known v → known v') {x : Service α}
    (hx : x.Every Traceless) (hv : known v) :
    (filing N age start).holds i x (fun _ => known) (fun _ => known) v := by
  refine Protocol.holds_of_stable known (fun event effect h v hv v' hrely hinv hpermits => ?_) hx hv
  have hv' := hknown _ _ hrely.1 hv
  cases h with
  | read h =>
    have he : Unnoticed i v' (event v'.state) v'.state := .of_reading fun x hx => h v'.state x hx
    have hstep := hinv.shrink hpermits he (.refl _) (.refl _) rfl rfl le_rfl
    exact ⟨hstep.moves, hstep.filed, hknown _ _
      (.of_unclaimed he.claimOf (fun _ h => h) (fun _ h => h) rfl rfl le_rfl) hv'⟩
  | draw =>
    have he : Unnoticed i v' none { v'.state with calls := v'.state.calls + 1 } :=
      ⟨rfl, nofun, nofun, nofun⟩
    have hstep := hinv.shrink hpermits he (.refl _) (.refl _) rfl rfl (Nat.le_succ _)
    exact ⟨hstep.moves, hstep.filed, hknown _ _
      (.of_unclaimed he.claimOf (fun _ h => h) (fun _ h => h) rfl rfl (Nat.le_succ _)) hv'⟩

/-- A read, and what it finds. -/
theorem observe_holds (event : World → Option Event) {f : World → α}
    (hevent : ∀ w x, event w = some x → x.OfReading) {post : α → Shared Event World → Prop}
    {fail : Fault → Shared Event World → Prop}
    (h : ∀ v', Goes N age start i v v' → Filed N age start v' →
      post (f v'.state) (v'.after i (event v'.state) v'.state)) :
    (filing N age start).holds i (Program.observe event f : Service α) post fail v := by
  rw [Protocol.holds_observe]
  intro v' hrely hinv hpermits
  have hstep := hinv.shrink hpermits (.of_reading fun x hx => hevent v'.state x hx) (.refl _) (.refl _)
    rfl rfl le_rfl
  exact ⟨hstep.moves, hstep.filed, h v' hrely.1 hinv⟩

theorem query_holds {f : World → α} {post : α → Shared Event World → Prop}
    {fail : Fault → Shared Event World → Prop}
    (h : ∀ v', Goes N age start i v v' → Filed N age start v' → post (f v'.state) v') :
    (filing N age start).holds i (Program.query f : Service α) post fail v :=
  observe_holds (fun _ => none) nofun h

/-- With nothing to keep in mind. -/
theorem reading_holds {x : Service α} (hx : x.Every Traceless) :
    (filing N age start).holds i x (fun _ _ => True) (fun _ _ => True) v :=
  traceless_holds (fun _ => True) (fun _ _ _ _ => trivial) hx trivial

/-- What is true of paths in use stays true whatever anyone does. -/
theorem frame_holds (known : Shared Event World → Prop)
    (hknown : ∀ v v', Rows start v v' → known v → known v') {x : Service α}
    {post : α → Shared Event World → Prop} {fail : Fault → Shared Event World → Prop}
    (h : (filing N age start).holds i x post fail v) (hv : known v) :
    (filing N age start).holds i x (fun a v' => post a v' ∧ known v')
      (fun e v' => fail e v' ∧ known v') v :=
  Protocol.holds_frame (P := filing N age start) (fun _ _ hrely => hknown _ _ hrely.1.toRows)
    (fun _ _ _ hguar => hknown _ _ hguar.toRows) h hv

/-! ## Writing a blob -/

variable (N) in
/-- What a blob gives back, read with a descriptor. -/
def contentOf (config : EncryptionConfig) (blob : Blob) : Option BlobEncryption → Option Bytes
  | none => some blob.content
  | some descriptor => (StorageCipher.openKey N config descriptor).map
      (StorageCipher.decrypt N · blob.content)

theorem payload_eq (config : EncryptionConfig) (disk : FileTable Text Blob) (path : Text)
    (encryption : Option BlobEncryption) :
    payload N config disk path encryption = (disk.get path).bind (contentOf N config · encryption) := by
  unfold payload
  cases disk.get path with
  | none => rfl
  | some blob => cases encryption <;> rfl

/-- **What is read of a path in use** is what its blob gives back, as the thread knows it. -/
theorem read_holds (hclaimed : Claimed start v.record path) (range : Option ReadRange)
    (encryption : Option BlobEncryption) :
    (filing N age start).holds i (StorageService.read N path range encryption)
      (fun result _ => ∃ blob content, v.state.disk.get path = some blob ∧
        contentOf N v.state.encryption blob encryption = some content ∧
        result.stream.interrupted = false ∧ result.stream.content = slice content range)
      (fun _ _ => True) v := by
  have hopened : ∀ (w : World) x, some (Event.openedBlob path) = some x → x.OfReading := by
    rintro w x ⟨⟩
    exact trivial
  rw [StorageService.read, Protocol.holds_bind]
  refine observe_holds _ hopened fun v₁ hgoes _ => ?_
  rw [Protocol.holds_bind, Protocol.holds_orThrow]
  refine ⟨fun blob hblob => ?_, fun _ => trivial⟩
  have hblob := hgoes.content path blob hclaimed hblob
  cases encryption with
  | none => exact ⟨blob, _, hblob, rfl, rfl, N.flatten_readChunks _⟩
  | some descriptor =>
    rw [Protocol.holds_bind]
    refine query_holds fun v₂ hgoes₂ _ => ?_
    rw [Protocol.holds_bind, hgoes₂.encryption, Shared.state_after, hgoes.encryption,
      Protocol.holds_orThrow]
    refine ⟨fun blobKey hblobKey => ⟨blob, StorageCipher.decrypt N blobKey blob.content, hblob, ?_, rfl,
      flatten_stages blobKey blob.content range⟩, fun _ => trivial⟩
    rw [contentOf, hblobKey, Option.map_some]

/-- A path that was just generated is nobody else's. -/
theorem generate_holds : (filing N age start).holds i (generateStoragePath N)
    (fun path v' => Reserved start i path v') (fun _ _ => True) v := by
  rw [generateStoragePath, Protocol.holds_bind, World.nextCallFor, Protocol.holds_perform]
  intro v' hrely hinv hpermits
  beta_reduce
  rw [Protocol.holds_pure]
  set path := storagePathOf (N.randomUUID v'.state.calls) with hpath
  have hunnoticed : Unnoticed i v' (some (.generatedPath path))
      { v'.state with calls := v'.state.calls + 1 } := ⟨rfl, by simp, by simp, by simp⟩
  have hstep := hinv.shrink hpermits hunnoticed (.refl _) (.refl _) rfl rfl (Nat.le_succ _)
  refine ⟨hstep.moves, hstep.filed, List.mem_cons_self, fun hclaimed => ?_⟩
  rw [claimed_after] at hclaimed
  have hunique := (hpermits _ rfl).1
  rcases hclaimed.resolve_right (by simp [claimOf]) with hmem | ⟨⟨j, x⟩, hx, call, hclaim⟩
  · exact hunique.2 path List.mem_cons_self hmem
  · -- Who claims a path has generated it before, and no path is generated twice.
    have hgenerated := (hinv.claimant j x path call hx hclaim).1
    exact (List.nodup_cons.mp hunique.1).1 (List.mem_filterMap.mpr ⟨_, hgenerated, rfl⟩)

/-- Writing a file of a path that is reserved. -/
theorem writeFile_holds (content : Bytes) (hpath : Reserved start i path v) :
    (filing N age start).holds i (writeFile N path content)
      (fun _ v' => ∃ blob, Held N age start i path blob v' ∧ blob.content = content)
      (fun _ _ => True) v := by
  rw [writeFile, Protocol.holds_perform]
  intro v' hrely hinv hpermits
  have hpath' := hpath.goes hrely.1
  have hstep := hinv.write hpermits hpath' content
  refine ⟨hstep.moves, hstep.filed, ⟨content, N.now v'.state.calls⟩, ⟨⟨?_, ?_⟩, ?_⟩, rfl⟩
  · exact List.mem_cons_of_mem _ hpath'.own
  · rw [claimed_after]
    exact fun h => hpath'.unclaimed (h.resolve_right fun ⟨_, h⟩ => nomatch h)
  · exact Or.inl FileTable.get_set_self

/-- Each new blob has a key of its own, if blobs are encrypted. -/
theorem newBlobKey_holds : (filing N age start).holds i (newBlobKey N)
    (fun blobKey v' => Opens N v'.state.encryption blobKey) (fun _ _ => True) v := by
  rw [newBlobKey, Protocol.holds_bind]
  refine query_holds fun v₁ _ _ => ?_
  cases v₁.state.encryption.enabled with
  | false =>
    intro _ h
    cases h
  | true =>
    rw [if_pos rfl, Protocol.holds_bind, StorageCipher.createKey, Protocol.holds_bind]
    refine Protocol.holds_mono (reading_holds nextCall_traceless) ?_ fun _ _ _ => trivial
    rintro t _ -
    rw [Protocol.holds_bind]
    refine Protocol.holds_mono (reading_holds nextCall_traceless) ?_ fun _ _ _ => trivial
    rintro t' _ -
    rw [Protocol.holds_bind]
    refine Protocol.holds_mono (reading_holds nextCall_traceless) ?_ fun _ _ _ => trivial
    rintro t'' _ -
    rw [Protocol.holds_bind]
    refine query_holds fun v₂ _ _ => ?_
    rw [Protocol.holds_pure, Protocol.holds_pure]
    intro key hkey
    obtain rfl := Option.some.inj hkey
    refine StorageCipher.openKey_wrap N rfl (fun h => ?_) (N.length_randomBytes _ _)
      (N.length_randomBytes _ _)
    have hlength := N.length_randomBytes t'' 12
    rw [h] at hlength
    cases hlength

theorem contentOf_of_opens {config : EncryptionConfig} {blobKey : Option BlobKey}
    (h : Opens N config blobKey) {blob : Blob} {chunks : List Bytes}
    (hblob : blob.content = (cipherStage N blobKey chunks).flatten) :
    contentOf N config blob (blobKey.map (·.descriptor)) = some chunks.flatten := by
  have hpayload := h.payload_set ⟨[]⟩ [] chunks blob.modifiedAt
  rw [payload_eq, FileTable.get_set_self, ← hblob] at hpayload
  exact hpayload

/-- A blob of a path that is reserved, or of one that is out of use, is removed. -/
theorem delete_holds (h : ∀ v', Goes N age start i v v' → Filed N age start v' →
    path ∉ namedPaths v'.state.db ∧
      (Reserved start i path v' ∨ Claimed start v'.record path ∨ Condemned N age v'.record path)) :
    (filing N age start).holds i (StorageService.delete path) (fun _ _ => True) (fun _ _ => True) v := by
  rw [StorageService.delete, Protocol.holds_perform]
  intro v' hrely hinv hpermits
  obtain ⟨hnamed, hfree⟩ := h v' hrely.1 hinv
  have hstep := hinv.remove hpermits hnamed hfree
  exact ⟨hstep.moves, hstep.filed, trivial⟩

theorem Reserved.delete_holds (h : Reserved start i path v) :
    (filing N age start).holds i (StorageService.delete path) (fun _ _ => True) (fun _ _ => True) v :=
  Filing.delete_holds fun _ hgoes hinv =>
    ⟨hinv.notMem_namedPaths (h.goes hgoes).unclaimed, Or.inl (h.goes hgoes)⟩

/-- Paths out of use stay so. -/
theorem Only.delete_holds (h : Retired start path v) :
    (filing N age start).holds i (StorageService.delete path) (fun _ _ => True) (fun _ _ => True) v :=
  Filing.delete_holds fun _ hgoes _ =>
    ⟨(h.rows hgoes.toRows).notMem_namedPaths, Or.inr (Or.inl (h.rows hgoes.toRows).claimed)⟩

theorem deleteBlobs_holds {paths : List Text} (h : ∀ path ∈ paths, Retired start path v) :
    (filing N age start).holds i (deleteBlobs paths) (fun _ _ => True) (fun _ _ => True) v := by
  rw [deleteBlobs]
  induction paths generalizing v with
  | nil => trivial
  | cons path paths ih =>
    change (filing N age start).holds i (StorageService.delete path >>= fun _ => deleteBlobs paths) _ _ v
    rw [Protocol.holds_bind]
    have hrest : ∀ path' ∈ paths, Retired start path' v := fun p hp => h p (List.mem_cons_of_mem _ hp)
    refine Protocol.holds_mono (frame_holds (fun v => ∀ path' ∈ paths, Retired start path' v)
      (fun _ _ hrows hknown p hp => (hknown p hp).rows hrows)
      (Only.delete_holds (h path List.mem_cons_self)) hrest) ?_ fun _ _ _ => trivial
    rintro - v' ⟨-, hknown⟩
    exact ih hknown

/-- A blob that was written holds what was sent, and is nobody else's. -/
structure WroteBlob (N : Node) (age : ℕ) (start : List Text) (i : ℕ) (content : Bytes)
    (written : WriteResult) (v : Shared Event World) : Prop where
  held : ∃ blob, Held N age start i written.storagePath blob v ∧
    contentOf N v.state.encryption blob written.encryption = some content

theorem WroteBlob.goes {content : Bytes} {written : WriteResult} {v' : Shared Event World}
    (h : WroteBlob N age start i content written v) (hgoes : Goes N age start i v v') :
    WroteBlob N age start i content written v' := by
  obtain ⟨blob, hheld, hcontent⟩ := h.held
  exact ⟨blob, hheld.goes hgoes, hgoes.encryption ▸ hcontent⟩

theorem WroteBlob.reserved {content : Bytes} {written : WriteResult}
    (h : WroteBlob N age start i content written v) : Reserved start i written.storagePath v :=
  h.held.elim fun _ h => h.1.toReserved

/-- The last step of a write. -/
theorem writeFile_wrote {blobKey : Option BlobKey} {chunks : List Bytes} {size : ℕ} {etag : Text}
    (hopens : Opens N v.state.encryption blobKey) (hpath : Reserved start i path v) :
    (filing N age start).holds i
      (do
        writeFile N path (cipherStage N blobKey chunks).flatten
        return (⟨path, size, etag, blobKey.map (·.descriptor)⟩ : WriteResult))
      (WroteBlob N age start i chunks.flatten) (fun _ _ => True) v := by
  rw [Protocol.holds_bind]
  refine Protocol.holds_mono (frame_holds (fun v' => v'.state.encryption = v.state.encryption)
    (fun _ _ hrows h => hrows.encryption.trans h) (writeFile_holds _ hpath) rfl) ?_ fun _ _ _ => trivial
  rintro - v' ⟨⟨blob, hheld, hcontent⟩, hencryption⟩
  refine ⟨blob, hheld, ?_⟩
  rw [hencryption]
  exact contentOf_of_opens hopens hcontent

/-- **A write leaves a new blob with what was sent**, or nothing. -/
theorem write_holds (source : Readable) (maxBytes : Option ℕ) :
    (filing N age start).holds i (StorageService.write N source maxBytes)
      (WroteBlob N age start i source.content) (fun _ _ => True) v := by
  rw [StorageService.write, Protocol.holds_bind]
  refine Protocol.holds_mono generate_holds ?_ fun _ _ _ => trivial
  intro path v₁ hpath
  rw [Protocol.holds_bind]
  refine Protocol.holds_mono (Protocol.holds_and (traceless_holds (Reserved start i path)
    (fun _ _ hgoes h => h.goes hgoes) newBlobKey_traceless hpath) newBlobKey_holds) ?_
    fun _ _ _ => trivial
  rintro blobKey v₂ ⟨hpath, hopens⟩
  by_cases hover : overflows maxBytes 0 source.chunks
  · rw [if_pos hover, Protocol.holds_bind]
    exact Protocol.holds_mono hpath.delete_holds (fun _ _ _ => trivial) fun _ _ _ => trivial
  · rw [if_neg hover]
    by_cases hinterrupted : source.interrupted
    · rw [if_pos hinterrupted, Protocol.holds_bind]
      exact Protocol.holds_mono hpath.delete_holds (fun _ _ _ => trivial) fun _ _ _ => trivial
    · rw [if_neg hinterrupted]
      exact writeFile_wrote hopens hpath

/-- **So does putting blobs together.** -/
theorem concat_holds (sources : List ConcatSource) :
    (filing N age start).holds i (concat N sources)
      (fun written v' => ∃ content, WroteBlob N age start i content written v') (fun _ _ => True) v := by
  rw [concat, Protocol.holds_bind]
  refine Protocol.holds_mono generate_holds ?_ fun _ _ _ => trivial
  intro path v₁ hpath
  rw [Protocol.holds_bind]
  refine Protocol.holds_mono (Protocol.holds_and (traceless_holds (Reserved start i path)
    (fun _ _ hgoes h => h.goes hgoes) newBlobKey_traceless hpath) newBlobKey_holds) ?_
    fun _ _ _ => trivial
  rintro blobKey v₂ ⟨hpath, hopens⟩
  -- The blob is written under the settings its key was made for.
  rw [Protocol.holds_bind, Protocol.holds_tryCatch]
  refine Protocol.holds_mono (traceless_holds
    (fun v => Reserved start i path v ∧ Opens N v.state.encryption blobKey)
    (fun _ _ hgoes h => ⟨h.1.goes hgoes, hgoes.encryption ▸ h.2⟩) (readAll_traceless sources)
    ⟨hpath, hopens⟩) ?_ ?_
  · rintro chunks v₃ ⟨hpath, hopens⟩
    exact Protocol.holds_mono (writeFile_wrote hopens hpath) (fun _ _ h => ⟨_, h⟩) fun _ _ _ => trivial
  · rintro err v₃ ⟨hpath, -⟩
    rw [Protocol.holds_bind]
    exact Protocol.holds_mono hpath.delete_holds (fun _ _ _ => trivial) fun _ _ _ => trivial

/-- Checks on what was written, after which it is kept or goes. -/
theorem checkWritten_holds (bucket : BucketContext) (contentMd5 : Option Text) {content : Bytes}
    {written : WriteResult} (h : WroteBlob N age start i content written v) :
    (filing N age start).holds i
      (tryCatch (do
        assertContentMd5 contentMd5 written.etag
        UsageService.assertQuota bucket.toQuotaTarget written.size) fun err => do
          StorageService.delete written.storagePath
          throw err)
      (fun _ => WroteBlob N age start i content written) (fun _ _ => True) v := by
  rw [Protocol.holds_tryCatch]
  refine Protocol.holds_mono (traceless_holds _ (fun _ _ hgoes h => WroteBlob.goes h hgoes)
    (.bind (.require _ _) fun _ => assertQuota_traceless _ _) h) (fun _ _ h => h) ?_
  intro err v' h'
  rw [Protocol.holds_bind]
  exact Protocol.holds_mono h'.reserved.delete_holds (fun _ _ _ => trivial) fun _ _ _ => trivial

/-! ## Rows -/

/-- Rows may go: what the step leaves on record is of no concern. -/
theorem shrink_holds (event : Option Event) {f : Database → α × Database}
    {post : α → Shared Event World → Prop} {fail : Fault → Shared Event World → Prop}
    (hevent : ∀ v s, Unnoticed i v event s)
    (hversions : ∀ db, (f db).2.objectVersions.Sublist db.objectVersions)
    (hparts : ∀ db, (f db).2.multipartParts.Sublist db.multipartParts)
    (h : ∀ v', Goes N age start i v v' → Filed N age start v' →
      Step N age start i v' event { v'.state with db := (f v'.state.db).2 } →
      post (f v'.state.db).1 (v'.after i event { v'.state with db := (f v'.state.db).2 })) :
    (filing N age start).holds i (Program.perform (fun _ => event) fun w =>
      ((f w.db).1, { w with db := (f w.db).2 }) : Service α) post fail v := by
  rw [Protocol.holds_perform]
  intro v' hrely hinv hpermits
  have hstep : Step N age start i v' event { v'.state with db := (f v'.state.db).2 } :=
    hinv.shrink hpermits (hevent _ _) (hversions _) (hparts _) rfl rfl le_rfl
  exact ⟨hstep.moves, hstep.filed, h v' hrely.1 hinv hstep⟩

theorem requireUpload_holds (bucketGuid : Guid) (uploadId : Text) :
    (filing N age start).holds i (requireUpload bucketGuid uploadId) (fun _ _ => True)
      (fun _ _ => True) v := by
  rw [requireUpload, Protocol.holds_bind, World.selectFor, Protocol.holds_observe]
  intro v' hrely hinv hpermits
  beta_reduce
  rw [Protocol.holds_orThrow]
  have hunnoticed : Unnoticed i v'
      ((findUpload bucketGuid uploadId v'.state.db).map (.requiredUpload ·.guid)) v'.state := by
    cases findUpload bucketGuid uploadId v'.state.db <;> exact ⟨rfl, by simp, by simp, by simp⟩
  have hstep := hinv.shrink hpermits hunnoticed (.refl _) (.refl _) rfl rfl le_rfl
  exact ⟨hstep.moves, hstep.filed, fun _ _ => trivial, fun _ => trivial⟩

theorem retire_holds (uploadGuid : Guid) (status : MultipartUploadStatus) :
    (filing N age start).holds i
      (World.executeFor (.retiredUpload uploadGuid) fun db => ((), setUploadStatus uploadGuid status db))
      (fun _ _ => True) (fun _ _ => True) v :=
  shrink_holds _ (f := fun db => ((), setUploadStatus uploadGuid status db))
    (fun _ _ => ⟨rfl, nofun, nofun, nofun⟩) (fun _ => .refl _) (fun _ => .refl _) fun _ _ _ _ => trivial

/-- The path of a part of an upload. -/
theorem Filed.only_partOf (hv : Filed N age start v) {uploadGuid : Guid} {p : MultipartPartRow}
    (hp : p ∈ partsOf uploadGuid v.state.db) :
    Only start (fun _ => False) (·.uploadGuid = uploadGuid) p.storagePath v := by
  obtain ⟨hmem, hguid⟩ := List.mem_filter.mp hp
  obtain ⟨hclaimed, hversions, hparts⟩ := hv.only_part hmem
  exact ⟨hclaimed, hversions, fun q hq hqpath => by rw [hparts q hq hqpath, of_decide_eq_true hguid]⟩

/-- The parts of an upload go, and their paths with them. -/
theorem dropParts_holds (uploadGuid : Guid) {paths : List Text} (h : ∀ path ∈ paths,
      Only start (fun _ => False) (·.uploadGuid = uploadGuid) path v) :
    (filing N age start).holds i
      (World.executeFor (.droppedParts uploadGuid) fun db => ((), deleteParts uploadGuid db))
      (fun _ v' => ∀ path ∈ paths, Retired start path v') (fun _ _ => True) v :=
  shrink_holds _ (f := fun db => ((), deleteParts uploadGuid db)) (fun _ _ => ⟨rfl, nofun, nofun, nofun⟩)
    (fun _ => .refl _) (fun _ => List.filter_sublist) fun _ hgoes _ hstep path hpath =>
      ((h path hpath).rows hgoes.toRows).retired_deleteParts hstep

theorem commitVersion_holds (bucket : BucketContext) (key versionId : Text) (values : VersionValues)
    (hheld : ∀ path, values.storagePath = some path → ∃ blob, Held N age start i path blob v) :
    (filing N age start).holds i (commitVersion N bucket key versionId values)
      (fun replaced v' => ∀ path ∈ replaced, Retired start path v') (fun _ _ => True) v := by
  rw [ObjectsService.commitVersion, World.insertFor, Protocol.holds_perform]
  intro v' hrely hinv hpermits
  have hheld' : ∀ path, values.storagePath = some path → ∃ blob, Held N age start i path blob v' :=
    fun path hpath => (hheld path hpath).imp fun blob h => h.goes hrely.1
  have hstep := hinv.commit bucket.guid key versionId values hpermits hheld'
  exact ⟨hstep.moves, hstep.filed, hinv.retired_commit hstep fun path hpath =>
    (hheld' path hpath).elim fun _ h => h.unclaimed⟩

theorem put_holds (params : PutObjectParams) :
    (filing N age start).holds i (put N params) (fun _ _ => True) (fun _ _ => True) v := by
  rw [put, Protocol.holds_bind]
  refine Protocol.holds_mono (reading_holds (.require _ _)) ?_ fun _ _ _ => trivial
  rintro - v₁ -
  rw [Protocol.holds_bind]
  refine Protocol.holds_mono (reading_holds (.require _ _)) ?_ fun _ _ _ => trivial
  rintro - v₂ -
  rw [Protocol.holds_bind]
  refine Protocol.holds_mono (reading_holds (assertQuota_traceless _ _)) ?_ fun _ _ _ => trivial
  rintro - v₃ -
  rw [Protocol.holds_bind]
  refine Protocol.holds_mono (write_holds _ _) ?_ fun _ _ _ => trivial
  intro written v₄ hwrote
  rw [Protocol.holds_bind]
  refine Protocol.holds_mono (checkWritten_holds _ _ hwrote) ?_ fun _ _ _ => trivial
  rintro - v₅ hwrote
  rw [Protocol.holds_bind]
  refine Protocol.holds_mono (traceless_holds _ (fun _ _ hgoes h => WroteBlob.goes h hgoes)
    (nextVersionId_traceless _) hwrote) ?_ fun _ _ _ => trivial
  intro versionId v₆ hwrote
  rw [Protocol.holds_bind]
  refine Protocol.holds_mono (commitVersion_holds _ _ _ _ ?_) ?_ fun _ _ _ => trivial
  · rintro path ⟨⟩
    exact hwrote.held.imp fun _ h => h.1
  · intro replaced v₇ hreplaced
    rw [Protocol.holds_bind]
    exact Protocol.holds_mono (deleteBlobs_holds hreplaced) (fun _ _ _ => trivial) fun _ _ _ => trivial

theorem copy_holds (source : ObjectVersionDetail) (target : BucketContext) (key : Text)
    (directive : MetadataDirective) (accessKeyId : Option Text) (headers : ObjectHeaders) :
    (filing N age start).holds i (copy N source target key directive accessKeyId headers)
      (fun _ _ => True) (fun _ _ => True) v := by
  rw [copy, Protocol.holds_bind]
  refine Protocol.holds_mono (reading_holds (.orThrow _ _)) ?_ fun _ _ _ => trivial
  rintro storagePath v₁ -
  rw [Protocol.holds_bind]
  refine Protocol.holds_mono (reading_holds (read_traceless _ _ _)) ?_ fun _ _ _ => trivial
  rintro payload v₂ -
  rw [Protocol.holds_bind]
  refine Protocol.holds_mono (put_holds _) ?_ fun _ _ _ => trivial
  rintro result v₃ -
  exact reading_holds (.bind nextCall_traceless fun _ => .pure _)

/-- A part is stored, and the one it replaces goes. -/
theorem storePart_holds (bucketGuid : Guid) (row : ℕ → MultipartPartRow) {uploadGuid : Guid}
    {partNumber : ℤ} {storagePath : Text} {size : ℕ} {blob : Blob} {previous : List Text}
    (hrow : ∀ call, (row call).uploadGuid = uploadGuid ∧ (row call).partNumber = partNumber ∧
      (row call).storagePath = storagePath ∧ (row call).size = size)
    (hheld : Held N age start i storagePath blob v) (hprevious : ∀ path ∈ previous,
      Only start (fun _ => False) (fun p => (p.uploadGuid, p.partNumber) = (uploadGuid, partNumber))
        path v) :
    (filing N age start).holds i
      (World.insertFor (fun call => some (.storedPart bucketGuid uploadGuid storagePath size call))
        fun call db => ((), upsertPart (row call) db))
      (fun _ v' => ∀ path ∈ previous, Retired start path v') (fun _ _ => True) v := by
  rw [World.insertFor, Protocol.holds_perform]
  intro v' hrely hinv hpermits
  obtain ⟨hguid, hnumber, hpath, hsize⟩ := hrow v'.state.calls
  have hheld' := hheld.goes hrely.1
  have hstep : Step N age start i v' _ _ := hinv.storePart bucketGuid (row v'.state.calls)
    (by rw [hguid, hpath, hsize]; exact hpermits) ⟨blob, by rw [hpath]; exact hheld'⟩
  rw [hguid, hpath, hsize] at hstep
  refine ⟨hstep.moves, hstep.filed, fun path hmem => ?_⟩
  refine Only.retired_upsertPart hinv ?_ ?_ hstep
  · rw [hguid, hnumber]
    exact (hprevious path hmem).rows hrely.1.toRows
  · rw [hpath]
    exact hheld'.unclaimed

theorem uploadPart_holds (bucket : BucketContext) (uploadId : Text) (partNumber : ℤ) (stream : Readable)
    (contentMd5 : Option Text) (declaredLength maxBytes : Option ℕ) :
    (filing N age start).holds i
      (uploadPart N bucket uploadId partNumber stream contentMd5 declaredLength maxBytes)
      (fun _ _ => True) (fun _ _ => True) v := by
  rw [uploadPart, Protocol.holds_bind]
  refine Protocol.holds_mono (requireUpload_holds _ _) ?_ fun _ _ _ => trivial
  rintro upload v₁ -
  rw [Protocol.holds_bind]
  refine Protocol.holds_mono (reading_holds (.require _ _)) ?_ fun _ _ _ => trivial
  rintro - v₂ -
  rw [Protocol.holds_bind]
  refine Protocol.holds_mono (reading_holds (.require _ _)) ?_ fun _ _ _ => trivial
  rintro - v₃ -
  rw [Protocol.holds_bind]
  refine Protocol.holds_mono (reading_holds (assertQuota_traceless _ _)) ?_ fun _ _ _ => trivial
  rintro - v₄ -
  rw [Protocol.holds_bind]
  refine Protocol.holds_mono (write_holds _ _) ?_ fun _ _ _ => trivial
  intro written v₅ hwrote
  rw [Protocol.holds_bind]
  refine Protocol.holds_mono (checkWritten_holds _ _ hwrote) ?_ fun _ _ _ => trivial
  rintro - v₆ hwrote
  rw [Protocol.holds_bind]
  refine query_holds fun v₇ hgoes hinv => ?_
  have hprevious : ∀ path ∈ ((findPart upload.guid partNumber v₇.state.db).map (·.storagePath)).toList,
      Only start (fun _ => False)
        (fun p => (p.uploadGuid, p.partNumber) = (upload.guid, partNumber)) path v₇ := by
    intro path hpath
    obtain ⟨p, hp, rfl⟩ := Option.map_eq_some_iff.mp (Option.mem_toList.mp hpath)
    obtain ⟨hmem, hguid, hnumber⟩ := (findPart_eq_some hinv.partKeys).mp hp
    obtain ⟨hclaimed, hversions, hparts⟩ := hinv.only_part hmem
    exact ⟨hclaimed, hversions, fun q hq hqpath => by rw [hparts q hq hqpath, hguid, hnumber]⟩
  obtain ⟨blob, hheld, -⟩ := (hwrote.goes hgoes).held
  rw [Protocol.holds_bind]
  refine Protocol.holds_mono (storePart_holds bucket.guid _
    (fun _ => ⟨rfl, rfl, rfl, rfl⟩) hheld hprevious) ?_ fun _ _ _ => trivial
  intro _ v₈ hretired
  rw [Protocol.holds_bind]
  exact Protocol.holds_mono (deleteBlobs_holds hretired) (fun _ _ _ => trivial) fun _ _ _ => trivial

theorem deleteVersion_holds (objectGuid : Guid) (versionId : Text) :
    (filing N age start).holds i (deleteVersion objectGuid versionId) (fun _ _ => True)
      (fun _ _ => True) v := by
  rw [deleteVersion, Protocol.holds_bind]
  refine query_holds fun v₁ _ hinv => ?_
  rw [Protocol.holds_bind, Protocol.holds_orThrow]
  refine ⟨fun version hversion => ?_, fun _ => trivial⟩
  have hmem := List.mem_of_find?_eq_some hversion
  have honly : ∀ path ∈ (Query.present version.storagePath).toList,
      Only start (·.guid = version.guid) (fun _ => False) path v₁ := by
    intro path hpath
    have hsome := (Query.present_eq_some_iff.mp (Option.mem_toList.mp hpath)).1
    obtain ⟨hclaimed, hversions, hparts⟩ := hinv.only_version hmem hsome
    exact ⟨hclaimed, fun r hr hrpath => by rw [hversions r hr hrpath], hparts⟩
  rw [Protocol.holds_bind]
  refine shrink_holds none (f := fun db => ((), removeVersion objectGuid version.guid db))
    (fun _ _ => ⟨rfl, nofun, nofun, nofun⟩) (fun db => ?_) (fun db => ?_) fun v₂ hgoes _ hstep => ?_
  · have hversions : (removeVersion objectGuid version.guid db).objectVersions = _ :=
      removeVersion_objectVersions objectGuid version.guid
    rw [hversions]
    exact List.filter_sublist
  · obtain ⟨objects, objectVersions, hframe⟩ : ∃ objects objectVersions,
        removeVersion objectGuid version.guid db = { db with objects, objectVersions } :=
      removeVersion_frame objectGuid version.guid
    rw [hframe]
  · rw [Protocol.holds_bind]
    refine Protocol.holds_mono (deleteBlobs_holds fun path hpath => ?_) (fun _ _ _ => trivial)
      fun _ _ _ => trivial
    exact ((honly path hpath).rows hgoes.toRows).retired_removeVersion hstep

/-- A key goes with all its versions. -/
theorem purge_holds (objectGuid : Guid) :
    (filing N age start).holds i (World.execute (purgeObject objectGuid))
      (fun paths v' => ∀ path ∈ paths, Retired start path v') (fun _ _ => True) v :=
  shrink_holds none (f := purgeObject objectGuid) (fun _ _ => ⟨rfl, nofun, nofun, nofun⟩)
    (fun _ => List.filter_sublist) (fun _ => .refl _) fun _ _ hinv hstep => hinv.retired_purge hstep

theorem abortMultipartUpload_holds (bucketGuid : Guid) (uploadId : Text) :
    (filing N age start).holds i (abortMultipartUpload bucketGuid uploadId) (fun _ _ => True)
      (fun _ _ => True) v := by
  rw [abortMultipartUpload, Protocol.holds_bind]
  refine Protocol.holds_mono (requireUpload_holds _ _) ?_ fun _ _ _ => trivial
  rintro upload v₁ -
  rw [Protocol.holds_bind]
  refine query_holds fun v₂ _ hinv => ?_
  have honly : ∀ path ∈ (partsOf upload.guid v₂.state.db).map (·.storagePath),
      Only start (fun _ => False) (·.uploadGuid = upload.guid) path v₂ := by
    intro path hpath
    obtain ⟨p, hp, rfl⟩ := List.mem_map.mp hpath
    exact hinv.only_partOf hp
  rw [Protocol.holds_bind]
  refine Protocol.holds_mono (dropParts_holds _ honly) ?_ fun _ _ _ => trivial
  intro _ v₃ hretired
  rw [Protocol.holds_bind]
  refine Protocol.holds_mono (frame_holds (fun v => ∀ path ∈ _, Retired start path v)
    (fun _ _ hrows h path hpath => (h path hpath).rows hrows) (retire_holds _ _) hretired) ?_
    fun _ _ _ => trivial
  rintro - v₄ ⟨-, hretired⟩
  exact deleteBlobs_holds hretired

theorem createMultipartUpload_holds (bucket : BucketContext) (key : Text) (accessKeyId : Option Text)
    (headers : ObjectHeaders) :
    (filing N age start).holds i (createMultipartUpload N bucket key accessKeyId headers)
      (fun _ _ => True) (fun _ _ => True) v := by
  rw [createMultipartUpload, Protocol.holds_bind]
  refine Protocol.holds_mono (reading_holds nextCall_traceless) ?_ fun _ _ _ => trivial
  rintro t v₁ -
  rw [Protocol.holds_bind, World.insertFor, Protocol.holds_perform]
  intro v₂ hrely hinv hpermits
  have hstep := hinv.shrink (s := { v₂.state with
      db := insertUpload {
        guid := v₂.state.calls
        uploadId := Codec.base64url.encode (N.randomBytes t 24)
        bucketGuid := bucket.guid
        key
        headers := toVersionColumns headers
        initiatedByAccessKeyId := accessKeyId
        createdAt := N.now v₂.state.calls } v₂.state.db
      calls := v₂.state.calls + 1 }) hpermits ⟨rfl, by simp, by simp, by simp⟩ (.refl _)
    (.refl _) rfl rfl (Nat.le_succ _)
  exact ⟨hstep.moves, hstep.filed, trivial⟩

theorem delete_operation_holds (bucket : BucketContext) (key : Text)
    (versionId accessKeyId : Option Text) :
    (filing N age start).holds i (ObjectsService.delete N bucket key versionId accessKeyId)
      (fun _ _ => True) (fun _ _ => True) v := by
  rw [ObjectsService.delete, Protocol.holds_bind]
  refine query_holds fun v₁ _ _ => ?_
  cases findObject bucket.guid key v₁.state.db with
  | none => trivial
  | some found =>
    cases Query.present versionId with
    | some versionId => exact deleteVersion_holds _ _
    | none =>
      dsimp only
      by_cases hdisabled : bucket.versioning = .disabled
      · rw [if_pos hdisabled, Protocol.holds_bind]
        refine Protocol.holds_mono (purge_holds _) ?_ fun _ _ _ => trivial
        intro paths v₂ hretired
        rw [Protocol.holds_bind]
        exact Protocol.holds_mono (deleteBlobs_holds hretired) (fun _ _ _ => trivial)
          fun _ _ _ => trivial
      · rw [if_neg hdisabled, Protocol.holds_bind]
        refine Protocol.holds_mono (reading_holds (nextVersionId_traceless _)) ?_ fun _ _ _ => trivial
        rintro markerVersionId v₂ -
        rw [Protocol.holds_bind]
        refine Protocol.holds_mono (commitVersion_holds _ _ _ _ (by simp)) ?_ fun _ _ _ => trivial
        intro replaced v₃ hreplaced
        rw [Protocol.holds_bind]
        exact Protocol.holds_mono (deleteBlobs_holds hreplaced) (fun _ _ _ => trivial)
          fun _ _ _ => trivial

theorem completeMultipartUpload_holds (bucket : BucketContext) (uploadId : Text)
    (parts : List CompletePart) :
    (filing N age start).holds i (completeMultipartUpload N bucket uploadId parts) (fun _ _ => True)
      (fun _ _ => True) v := by
  rw [completeMultipartUpload, Protocol.holds_bind]
  refine Protocol.holds_mono (requireUpload_holds _ _) ?_ fun _ _ _ => trivial
  rintro upload v₁ -
  rw [Protocol.holds_bind]
  refine Protocol.holds_mono (reading_holds (.require _ _)) ?_ fun _ _ _ => trivial
  rintro - v₂ -
  rw [Protocol.holds_bind]
  refine query_holds fun v₃ _ hinv => ?_
  -- Only parts of the upload may have the paths of the stored parts from now on.
  have honly : ∀ path ∈ (orderedParts upload.guid v₃.state.db).map (·.storagePath),
      Only start (fun _ => False) (·.uploadGuid = upload.guid) path v₃ := by
    intro path hpath
    obtain ⟨p, hp, rfl⟩ := List.mem_map.mp hpath
    exact hinv.only_partOf ((List.mem_insertionSort _).mp hp)
  generalize orderedParts upload.guid v₃.state.db = stored at honly ⊢
  generalize stored.map (·.storagePath) = paths at honly ⊢
  cases matchRequestedParts stored none parts with
  | error err => trivial
  | ok ordered =>
    dsimp only
    rw [Protocol.holds_bind, Protocol.holds_pure, Protocol.holds_bind]
    refine Protocol.holds_mono (frame_holds
      (fun v => ∀ path ∈ paths, Only start (fun _ => False)
        (·.uploadGuid = upload.guid) path v)
      (fun _ _ hrows h path hpath => (h path hpath).rows hrows) (concat_holds _) honly) ?_
      fun _ _ _ => trivial
    rintro written v₄ ⟨⟨content, hwrote⟩, honly⟩
    rw [Protocol.holds_bind]
    refine Protocol.holds_mono (traceless_holds
      (fun v => WroteBlob N age start i content written v ∧
        ∀ path ∈ paths, Only start (fun _ => False)
          (·.uploadGuid = upload.guid) path v)
      (fun _ _ hgoes h => ⟨h.1.goes hgoes, fun path hpath => (h.2 path hpath).rows hgoes.toRows⟩)
      (nextVersionId_traceless _) ⟨hwrote, honly⟩) ?_ fun _ _ _ => trivial
    rintro versionId v₅ ⟨hwrote, honly⟩
    rw [Protocol.holds_bind]
    refine Protocol.holds_mono (frame_holds
      (fun v => ∀ path ∈ paths, Only start (fun _ => False)
        (·.uploadGuid = upload.guid) path v)
      (fun _ _ hrows h path hpath => (h path hpath).rows hrows)
      (commitVersion_holds _ _ _ _ ?_) honly) ?_ fun _ _ _ => trivial
    · rintro path ⟨⟩
      exact hwrote.held.imp fun _ h => h.1
    rintro replaced v₆ ⟨hreplaced, honly⟩
    rw [Protocol.holds_bind]
    refine Protocol.holds_mono (frame_holds
      (fun v => (∀ path ∈ replaced, Retired start path v) ∧
        ∀ path ∈ paths, Only start (fun _ => False)
          (·.uploadGuid = upload.guid) path v)
      (fun _ _ hrows h => ⟨fun path hpath => (h.1 path hpath).rows hrows,
        fun path hpath => (h.2 path hpath).rows hrows⟩)
      (retire_holds _ _) ⟨hreplaced, honly⟩) ?_ fun _ _ _ => trivial
    rintro - v₇ ⟨-, hreplaced, honly⟩
    rw [Protocol.holds_bind]
    refine Protocol.holds_mono (frame_holds (fun v => ∀ path ∈ replaced, Retired start path v)
      (fun _ _ hrows h path hpath => (h path hpath).rows hrows) (dropParts_holds _ honly) hreplaced) ?_
      fun _ _ _ => trivial
    rintro - v₈ ⟨hstored, hreplaced⟩
    rw [Protocol.holds_bind]
    refine Protocol.holds_mono (deleteBlobs_holds fun path hpath => ?_) (fun _ _ _ => trivial)
      fun _ _ _ => trivial
    exact (List.mem_append.mp hpath).elim (hstored path) (hreplaced path)

/-- **Every request about objects keeps rows and blobs together.** -/
theorem request_holds (request : ObjectRequest) :
    (filing N age start).holds i (request.program N) (fun _ _ => True) (fun _ _ => True) v := by
  have hdone {β : Type} {x : Service β} (h : (filing N age start).holds i x (fun _ _ => True)
      (fun _ _ => True) v) :
      (filing N age start).holds i (x >>= fun _ => pure ()) (fun _ _ => True) (fun _ _ => True) v := by
    rw [Protocol.holds_bind]
    exact h
  cases request with
  | put params => exact hdone (put_holds _)
  | copy source target key directive accessKeyId headers =>
    exact hdone (copy_holds _ _ _ _ _ _)
  | delete bucket key versionId accessKeyId => exact hdone (delete_operation_holds _ _ _ _)
  | create bucket key accessKeyId headers => exact hdone (createMultipartUpload_holds _ _ _ _)
  | uploadPart bucket uploadId partNumber stream contentMd5 declaredLength maxBytes =>
    exact hdone (uploadPart_holds _ _ _ _ _ _ _)
  | complete bucket uploadId parts => exact hdone (completeMultipartUpload_holds _ _ _)
  | abort bucketGuid uploadId => exact abortMultipartUpload_holds _ _

end Filing
end SimpleStorage
