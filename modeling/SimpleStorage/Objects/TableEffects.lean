import SimpleStorage.Objects.UploadOperations

/-!
# What the operations do to the tables

Each operation runs at most one transaction, or closes one upload; whatever else it does
is confined to blobs.  Here an operation is described by what becomes of the tables, for
any deployment and whatever its store looks like.

* `put_tables`, `copy_tables`: a version committed; `put_sized` and its companions say of what size;
* `delete_tables`: a version removed, a key dropped or a delete marker committed;
* `createMultipartUpload_tables`, `uploadPart_tables`, `abortMultipartUpload_tables`,
  `completeMultipartUpload_tables`: an upload inserted, a part stored, an upload closed.

What the operations keep that are made of others follows from what those keep
(`copyKeys_keeps` and its companions).
-/

namespace SimpleStorage
namespace ObjectsService

open ObjectsTypes Program Statements StorageService

variable {N : Node}

/-! ## What leaves the tables alone -/

theorem deleteBlobs_tables (paths : List Text) (w : World) :
    wp (deleteBlobs paths) (fun _ w' => w'.db = w.db) (fun _ _ => False) w :=
  wp_forM (fun (_ : List Text) (w' : World) => w'.db = w.db) (fun _ _ _ h => h) rfl

theorem nextVersionId_tables (versioning : BucketVersioning) (w : World) :
    wp (nextVersionId N versioning)
      (fun versionId w' => w'.db = w.db ∧ w.calls ≤ w'.calls ∧
        (versionId = nullVersionId ↔ versioning ≠ .enabled))
      (fun _ _ => False) w := by
  cases versioning with
  | disabled => exact ⟨rfl, le_rfl, iff_of_true rfl nofun⟩
  | suspended => exact ⟨rfl, le_rfl, iff_of_true rfl nofun⟩
  | enabled => exact ⟨rfl, Nat.le_succ _, iff_of_false (hex_randomBytes_ne_null _) (not_not.mpr rfl)⟩

theorem concat_tables (sources : List ConcatSource) (w : World) :
    wp (concat N sources)
      (fun r w' => w'.db = w.db ∧ w.calls ≤ w'.calls ∧ r.storagePath = pathAt N w.calls)
      (fun _ w' => w'.db = w.db) w := by
  rw [concat, wp_bind, generateStoragePath, wp_bind, wp_nextCallFor, wp_pure, wp_bind]
  refine wp_mono (newBlobKey_spec _) ?_ fun _ _ h => h.elim
  rintro blobKey _ ⟨n, -, rfl, -⟩
  rw [wp_bind, wp_tryCatch]
  refine wp_mono ((readAll_readOnly N sources).wp_same _) ?_ ?_
  · rintro chunks w' rfl
    refine ⟨rfl, ?_, rfl⟩
    change w.calls ≤ w.calls + 1 + n + 1
    omega
  · rintro e w' rfl
    exact rfl

/-! ## Committing a version -/

/-- A version of a key was committed, with a payload of its own or as a delete marker. -/
def CommitsVersion (w : World) (bucket : BucketContext) (key : Text) (storagePath : Option Text)
    (db' : Database) : Prop :=
  ∃ call versionId values, w.calls ≤ call ∧
    (versionId = nullVersionId ∨ bucket.versioning = .enabled) ∧ values.storagePath = storagePath ∧
    db' = (Statements.commitVersion call (N.now call) bucket.guid key versionId values w.db).2

/-- A version of this size was committed. -/
def CommitsSized (w : World) (bucket : BucketContext) (key : Text) (storagePath : Option Text) (size : ℕ)
    (db' : Database) : Prop :=
  ∃ call versionId values, w.calls ≤ call ∧
    (versionId = nullVersionId ↔ bucket.versioning ≠ .enabled) ∧ values.storagePath = storagePath ∧
    values.size = size ∧
    db' = (Statements.commitVersion call (N.now call) bucket.guid key versionId values w.db).2

theorem CommitsSized.commitsVersion {w : World} {bucket : BucketContext} {key : Text}
    {storagePath : Option Text} {size : ℕ} {db' : Database}
    (h : CommitsSized (N := N) w bucket key storagePath size db') :
    CommitsVersion (N := N) w bucket key storagePath db' := by
  obtain ⟨call, versionId, values, hcall, hid, hpath, -, hdb⟩ := h
  refine ⟨call, versionId, values, hcall, ?_, hpath, hdb⟩
  rw [hid]
  exact (ne_or_eq _ _)

/-- Naming, committing and cleaning up, in any deployment with the tables of `w`. -/
theorem commit_tables {w w₁ : World} (hdb : w₁.db = w.db) (hcalls : w.calls ≤ w₁.calls) (bucket : BucketContext) (key : Text)
    (values : VersionValues) {α : Type} (f : Text → α) :
    wp (do
        let versionId ← nextVersionId N bucket.versioning
        let replaced ← commitVersion N bucket key versionId values
        deleteBlobs replaced
        return f versionId)
      (fun r w' => (∃ versionId, r = f versionId) ∧
        CommitsSized (N := N) w bucket key values.storagePath values.size w'.db)
      (fun _ _ => False) w₁ := by
  rw [wp_bind]
  refine wp_mono (nextVersionId_tables bucket.versioning w₁) ?_ fun _ _ h => h
  rintro versionId w₂ ⟨hsame, hcalls₂, hversionId⟩
  rw [wp_bind, commitVersion, World.insertFor, wp_perform, wp_bind]
  refine wp_mono (deleteBlobs_tables _ _) ?_ fun _ _ h => h
  intro _ w' hdb'
  refine ⟨⟨versionId, rfl⟩, w₂.calls, versionId, values, hcalls.trans hcalls₂, hversionId, rfl, rfl, ?_⟩
  rw [hdb', hsame, hdb]

/-- **A write commits a version of the size it reports, or leaves the tables alone.** -/
theorem put_sized (params : PutObjectParams) (w : World) :
    wp (put N params)
      (fun r w' => CommitsSized (N := N) w params.bucket params.key (some (pathAt N w.calls)) r.size w'.db)
      (fun _ w' => w'.db = w.db) w := by
  rw [put, wp_bind, assertValidKey, wp_require]
  refine ⟨fun _ => ?_, fun _ => rfl⟩
  rw [wp_bind, assertWithinMaxBytes, wp_require]
  refine ⟨fun _ => ?_, fun _ => rfl⟩
  rw [wp_bind]
  refine wp_mono (UsageService.assertQuota_spec _ _ w) ?_ fun e w' h => congrArg World.db h.1
  rintro _ w₀ rfl
  rw [wp_bind]
  refine wp_mono (write_spec params.stream params.maxBytes w₀) ?_ fun e w' h => h.1.db
  intro written w₁ hwritten
  rw [wp_bind]
  refine wp_mono (checkWritten_effect params.bucket params.contentMd5 written w₁) ?_
    fun _ _ h => (congrArg World.db h.1).trans hwritten.confined.db
  rintro _ w₂ rfl
  rw [← hwritten.storagePath]
  refine wp_mono (commit_tables hwritten.confined.db hwritten.confined.calls params.bucket params.key {
      size := written.size
      etag := written.etag
      headers := toVersionColumns params.headers
      storagePath := some written.storagePath
      sse := toEncryptionColumns written.encryption
      createdByAccessKeyId := params.accessKeyId } _) ?_ fun _ _ h => h.elim
  rintro _ w' ⟨⟨versionId, rfl⟩, hcommits⟩
  exact hcommits

theorem put_tables (params : PutObjectParams) (w : World) :
    wp (put N params)
      (fun _ w' => CommitsVersion (N := N) w params.bucket params.key (some (pathAt N w.calls)) w'.db)
      (fun _ w' => w'.db = w.db) w :=
  wp_mono (put_sized params w) (fun _ _ h => h.commitsVersion) fun _ _ h => h

/-- **A copy is a write**, after which one more number is drawn. -/
theorem wp_copy {source : ObjectVersionDetail} {target : BucketContext} {key : Text}
    {directive : MetadataDirective} {accessKeyId : Option Text} {headers : ObjectHeaders}
    {post : PutObjectResult × Timestamp → World → Prop} {fail : Fault → World → Prop} {w : World}
    (hput : ∀ params : PutObjectParams, params.bucket = target → params.key = key →
      wp (put N params) (fun r w' => post (r, N.now w'.calls) { w' with calls := w'.calls + 1 }) fail w)
    (hfail : ∀ e, fail e w) : wp (copy N source target key directive accessKeyId headers) post fail w := by
  rw [copy, wp_bind, wp_orThrow]
  refine ⟨fun path _ => ?_, fun _ => hfail _⟩
  rw [wp_bind]
  refine wp_mono ((read_readOnly N _ _ _).wp_same w) ?_ fun e _ h => h ▸ hfail e
  rintro payload w₁ rfl
  change wp (put N { bucket := target, key, stream := payload.stream, accessKeyId, headers := _ } >>= _)
    _ _ w₁
  rw [wp_bind]
  exact hput _ rfl rfl

theorem copy_tables (source : ObjectVersionDetail) (target : BucketContext) (key : Text)
    (directive : MetadataDirective) (accessKeyId : Option Text) (headers : ObjectHeaders) (w : World) :
    wp (copy N source target key directive accessKeyId headers)
      (fun _ w' => CommitsVersion (N := N) w target key (some (pathAt N w.calls)) w'.db)
      (fun _ w' => w'.db = w.db) w := by
  refine wp_copy (fun params hbucket hkey => ?_) fun _ => rfl
  rw [← hbucket, ← hkey]
  exact put_tables params w

/-! ## Deleting -/

/-- What a delete did to the tables. -/
inductive DeletesFrom (w : World) (bucket : BucketContext) (key : Text) (versionId : Option Text) :
    Database → Prop
  | absent : DeletesFrom w bucket key versionId w.db
  | version {o : ObjectRow} {v : ObjectVersionRow} {i : Text} (hid : Query.present versionId = some i)
      (ho : findObject bucket.guid key w.db = some o) (hv : findVersion o.guid i w.db = some v) :
      DeletesFrom w bucket key versionId (removeVersion o.guid v.guid w.db)
  | purged {o : ObjectRow} (hid : Query.present versionId = none)
      (hversioning : bucket.versioning = .disabled) (ho : findObject bucket.guid key w.db = some o) :
      DeletesFrom w bucket key versionId (purgeObject o.guid w.db).2
  | marked {db' : Database} (hid : Query.present versionId = none)
      (hversioning : bucket.versioning ≠ .disabled)
      (h : CommitsVersion (N := N) w bucket key none db') : DeletesFrom w bucket key versionId db'

theorem delete_tables (bucket : BucketContext) (key : Text) (versionId accessKeyId : Option Text)
    (w : World) :
    wp (delete N bucket key versionId accessKeyId)
      (fun _ w' => DeletesFrom (N := N) w bucket key versionId w'.db) (fun _ w' => w' = w) w := by
  rw [delete, wp_bind, World.select, wp_query]
  cases ho : findObject bucket.guid key w.db with
  | none => exact .absent
  | some o =>
    cases hid : Query.present versionId with
    | some i =>
      dsimp only
      rw [deleteVersion, wp_bind, World.select, wp_query, wp_bind, wp_orThrow]
      refine ⟨fun v hv => ?_, fun _ => rfl⟩
      rw [wp_bind, World.execute, wp_alter, wp_bind]
      refine wp_mono (deleteBlobs_tables _ _) ?_ fun _ _ h => h.elim
      intro _ w' hdb
      rw [wp_pure, hdb]
      exact .version hid ho hv
    | none =>
      dsimp only
      rw [wp_ite]
      split_ifs with hversioning
      · rw [wp_bind, World.execute, wp_alter, wp_bind]
        refine wp_mono (deleteBlobs_tables _ _) ?_ fun _ _ h => h.elim
        intro _ w' hdb
        rw [wp_pure, hdb]
        exact .purged hid hversioning ho
      · exact wp_mono (commit_tables rfl le_rfl bucket key _ _)
          (fun _ _ h => .marked hid hversioning h.2.commitsVersion) fun _ _ h => h.elim

/-! ## Uploads -/

theorem createMultipartUpload_tables (bucket : BucketContext) (key : Text) (accessKeyId : Option Text)
    (headers : ObjectHeaders) (w : World) :
    wp (createMultipartUpload N bucket key accessKeyId headers)
      (fun uploadId w' => ∃ u : MultipartUploadRow, u.guid = w.calls + 1 ∧ u.uploadId = uploadId ∧
        u.bucketGuid = bucket.guid ∧ u.key = key ∧ w'.db = insertUpload u w.db)
      (fun _ _ => False) w :=
  ⟨_, rfl, rfl, rfl, rfl, rfl⟩

/-- **A stored part belongs to the upload that was found**, has a blob of its own, and the size
that is reported. -/
theorem uploadPart_sized (bucket : BucketContext) (uploadId : Text) (partNumber : ℤ)
    (stream : Readable) (contentMd5 : Option Text) (declaredLength maxBytes : Option ℕ) (w : World) :
    wp (uploadPart N bucket uploadId partNumber stream contentMd5 declaredLength maxBytes)
      (fun r w' => ∃ u part, findUpload bucket.guid uploadId w.db = some u ∧
        part.uploadGuid = u.guid ∧ part.partNumber = partNumber ∧
        part.storagePath = pathAt N w.calls ∧ part.size = r.size ∧ w'.db = upsertPart part w.db)
      (fun _ w' => w'.db = w.db) w := by
  rw [uploadPart, wp_bind]
  refine wp_mono (requireUpload_spec w bucket.guid uploadId) ?_ fun _ _ h => congrArg World.db h.1
  rintro u w₀ ⟨rfl, hu⟩
  rw [wp_bind, wp_require]
  refine ⟨fun _ => ?_, fun _ => rfl⟩
  rw [wp_bind, assertWithinMaxBytes, wp_require]
  refine ⟨fun _ => ?_, fun _ => rfl⟩
  rw [wp_bind]
  refine wp_mono (UsageService.assertQuota_spec _ _ w₀) ?_ fun e w' h => congrArg World.db h.1
  rintro _ w rfl
  rw [wp_bind]
  refine wp_mono (write_spec stream maxBytes w) ?_ fun e w' h => h.1.db
  intro written w₁ hwritten
  rw [wp_bind]
  refine wp_mono (checkWritten_effect bucket contentMd5 written w₁) ?_
    fun _ _ h => (congrArg World.db h.1).trans hwritten.confined.db
  rintro _ w₂ rfl
  rw [wp_bind, World.select, wp_query, wp_bind, World.insertFor, wp_perform, wp_bind]
  refine wp_mono (deleteBlobs_tables _ _) ?_ fun _ _ h => h.elim
  intro _ w' hdb'
  refine ⟨u, {
    uploadGuid := u.guid
    partNumber
    size := written.size
    etag := written.etag
    storagePath := written.storagePath
    sse := toEncryptionColumns written.encryption
    createdAt := N.now w₂.calls }, hu, rfl, rfl, hwritten.storagePath, rfl, hdb'.trans ?_⟩
  rw [hwritten.confined.db]

theorem uploadPart_tables (bucket : BucketContext) (uploadId : Text) (partNumber : ℤ)
    (stream : Readable) (contentMd5 : Option Text) (declaredLength maxBytes : Option ℕ) (w : World) :
    wp (uploadPart N bucket uploadId partNumber stream contentMd5 declaredLength maxBytes)
      (fun _ w' => ∃ u part, findUpload bucket.guid uploadId w.db = some u ∧
        part.uploadGuid = u.guid ∧ part.partNumber = partNumber ∧
        part.storagePath = pathAt N w.calls ∧ w'.db = upsertPart part w.db)
      (fun _ w' => w'.db = w.db) w := by
  refine wp_mono (uploadPart_sized bucket uploadId partNumber stream contentMd5 declaredLength maxBytes w)
    ?_ fun _ _ h => h
  intro _ w' h
  obtain ⟨u, part, hu, hupload, hnumber, hpath, -, hdb⟩ := h
  exact ⟨u, part, hu, hupload, hnumber, hpath, hdb⟩

/-- A copied part is a stored part. -/
theorem wp_uploadPartCopy {bucket : BucketContext} {uploadId : Text} {partNumber : ℤ}
    {source : ObjectVersionDetail} {range : Option StorageTypes.ReadRange}
    {post : UploadPartResult × Timestamp → World → Prop} {fail : Fault → World → Prop} {w : World}
    (hpart : ∀ stream, wp (uploadPart N bucket uploadId partNumber stream none none none)
      (fun r w' => post (r, source.lastModified) w') fail w)
    (hfail : ∀ e, fail e w) :
    wp (uploadPartCopy N bucket uploadId partNumber source range) post fail w := by
  rw [uploadPartCopy, wp_bind, wp_orThrow]
  refine ⟨fun path _ => ?_, fun _ => hfail _⟩
  rw [wp_bind]
  refine wp_mono ((read_readOnly N _ _ _).wp_same w) ?_ fun e _ h => h ▸ hfail e
  rintro payload w₁ rfl
  rw [wp_bind]
  exact hpart payload.stream

theorem uploadPartCopy_tables (bucket : BucketContext) (uploadId : Text) (partNumber : ℤ)
    (source : ObjectVersionDetail) (range : Option StorageTypes.ReadRange) (w : World) :
    wp (uploadPartCopy N bucket uploadId partNumber source range)
      (fun _ w' => ∃ u part, findUpload bucket.guid uploadId w.db = some u ∧
        part.uploadGuid = u.guid ∧ part.partNumber = partNumber ∧
        part.storagePath = pathAt N w.calls ∧ w'.db = upsertPart part w.db)
      (fun _ w' => w'.db = w.db) w :=
  wp_uploadPartCopy (fun stream => uploadPart_tables bucket uploadId partNumber stream none none none w)
    fun _ => rfl

theorem abortMultipartUpload_tables (bucketGuid : Guid) (uploadId : Text) (w : World) :
    wp (abortMultipartUpload bucketGuid uploadId)
      (fun _ w' => ∃ u, findUpload bucketGuid uploadId w.db = some u ∧
        w'.db = closeUpload u.guid .aborted w.db)
      (fun _ w' => w' = w) w := by
  rw [abortMultipartUpload, wp_bind]
  refine wp_mono (requireUpload_spec w bucketGuid uploadId) ?_ fun _ _ h => h.1
  rintro u w₀ ⟨rfl, hu⟩
  rw [wp_bind, World.select, wp_query, wp_bind, World.executeFor, wp_perform, wp_bind,
    World.executeFor, wp_perform]
  exact wp_mono (deleteBlobs_tables _ _) (fun _ w' hdb => ⟨u, hu, hdb⟩) fun _ _ h => h.elim

/-- **A completed upload commits a version of its own key**, of the size it reports, and is closed. -/
theorem completeMultipartUpload_sized (bucket : BucketContext) (uploadId : Text)
    (parts : List CompletePart) (w : World) :
    wp (completeMultipartUpload N bucket uploadId parts)
      (fun r w' => ∃ u db', findUpload bucket.guid uploadId w.db = some u ∧
        CommitsSized (N := N) w bucket u.key (some (pathAt N w.calls)) r.size db' ∧
        w'.db = closeUpload u.guid .completed db')
      (fun _ w' => w'.db = w.db) w := by
  rw [completeMultipartUpload, wp_bind]
  refine wp_mono (requireUpload_spec w bucket.guid uploadId) ?_ fun _ _ h => congrArg World.db h.1
  rintro u w₀ ⟨rfl, hu⟩
  rw [wp_bind, wp_require]
  refine ⟨fun _ => ?_, fun _ => rfl⟩
  rw [wp_bind, World.select, wp_query]
  cases matchRequestedParts (orderedParts u.guid w₀.db) none parts with
  | error e => exact rfl
  | ok ordered =>
    dsimp only
    rw [wp_bind, wp_pure, wp_bind]
    refine wp_mono (concat_tables _ w₀) ?_ fun _ _ h => h
    rintro written w₁ ⟨hdb, hcalls, hpath⟩
    rw [wp_bind]
    refine wp_mono (nextVersionId_tables bucket.versioning w₁) ?_ fun _ _ h => h.elim
    rintro versionId w₂ ⟨hsame, hcalls₂, hversionId⟩
    rw [wp_bind, commitVersion, World.insertFor, wp_perform, wp_bind, World.executeFor, wp_perform,
      wp_bind, World.executeFor, wp_perform, wp_bind]
    refine wp_mono (deleteBlobs_tables _ _) ?_ fun _ _ h => h.elim
    intro _ w' hdb'
    refine ⟨u, _, hu, ⟨w₂.calls, versionId, {
      size := written.size
      etag := multipartEtag N (ordered.map (·.etag))
      headers := u.headers
      storagePath := some written.storagePath
      sse := toEncryptionColumns written.encryption
      createdByAccessKeyId := u.initiatedByAccessKeyId }, hcalls.trans hcalls₂, hversionId,
      congrArg some hpath, rfl, rfl⟩, hdb'.trans ?_⟩
    rw [← hdb, ← hsame]
    rfl

theorem completeMultipartUpload_tables (bucket : BucketContext) (uploadId : Text)
    (parts : List CompletePart) (w : World) :
    wp (completeMultipartUpload N bucket uploadId parts)
      (fun _ w' => ∃ u db', findUpload bucket.guid uploadId w.db = some u ∧
        CommitsVersion (N := N) w bucket u.key (some (pathAt N w.calls)) db' ∧
        w'.db = closeUpload u.guid .completed db')
      (fun _ w' => w'.db = w.db) w := by
  refine wp_mono (completeMultipartUpload_sized bucket uploadId parts w) ?_ fun _ _ h => h
  intro _ w' h
  obtain ⟨u, db', hu, hcommits, hdb⟩ := h
  exact ⟨u, db', hu, hcommits.commitsVersion, hdb⟩

/-! ## Operations made of others -/

section Composed

variable {inv : World → Prop}

/-- A copy is a write, after which one more number is drawn. -/
theorem copy_keeps (hdraw : ∀ w : World, inv w → inv { w with calls := w.calls + 1 })
    (source : ObjectVersionDetail) {target : BucketContext} {key : Text}
    (hput : ∀ params : PutObjectParams, params.bucket = target → params.key = key →
      Keeps inv (put N params))
    (directive : MetadataDirective) (accessKeyId : Option Text) (headers : ObjectHeaders) :
    Keeps inv (copy N source target key directive accessKeyId headers) :=
  .bind (.orThrow _ _) fun _ => .bind ((read_readOnly N _ _ _).keeps _) fun _ =>
    .bind (hput _ rfl rfl) fun _ => .bind (fun w hw => hdraw w hw) fun _ => .pure _

theorem deleteMany_keeps {bucket : BucketContext} {accessKeyId : Option Text}
    {entries : List DeleteEntry} (hdelete : ∀ entry ∈ entries,
      Keeps inv (delete N bucket entry.key entry.versionId accessKeyId)) :
    Keeps inv (deleteMany N bucket accessKeyId entries) := by
  induction entries with
  | nil => exact .pure _
  | cons entry rest ih =>
    obtain ⟨hentry, hrest⟩ := List.forall_mem_cons.mp hdelete
    refine .bind (.tryCatch (.bind hentry fun _ => .pure _) fun _ => .pure _) fun outcome => ?_
    refine .bind (ih hrest) fun others => ?_
    cases outcome with
    | ok result => exact .pure _
    | error err => exact .pure _

/-- Keys are deleted without naming a version. -/
theorem deleteKeys_keeps {bucket : BucketContext} {accessKeyId : Option Text}
    (hdelete : ∀ key, Keeps inv (delete N bucket key none accessKeyId)) (keys : List Text) :
    Keeps inv (deleteMany N bucket accessKeyId (keys.map fun key => { key })) := by
  refine deleteMany_keeps fun entry hentry => ?_
  obtain ⟨key, -, rfl⟩ := List.mem_map.mp hentry
  exact hdelete key

theorem deleteByPrefix_keeps {bucket : BucketContext} {accessKeyId : Option Text}
    (hdelete : ∀ key, Keeps inv (delete N bucket key none accessKeyId)) (pre : Text) :
    Keeps inv (deleteByPrefix N bucket pre accessKeyId) :=
  .bind (.require _ _) fun _ => .bind ((World.select_readOnly _).keeps _) fun _ =>
    .bind (deleteKeys_keeps hdelete _) fun _ => .pure _

theorem createFolder_keeps {bucket : BucketContext}
    (hput : ∀ params : PutObjectParams, params.bucket = bucket → Keeps inv (put N params))
    (key : Text) (accessKeyId : Option Text) :
    Keeps inv (createFolder N bucket key accessKeyId) :=
  .bind (.require _ _) fun _ => .bind (.require _ _) fun _ =>
    .bind ((World.select_readOnly _).keeps _) fun _ => .bind (.require _ _) fun _ =>
      .bind (hput _ rfl) fun _ => .pure _

/-- Keys are copied by reading and writing, and moved by deleting them too. -/
theorem copyKeys_keeps (hdraw : ∀ w : World, inv w → inv { w with calls := w.calls + 1 })
    {source target : BucketContext} {accessKeyId : Option Text}
    (hput : ∀ params : PutObjectParams, params.bucket = target → Keeps inv (put N params))
    (hdelete : ∀ key, Keeps inv (delete N source key none accessKeyId)) (sourceKey targetKey : Text)
    (move : Bool) : Keeps inv (copyKeys N source target sourceKey targetKey move accessKeyId) := by
  have hcopyEach : ∀ (destination : Text → Text) (keys : List Text),
      Keeps inv (copyEach N source target accessKeyId destination keys) := fun destination =>
    .forM fun _ => .bind ((getVersion_readOnly _ _ _).keeps _) fun _ =>
      .ite (.pure ()) (.bind (copy_keeps hdraw _ (fun params h _ => hput params h) _ _ _)
        fun _ => .pure ())
  refine .bind (.require _ _) fun _ => .bind (.require _ _) fun _ => .bind (.require _ _) fun _ => ?_
  refine .ite (.bind ((World.select_readOnly _).keeps _) ?_) (.bind (.pure _) ?_) <;>
    exact fun keys => .bind (.require _ _) fun _ => .bind (hcopyEach _ _) fun _ =>
      .ite (.bind (deleteKeys_keeps hdelete _) fun _ => .pure _) (.pure _)

theorem uploadPartCopy_keeps {bucket : BucketContext} {uploadId : Text} {partNumber : ℤ}
    (huploadPart : ∀ stream,
      Keeps inv (uploadPart N bucket uploadId partNumber stream none none none))
    (source : ObjectVersionDetail) (range : Option StorageTypes.ReadRange) :
    Keeps inv (uploadPartCopy N bucket uploadId partNumber source range) :=
  .bind (.orThrow _ _) fun _ => .bind ((read_readOnly N _ _ _).keeps _) fun _ =>
    .bind (huploadPart _) fun _ => .pure _

end Composed

end ObjectsService
end SimpleStorage
