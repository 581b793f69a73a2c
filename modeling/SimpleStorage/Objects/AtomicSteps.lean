import SimpleStorage.Objects.ObjectsService
import SimpleStorage.Objects.Transactions

/-!
# The steps of the object service

Whatever an operation does, it does by steps of a few kinds: it reads, draws a number, writes
or removes a file, or runs one statement or transaction that writes.  `Atomic` lists them,
and each operation consists of such steps (`put_atomic` and its companions), so what every
kind of step keeps, every operation keeps, however its steps are mixed with others.
-/

namespace SimpleStorage

/-- What reading leaves on record. -/
def Event.OfReading : Event → Prop
  | .readObject _ _ | .readVersion _ | .readBucketUsage _ | .readUserUsage _ | .openedBlob _ => True
  | _ => False

/-- What is on record when the tables are left alone. -/
def Event.OffTables (e : Event) : Prop :=
  e.OfReading ∨ match e with
    | .generatedPath _ | .wroteBlob _ _ | .removedBlob _ => True
    | _ => False

namespace ObjectsService

open ObjectsTypes Program Statements StorageService

/-- **The steps that leave the tables alone**, by what they leave on record and do to the state. -/
inductive OffTables (N : Node) : (World → Option Event) → (World → World) → Prop
  | read {event : World → Option Event} (h : ∀ w e, event w = some e → e.OfReading) :
      OffTables N event id
  | draw : OffTables N (fun _ => none) fun w => { w with calls := w.calls + 1 }
  | generate : OffTables N (fun w => some (.generatedPath (storagePathOf (N.randomUUID w.calls))))
      fun w => { w with calls := w.calls + 1 }
  | write (t : ℕ) (content : Bytes) :
      OffTables N (fun w => some (.wroteBlob (storagePathOf (N.randomUUID t)) w.calls))
        fun w => { w with
          disk := w.disk.set (storagePathOf (N.randomUUID t)) ⟨content, N.now w.calls⟩
          calls := w.calls + 1 }
  | remove (path : Text) : OffTables N (fun _ => some (.removedBlob path))
      fun w => { w with disk := w.disk.remove path }

/-- **The steps that leave everything alone**: they read, or draw a number. -/
inductive Traceless : (World → Option Event) → (World → World) → Prop
  | read {event : World → Option Event} (h : ∀ w e, event w = some e → e.OfReading) : Traceless event id
  | draw : Traceless (fun _ => none) fun w => { w with calls := w.calls + 1 }

/-- **The kinds of steps.** -/
inductive Atomic (N : Node) : (World → Option Event) → (World → World) → Prop
  | offTables {event : World → Option Event} {effect : World → World} (h : OffTables N event effect) :
      Atomic N event effect
  | requireUpload (bucketGuid : Guid) (uploadId : Text) :
      Atomic N (fun w => (findUpload bucketGuid uploadId w.db).map (.requiredUpload ·.guid)) id
  | commit (bucketGuid : Guid) (key versionId : Text) (values : VersionValues) :
      Atomic N (fun w => some (.committedVersion bucketGuid key values.storagePath values.size w.calls))
        fun w => { w with
          db := (Statements.commitVersion w.calls (N.now w.calls) bucketGuid key versionId values w.db).2
          calls := w.calls + 1 }
  | removeVersion (objectGuid versionGuid : Guid) : Atomic N (fun _ => none)
      fun w => { w with db := Statements.removeVersion objectGuid versionGuid w.db }
  | purge (objectGuid : Guid) : Atomic N (fun _ => none)
      fun w => { w with db := (Statements.purgeObject objectGuid w.db).2 }
  | insertUpload (row : ℕ → MultipartUploadRow) (hguid : ∀ call, (row call).guid = call) :
      Atomic N (fun _ => none)
        fun w => { w with db := Statements.insertUpload (row w.calls) w.db, calls := w.calls + 1 }
  | storePart (bucketGuid : Guid) (row : ℕ → MultipartPartRow) :
      Atomic N (fun w => some (.storedPart bucketGuid (row w.calls).uploadGuid (row w.calls).storagePath
          (row w.calls).size w.calls))
        fun w => { w with db := Statements.upsertPart (row w.calls) w.db, calls := w.calls + 1 }
  | retire (uploadGuid : Guid) (status : MultipartUploadStatus) :
      Atomic N (fun _ => some (.retiredUpload uploadGuid))
        fun w => { w with db := Statements.setUploadStatus uploadGuid status w.db }
  | dropParts (uploadGuid : Guid) : Atomic N (fun _ => some (.droppedParts uploadGuid))
      fun w => { w with db := Statements.deleteParts uploadGuid w.db }

variable {N : Node}

theorem atomic_of_offTables {α : Type} {x : Service α} (h : x.Every (OffTables N)) : x.Every (Atomic N) :=
  h.mono fun _ _ => .offTables

theorem Traceless.offTables {event : World → Option Event} {effect : World → World}
    (h : Traceless event effect) : OffTables N event effect := by
  cases h with
  | read h => exact .read h
  | draw => exact .draw

/-! ## What operations do without leaving a trace -/

theorem select_traceless {α : Type} (f : Database → α) : (World.select f).Every Traceless :=
  .observe (.read nofun) _

theorem selectFor_traceless {α : Type} {event : Database → Option Event}
    (h : ∀ db e, event db = some e → e.OfReading) (f : Database → α) :
    (World.selectFor event f).Every Traceless := .observe (.read fun w => h w.db) _

theorem getVersion_traceless (bucketGuid : Guid) (key : Text) (versionId : Option Text) :
    (getVersion bucketGuid key versionId).Every Traceless := by
  have hobject : ∀ (db : Database) e, some (Event.readObject bucketGuid key) = some e → e.OfReading := by
    rintro db e ⟨⟩
    exact trivial
  refine .bind (selectFor_traceless hobject _) fun found => .bind (.orThrow _ _) fun found =>
    .bind (selectFor_traceless (fun db e he => ?_) _) fun version => .bind (.orThrow _ _) fun version =>
      .pure _
  obtain ⟨r, -, rfl⟩ := Option.map_eq_some_iff.mp he
  exact trivial

theorem nextCall_traceless : World.nextCall.Every Traceless := .perform .draw

theorem read_traceless (path : Text) (range : Option StorageTypes.ReadRange)
    (encryption : Option StorageTypes.BlobEncryption) :
    (StorageService.read N path range encryption).Every Traceless := by
  have hopened : Traceless (fun _ => some (.openedBlob path)) id := by
    refine .read ?_
    rintro w e ⟨⟩
    exact trivial
  refine .bind (.observe hopened _) fun stat => .bind (.orThrow _ _) fun blob => ?_
  cases encryption with
  | none => exact .pure _
  | some descriptor =>
    exact .bind (.observe (.read nofun) _) fun config => .bind (.orThrow _ _) fun key => .pure _

theorem readAll_traceless (sources : List ConcatSource) : (readAll N sources).Every Traceless := by
  induction sources with
  | nil => exact .pure _
  | cons source rest ih =>
    exact .bind (read_traceless _ _ _) fun plain => .bind ih fun others => .pure _

theorem newBlobKey_traceless : (newBlobKey N).Every Traceless := by
  refine .bind (.observe (.read nofun) _) fun enabled => .ite (.bind ?_ fun key => .pure _) (.pure _)
  exact .bind nextCall_traceless fun _ => .bind nextCall_traceless fun _ =>
    .bind nextCall_traceless fun _ => .bind (.observe (.read nofun) _) fun config => .pure _

theorem assertOwnerQuota_traceless (bucket : UsageTypes.QuotaTarget) (bytes : ℕ) :
    (UsageService.assertOwnerQuota bucket bytes).Every Traceless := by
  refine .bind (select_traceless _) fun owner => ?_
  cases owner.bind (·.quotaBytes) with
  | none => exact .pure _
  | some quotaBytes =>
    refine .bind (selectFor_traceless ?_ _) fun _ => .require _ _
    rintro db e ⟨⟩
    exact trivial

theorem assertQuota_traceless (bucket : UsageTypes.QuotaTarget) (bytes : ℕ) :
    (UsageService.assertQuota bucket bytes).Every Traceless := by
  rw [UsageService.assertQuota]
  cases bucket.quotaBytes with
  | none => exact assertOwnerQuota_traceless bucket bytes
  | some quotaBytes =>
    refine .bind (selectFor_traceless ?_ _) fun _ => .bind (.require _ _) fun _ =>
      assertOwnerQuota_traceless bucket bytes
    rintro db e ⟨⟩
    exact trivial

theorem nextVersionId_traceless (versioning : BucketVersioning) :
    (nextVersionId N versioning).Every Traceless := by
  cases versioning with
  | disabled => exact .pure _
  | suspended => exact .pure _
  | enabled => exact .bind nextCall_traceless fun _ => .pure _

/-! ## What operations do off the tables -/

theorem offTables_of_traceless {α : Type} {x : Service α} (h : x.Every Traceless) : x.Every (OffTables N) :=
  h.mono fun _ _ => Traceless.offTables

theorem select_offTables {α : Type} (f : Database → α) : (World.select f).Every (OffTables N) :=
  offTables_of_traceless (select_traceless f)

theorem nextCall_offTables : World.nextCall.Every (OffTables N) := offTables_of_traceless nextCall_traceless

theorem delete_offTables (path : Text) : (StorageService.delete path).Every (OffTables N) :=
  .perform (.remove path)

theorem deleteBlobs_offTables (paths : List Text) : (deleteBlobs paths).Every (OffTables N) :=
  .forM delete_offTables paths

theorem read_offTables (path : Text) (range : Option StorageTypes.ReadRange)
    (encryption : Option StorageTypes.BlobEncryption) :
    (StorageService.read N path range encryption).Every (OffTables N) :=
  offTables_of_traceless (read_traceless path range encryption)

/-- What comes after a path was generated may count on its shape. -/
theorem generateStoragePath_bind {α : Type} {f : Text → Service α}
    (h : ∀ t, (f (storagePathOf (N.randomUUID t))).Every (OffTables N)) :
    (generateStoragePath N >>= f).Every (OffTables N) :=
  .step .generate fun w => h w.calls

theorem write_offTables (source : Readable) (maxBytes : Option ℕ) :
    (StorageService.write N source maxBytes).Every (OffTables N) :=
  generateStoragePath_bind fun t => .bind (offTables_of_traceless newBlobKey_traceless) fun _ =>
    .ite (.bind (delete_offTables _) fun _ => .throw _)
      (.ite (.bind (delete_offTables _) fun _ => .throw _)
        (.bind (.perform (.write t _)) fun _ => .pure _))

theorem concat_offTables (sources : List ConcatSource) : (concat N sources).Every (OffTables N) :=
  generateStoragePath_bind fun t => .bind (offTables_of_traceless newBlobKey_traceless) fun _ =>
    .bind (.tryCatch (offTables_of_traceless (readAll_traceless sources)) fun _ => .bind (delete_offTables _) fun _ => .throw _)
      fun _ => .bind (.perform (.write t _)) fun _ => .pure _

theorem assertQuota_offTables (bucket : UsageTypes.QuotaTarget) (bytes : ℕ) :
    (UsageService.assertQuota bucket bytes).Every (OffTables N) :=
  offTables_of_traceless (assertQuota_traceless bucket bytes)

theorem checkWritten_offTables (bucket : BucketContext) (contentMd5 : Option Text)
    (written : StorageTypes.WriteResult) :
    Every (OffTables N) (tryCatch (do
      assertContentMd5 contentMd5 written.etag
      UsageService.assertQuota bucket.toQuotaTarget written.size) fun err => do
        StorageService.delete written.storagePath
        throw err) :=
  .tryCatch (.bind (.require _ _) fun _ => assertQuota_offTables _ _) fun _ =>
    .bind (delete_offTables _) fun _ => .throw _

theorem nextVersionId_offTables (versioning : BucketVersioning) :
    (nextVersionId N versioning).Every (OffTables N) := offTables_of_traceless (nextVersionId_traceless versioning)

/-! ## The operations -/

theorem requireUpload_atomic (bucketGuid : Guid) (uploadId : Text) :
    (requireUpload bucketGuid uploadId).Every (Atomic N) :=
  .bind (.observe (.requireUpload bucketGuid uploadId) _) fun _ => .orThrow _ _

theorem commitVersion_atomic (bucket : BucketContext) (key versionId : Text) (values : VersionValues) :
    (commitVersion N bucket key versionId values).Every (Atomic N) :=
  .perform (.commit bucket.guid key versionId values)

theorem put_atomic (params : PutObjectParams) : (put N params).Every (Atomic N) :=
  .bind (.require _ _) fun _ => .bind (.require _ _) fun _ =>
    .bind (atomic_of_offTables (assertQuota_offTables _ _)) fun _ =>
      .bind (atomic_of_offTables (write_offTables _ _)) fun _ =>
        .bind (atomic_of_offTables (checkWritten_offTables _ _ _)) fun _ =>
          .bind (atomic_of_offTables (nextVersionId_offTables _)) fun _ =>
            .bind (commitVersion_atomic _ _ _ _) fun _ =>
              .bind (atomic_of_offTables (deleteBlobs_offTables _)) fun _ => .pure _

theorem copy_atomic (source : ObjectVersionDetail) (target : BucketContext) (key : Text)
    (directive : MetadataDirective) (accessKeyId : Option Text) (headers : ObjectHeaders) :
    (copy N source target key directive accessKeyId headers).Every (Atomic N) :=
  .bind (.orThrow _ _) fun _ => .bind (atomic_of_offTables (read_offTables _ _ _)) fun _ =>
    .bind (put_atomic _) fun _ => .bind (atomic_of_offTables nextCall_offTables) fun _ => .pure _

theorem deleteVersion_atomic (objectGuid : Guid) (versionId : Text) :
    (deleteVersion objectGuid versionId).Every (Atomic N) :=
  .bind (atomic_of_offTables (select_offTables _)) fun _ => .bind (.orThrow _ _) fun _ =>
    .bind (.perform (.removeVersion _ _)) fun _ =>
      .bind (atomic_of_offTables (deleteBlobs_offTables _)) fun _ => .pure _

theorem delete_atomic (bucket : BucketContext) (key : Text) (versionId accessKeyId : Option Text) :
    (delete N bucket key versionId accessKeyId).Every (Atomic N) := by
  refine .bind (atomic_of_offTables (select_offTables _)) fun found => ?_
  cases found with
  | none => exact .pure _
  | some o =>
    cases Query.present versionId with
    | some versionId => exact deleteVersion_atomic o.guid versionId
    | none =>
      refine .ite (.bind (.perform (.purge o.guid)) fun _ => ?_) ?_
      · exact .bind (atomic_of_offTables (deleteBlobs_offTables _)) fun _ => .pure _
      · exact .bind (atomic_of_offTables (nextVersionId_offTables _)) fun _ =>
          .bind (commitVersion_atomic _ _ _ _) fun _ =>
            .bind (atomic_of_offTables (deleteBlobs_offTables _)) fun _ => .pure _

theorem deleteMany_atomic (bucket : BucketContext) (accessKeyId : Option Text)
    (entries : List DeleteEntry) : (deleteMany N bucket accessKeyId entries).Every (Atomic N) := by
  induction entries with
  | nil => exact .pure _
  | cons entry rest ih =>
    refine .bind (.tryCatch (.bind (delete_atomic _ _ _ _) fun _ => .pure _) fun _ => .pure _)
      fun outcome => .bind ih fun others => ?_
    cases outcome with
    | ok result => exact .pure _
    | error err => exact .pure _

theorem copyEach_atomic (source target : BucketContext) (accessKeyId : Option Text) (f : Text → Text)
    (keys : List Text) : (copyEach N source target accessKeyId f keys).Every (Atomic N) :=
  .forM (fun _ => .bind (atomic_of_offTables (offTables_of_traceless (getVersion_traceless _ _ _)))
    fun _ => .ite (.pure _) (.bind (copy_atomic _ _ _ _ _ _) fun _ => .pure _)) keys

theorem copyKeys_atomic (source target : BucketContext) (sourceKey targetKey : Text) (move : Bool)
    (accessKeyId : Option Text) :
    (copyKeys N source target sourceKey targetKey move accessKeyId).Every (Atomic N) := by
  refine .bind (.require _ _) fun _ => .bind (.require _ _) fun _ => .bind (.require _ _) fun _ => ?_
  refine .ite (.bind (atomic_of_offTables (select_offTables _)) ?_) (.bind (.pure _) ?_) <;>
    exact fun keys => .bind (.require _ _) fun _ => .bind (copyEach_atomic _ _ _ _ _) fun _ =>
      .ite (.bind (deleteMany_atomic _ _ _) fun _ => .pure _) (.pure _)

theorem createMultipartUpload_atomic (bucket : BucketContext) (key : Text) (accessKeyId : Option Text)
    (headers : ObjectHeaders) : (createMultipartUpload N bucket key accessKeyId headers).Every (Atomic N) :=
  .bind (atomic_of_offTables nextCall_offTables) fun t =>
    .bind (.perform (.insertUpload (fun call => {
      guid := call
      uploadId := Codec.base64url.encode (N.randomBytes t 24)
      bucketGuid := bucket.guid
      key
      headers := toVersionColumns headers
      initiatedByAccessKeyId := accessKeyId
      createdAt := N.now call }) fun _ => rfl)) fun _ => .pure _

theorem uploadPart_atomic (bucket : BucketContext) (uploadId : Text) (partNumber : ℤ) (stream : Readable)
    (contentMd5 : Option Text) (declaredLength maxBytes : Option ℕ) :
    (uploadPart N bucket uploadId partNumber stream contentMd5 declaredLength maxBytes).Every (Atomic N) :=
  .bind (requireUpload_atomic _ _) fun u => .bind (.require _ _) fun _ =>
    .bind (.require _ _) fun _ => .bind (atomic_of_offTables (assertQuota_offTables _ _)) fun _ =>
      .bind (atomic_of_offTables (write_offTables _ _)) fun written =>
        .bind (atomic_of_offTables (checkWritten_offTables _ _ _)) fun _ =>
          .bind (atomic_of_offTables (select_offTables _)) fun _ =>
            .bind (.perform (.storePart bucket.guid fun call => {
              uploadGuid := u.guid
              partNumber
              size := written.size
              etag := written.etag
              storagePath := written.storagePath
              sse := toEncryptionColumns written.encryption
              createdAt := N.now call })) fun _ =>
              .bind (atomic_of_offTables (deleteBlobs_offTables _)) fun _ => .pure _

theorem abortMultipartUpload_atomic (bucketGuid : Guid) (uploadId : Text) :
    (abortMultipartUpload bucketGuid uploadId).Every (Atomic N) :=
  .bind (requireUpload_atomic _ _) fun _ =>
    .bind (atomic_of_offTables (select_offTables _)) fun _ => .bind (.perform (.dropParts _)) fun _ =>
      .bind (.perform (.retire _ _)) fun _ => atomic_of_offTables (deleteBlobs_offTables _)

theorem completeMultipartUpload_atomic (bucket : BucketContext) (uploadId : Text)
    (parts : List CompletePart) : (completeMultipartUpload N bucket uploadId parts).Every (Atomic N) := by
  refine .bind (requireUpload_atomic _ _) fun u => .bind (.require _ _) fun _ =>
    .bind (atomic_of_offTables (select_offTables _)) fun stored => ?_
  cases matchRequestedParts stored none parts with
  | error e => exact .throw _
  | ok ordered =>
    exact .bind (.pure _) fun _ => .bind (atomic_of_offTables (concat_offTables _)) fun _ =>
      .bind (atomic_of_offTables (nextVersionId_offTables _)) fun _ =>
        .bind (commitVersion_atomic _ _ _ _) fun _ => .bind (.perform (.retire _ _)) fun _ =>
          .bind (.perform (.dropParts _)) fun _ =>
            .bind (atomic_of_offTables (deleteBlobs_offTables _)) fun _ => .pure _

/-! ## What steps do to the rows of buckets and keys -/

/-- The keys' rows after a commit: those of before, and perhaps a new one. -/
theorem row_commitVersion {guid : Guid} {createdAt : Timestamp} {bucketGuid : Guid}
    {key versionId : Text} {values : VersionValues} {db : Database} {o : ObjectRow}
    (ho : o ∈ (Statements.commitVersion guid createdAt bucketGuid key versionId values db).2.objects) :
    (∃ p ∈ db.objects, p.guid = o.guid ∧ p.bucketGuid = o.bucketGuid ∧ p.key = o.key) ∨
      o.guid = guid ∧ o.bucketGuid = bucketGuid ∧ o.key = key := by
  have hup : ∀ p ∈ (upsertObject guid bucketGuid key db).2.objects,
      p ∈ db.objects ∨ p.guid = guid ∧ p.bucketGuid = bucketGuid ∧ p.key = key := by
    intro p hp
    cases hfound : findObject bucketGuid key db with
    | some row =>
      rw [upsertObject, hfound] at hp
      exact Or.inl hp
    | none =>
      rw [upsertObject, hfound] at hp
      rcases List.mem_append.mp hp with hp | hp
      · exact Or.inl hp
      · rw [List.mem_singleton.mp hp]
        exact Or.inr ⟨rfl, rfl, rfl⟩
  rw [commitVersion_eq (k := (bucketGuid, key))] at ho
  rcases mem_pointLatest.mp ho with ⟨ho, -⟩ | ⟨p, hp, -, rfl⟩
  · exact (hup o ho).imp_left fun h => ⟨o, h, rfl, rfl, rfl⟩
  · exact (hup p hp).imp_left fun h => ⟨p, h, rfl, rfl, rfl⟩

/-- The keys' rows after a version was removed are rows of before. -/
theorem row_removeVersion {guid versionGuid : Guid} {db : Database} {o : ObjectRow}
    (ho : o ∈ (Statements.removeVersion guid versionGuid db).objects) :
    ∃ p ∈ db.objects, p.guid = o.guid ∧ p.bucketGuid = o.bucketGuid ∧ p.key = o.key := by
  rw [removeVersion_eq] at ho
  cases hnewest : newestVersion guid (deleteVersions (·.guid = versionGuid) db).2 with
  | some newest =>
    rw [hnewest] at ho
    rcases mem_pointLatest.mp ho with ⟨ho, -⟩ | ⟨p, hp, -, rfl⟩
    · exact ⟨o, ho, rfl, rfl, rfl⟩
    · exact ⟨p, hp, rfl, rfl, rfl⟩
  | none =>
    rw [hnewest] at ho
    exact ⟨o, (List.mem_filter.mp ho).1, rfl, rfl, rfl⟩

theorem OffTables.db {event : World → Option Event} {effect : World → World}
    (h : OffTables N event effect) (w : World) : (effect w).db = w.db := by
  cases h <;> rfl

theorem OffTables.event {event : World → Option Event} {effect : World → World}
    (h : OffTables N event effect) {w : World} {e : Event} (he : event w = some e) : e.OffTables := by
  cases h with
  | read h => exact Or.inl (h w e he)
  | draw => cases he
  | generate =>
    cases he
    exact Or.inr trivial
  | write =>
    cases he
    exact Or.inr trivial
  | remove =>
    cases he
    exact Or.inr trivial

section Kinds

variable {event : World → Option Event} {effect : World → World} (h : Atomic N event effect) (w : World)
include h

/-- No operation on objects changes a bucket. -/
theorem Atomic.buckets : (effect w).db.buckets = w.db.buckets := by
  cases h with
  | offTables h => rw [h.db]
  | commit bucketGuid key versionId values =>
    obtain ⟨objects, objectVersions, hframe⟩ :=
      commitVersion_others w.calls (N.now w.calls) bucketGuid key versionId values w.db
    exact (congrArg Database.buckets hframe).trans rfl
  | removeVersion objectGuid versionGuid =>
    obtain ⟨objects, objectVersions, hframe⟩ : ∃ objects objectVersions,
        Statements.removeVersion objectGuid versionGuid w.db = { w.db with objects, objectVersions } :=
      removeVersion_frame objectGuid versionGuid
    exact (congrArg Database.buckets hframe).trans rfl
  | _ => rfl

/-- A key's row is one of before, or new by a commit. -/
theorem Atomic.objects {o : ObjectRow} (ho : o ∈ (effect w).db.objects) :
    (∃ p ∈ w.db.objects, p.guid = o.guid ∧ p.bucketGuid = o.bucketGuid) ∨
      ∃ key path size, event w = some (.committedVersion o.bucketGuid key path size w.calls) := by
  cases h with
  | offTables h => exact Or.inl ⟨o, h.db w ▸ ho, rfl, rfl⟩
  | commit bucketGuid key versionId values =>
    rcases row_commitVersion ho with ⟨p, hp, hguid, hbucket, -⟩ | ⟨-, rfl, -⟩
    · exact Or.inl ⟨p, hp, hguid, hbucket⟩
    · exact Or.inr ⟨_, _, _, rfl⟩
  | removeVersion objectGuid versionGuid =>
    obtain ⟨p, hp, hguid, hbucket, -⟩ := row_removeVersion ho
    exact Or.inl ⟨p, hp, hguid, hbucket⟩
  | purge objectGuid => exact Or.inl ⟨o, (List.mem_filter.mp ho).1, rfl, rfl⟩
  | _ => exact Or.inl ⟨o, ho, rfl, rfl⟩

end Kinds

end ObjectsService
end SimpleStorage
