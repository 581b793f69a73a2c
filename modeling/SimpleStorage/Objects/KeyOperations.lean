import SimpleStorage.Objects.StoreInvariant

/-!
# Operations on a key

What `put`, `copy` and `delete` do to the versions a client sees, and what a read finds.
Each has one specification, by `Effect`: the invariant holds again, the versions and the
uploads are so and so, and all else a request depends on is as before.

* `commitVersion_spec`: a version committed is a version written to the map;
* `put_spec`, `copy_spec`, `delete_spec`: the operations, with every way they can fail;
* `readObject_spec`: a read is a lookup.
-/

namespace SimpleStorage
namespace ObjectsService

open ObjectsTypes Program Statements StorageService

variable (N : Node)

/-- How many random values and times one request draws at most. -/
def callsPerRequest : ℕ := 8

/-- **What a request did**: the versions and the uploads are now those given. -/
structure Effect (w w' : World) (vs : VersionedMap BucketKey StoredVersion)
    (uploads : BucketUpload → Option PendingUpload) : Prop where
  inv : Inv N w'
  versions : versions N w' = vs
  pending : pending N w' = uploads
  buckets : w'.db.buckets = w.db.buckets
  encryption : w'.encryption = w.encryption
  calls_ge : w.calls ≤ w'.calls
  calls_le : w'.calls ≤ w.calls + callsPerRequest

/-- A request that changed nothing. -/
abbrev Unchanged (w w' : World) : Prop := Effect N w w' (versions N w) (pending N w)

variable {N}

theorem Effect.of_quiet {w w' : World} (hw : Inv N w) (h : Quiet w w')
    (hencryption : w'.encryption = w.encryption) (hcalls : w'.calls ≤ w.calls + callsPerRequest) :
    Unchanged N w w' :=
  ⟨h.inv hw, h.versions_eq, h.pending_eq, congrArg Database.buckets h.db, hencryption, h.calls, hcalls⟩

/-- Before and after a request, something quiet may happen. -/
theorem Effect.of_quiet_trans {w w₁ w₂ w' : World} {vs : VersionedMap BucketKey StoredVersion}
    {uploads : BucketUpload → Option PendingUpload} (h₁ : Quiet w w₁)
    (hencryption₁ : w₁.encryption = w.encryption) (h : Effect N w₁ w₂ vs uploads) (h₂ : Quiet w₂ w')
    (hencryption₂ : w'.encryption = w₂.encryption) (hcalls : w'.calls ≤ w.calls + callsPerRequest) :
    Effect N w w' vs uploads where
  inv := h₂.inv h.inv
  versions := h₂.versions_eq.trans h.versions
  pending := h₂.pending_eq.trans h.pending
  buckets := (congrArg Database.buckets h₂.db).trans
    (h.buckets.trans (congrArg Database.buckets h₁.db))
  encryption := hencryption₂.trans (h.encryption.trans hencryption₁)
  calls_ge := (h₁.calls.trans h.calls_ge).trans h₂.calls
  calls_le := hcalls

/-! ## Committing a version -/

/-- The version a commit shows, in the state it starts from. -/
def valuesVersion (N : Node) (w : World) (versionId : Text) (values : VersionValues) : StoredVersion where
  versionId
  etag := values.etag
  headers := values.headers
  payload := payloadOf N w values.storagePath values.sse

/-- An id for a new version: `null`, or one no version has yet. -/
def NewVersionId (N : Node) (w : World) (versionId : Text) : Prop :=
  versionId = nullVersionId ∨
    (∃ t < w.calls, versionId = Codec.hex (N.randomBytes t 16)) ∧
      ∀ v ∈ w.db.objectVersions, v.versionId ≠ versionId

/-- What can be committed: a delete marker, or a blob of its own. -/
structure Committable (N : Node) (w : World) (values : VersionValues) : Prop where
  generated : ∀ path, values.storagePath = some path → Generated N w path
  unreferenced : ∀ path, values.storagePath = some path → Unreferenced w.db path
  readable : values.storagePath.isSome → (payloadOf N w values.storagePath values.sse).isSome
  marker : values.isDeleteMarker = values.storagePath.isNone
  size : values.size = ((payloadOf N w values.storagePath values.sse).getD []).length

/-- The row a commit inserts is as good as the values it is given. -/
theorem Committable.versionInv {w w' : World} {k : BucketKey} {versionId : Text} {values : VersionValues}
    (h : Committable N w values) (hid : NewVersionId N w versionId) (hcalls : w'.calls = w.calls + 1)
    (hpayload : payloadOf N w' values.storagePath values.sse =
      payloadOf N w values.storagePath values.sse) :
    VersionInv N w' (committedVersion w.calls (N.now w.calls) k versionId values w.db) where
  guid := by
    change w.calls < w'.calls
    omega
  createdAt := ⟨w.calls, by omega, rfl⟩
  versionId := hid.imp_right fun ⟨⟨t, ht, h⟩, _⟩ => ⟨t, by omega, h⟩
  generated := fun path hpath => (h.generated path hpath).mono (by omega)
  readable := hpayload ▸ h.readable
  marker := h.marker
  size := hpayload ▸ h.size

theorem Inv.fresh {w : World} {versionId : Text} (hw : Inv N w) (hdistinct : N.Distinct (w.calls + 1))
    (hid : NewVersionId N w versionId) : Fresh w.calls (N.now w.calls) versionId w.db where
  object := fun o ho => (hw.objects o ho).ne
  version := fun v hv => (hw.versions v hv).guid.ne
  createdAt := fun v hv => by
    obtain ⟨t, ht, h⟩ := (hw.versions v hv).createdAt
    rw [h]
    exact hdistinct.now w.calls (by omega) t ht
  versionId := fun hne => (hid.resolve_left hne).2

theorem pending_congr {w w' : World} (huploads : w'.db.multipartUploads = w.db.multipartUploads)
    (hparts : w'.db.multipartParts = w.db.multipartParts)
    (hpayload : ∀ p ∈ w.db.multipartParts,
      payloadOf N w' (some p.storagePath) p.sse = payloadOf N w (some p.storagePath) p.sse) :
    pending N w' = pending N w := by
  funext k
  rw [pending, pending, findUpload, findUpload, huploads]
  congr 1
  funext u
  rw [pendingUpload, pendingUpload]
  congr 1
  funext n
  rw [findPart, findPart, hparts]
  cases hp : w.db.multipartParts.find? fun p => p.uploadGuid = u.guid && p.partNumber = n with
  | none => rfl
  | some p => exact hpayload p (List.mem_of_find?_eq_some hp)

section Commit

variable {w w' : World} {k : BucketKey} {versionId : Text} {values : VersionValues}
  {replaced : List Text} {db' : Database}

/-- Rows and blobs after a commit. -/
theorem Inv.committed (hw : Inv N w) (hid : NewVersionId N w versionId)
    (hvalues : Committable N w values)
    (h : Committed k (committedVersion w.calls (N.now w.calls) k versionId values w.db) w.db
      replaced w'.db)
    (hdisk : w'.disk = w.disk) (hencryption : w'.encryption = w.encryption)
    (hcalls : w'.calls = w.calls + 1) : Inv N w' := by
  obtain ⟨_, _, hframe⟩ := h.frame
  have huploads : w'.db.multipartUploads = w.db.multipartUploads := by rw [hframe]
  have hparts : w'.db.multipartParts = w.db.multipartParts := by rw [hframe]
  have hpayload : ∀ storagePath sse,
      payloadOf N w' storagePath sse = payloadOf N w storagePath sse := fun _ _ => by
    rw [payloadOf, payloadOf, hdisk, hencryption]
  refine ⟨h.wellFormed, fun o ho => ?_, fun v hv => ?_, fun u hu => ?_, huploads ▸ hw.upload_guid,
    huploads ▸ hw.upload_id, fun p hp => ?_, hparts ▸ hw.part_number, ⟨?_, ?_, ?_⟩⟩
  · rw [hcalls]
    rcases h.guid o ho with hguid | ⟨p, hp, hguid⟩
    · exact Nat.lt_succ_of_le hguid.le
    · exact Nat.lt_succ_of_lt (hguid ▸ hw.objects p hp)
  · rcases (h.mem v).mp hv with rfl | ⟨hv, -⟩
    · exact hvalues.versionInv hid hcalls (hpayload _ _)
    · exact (hw.versions v hv).mono (by omega) (hpayload _ _)
  · exact (hw.uploads u (huploads ▸ hu)).mono (by omega)
  · exact (hw.parts p (hparts ▸ hp)).mono (by omega) (hpayload _ _)
  · intro v hv v' hv' path hpath hpath'
    rcases (h.mem v).mp hv with rfl | ⟨hv, -⟩ <;> rcases (h.mem v').mp hv' with rfl | ⟨hv', -⟩
    · rfl
    · exact absurd hpath' ((hvalues.unreferenced path hpath).versions v' hv')
    · exact absurd hpath ((hvalues.unreferenced path hpath').versions v hv)
    · exact hw.blobs.versions v hv v' hv' path hpath hpath'
  · rw [hparts]
    exact hw.blobs.parts
  · intro v hv p hp hpath
    rw [hparts] at hp
    rcases (h.mem v).mp hv with rfl | ⟨hv, -⟩
    · exact (hvalues.unreferenced _ hpath).parts p hp rfl
    · exact hw.blobs.apart v hv p hp hpath

/-- What a commit replaces has no row any more. -/
theorem Inv.replaced_unreferenced (hw : Inv N w) (hvalues : Committable N w values)
    (h : Committed k (committedVersion w.calls (N.now w.calls) k versionId values w.db) w.db
      replaced db') {path : Text} (hpath : path ∈ replaced) : Unreferenced db' path := by
  obtain ⟨hnull, u, hu, hunull, hupath⟩ := (h.replaced path).mp hpath
  obtain ⟨hupath, -⟩ := Query.present_eq_some_iff.mp hupath
  have hu' := (mem_history.mp hu).1
  obtain ⟨_, _, hframe⟩ := h.frame
  have hparts : db'.multipartParts = w.db.multipartParts := by rw [hframe]
  refine ⟨fun v hv hv' => ?_, fun p hp hp' => ?_⟩
  · rcases (h.mem v).mp hv with rfl | ⟨hv, hkept⟩
    · exact (hvalues.unreferenced path hv').versions u hu' hupath
    · obtain rfl := hw.blobs.versions v hv u hu' path hv' hupath
      exact hkept ⟨hnull, hunull, hu⟩
  · rw [hparts] at hp
    exact hw.blobs.apart u hu' p hp (hupath.trans (congrArg some hp'.symm))

end Commit

/-- The rows of uploads and parts are as before. -/
structure SameUploads (w w' : World) : Prop where
  uploads : w'.db.multipartUploads = w.db.multipartUploads
  parts : w'.db.multipartParts = w.db.multipartParts

/-- **A version committed is a version written**, and what it replaces has no row any more. -/
theorem commitVersion_spec {w : World} {versionId : Text} {values : VersionValues} (hw : Inv N w)
    (hdistinct : N.Distinct (w.calls + 1)) (hid : NewVersionId N w versionId)
    (hvalues : Committable N w values) (bucket : BucketContext) (key : Text) :
    wp (commitVersion N bucket key versionId values)
      (fun replaced w' =>
        Effect N w w' (VersionedMap.write (·.versionId) (versionId = nullVersionId)
          (bucket.guid, key) (valuesVersion N w versionId values) (versions N w)) (pending N w) ∧
        w'.calls = w.calls + 1 ∧ SameUploads w w' ∧ ∀ path ∈ replaced, Unreferenced w'.db path)
      (fun _ _ => False) w := by
  have hcommitted := commitVersion_committed hw.tables (hw.fresh hdistinct hid) (bucket.guid, key) values
  rw [commitVersion, World.insertFor, wp_perform]
  dsimp only
  generalize hrun : Statements.commitVersion w.calls (N.now w.calls) bucket.guid key versionId values
    w.db = committed at hcommitted ⊢
  obtain ⟨_, _, hframe⟩ := hcommitted.frame
  have huploads : committed.2.multipartUploads = w.db.multipartUploads := by rw [hframe]
  have hparts : committed.2.multipartParts = w.db.multipartParts := by rw [hframe]
  refine ⟨⟨hw.committed hid hvalues hcommitted rfl rfl rfl, ?_, pending_congr huploads hparts
    fun _ _ => rfl, ?_, rfl, Nat.le_succ _, ?_⟩, rfl, ⟨huploads, hparts⟩,
    fun path hpath => hw.replaced_unreferenced hvalues hcommitted hpath⟩
  · rw [versions, hcommitted.history, VersionedMap.map_write (storedVersion_versionId N _)]
    rfl
  · change committed.2.buckets = _
    rw [hframe]
  · change w.calls + 1 ≤ w.calls + 8
    omega

/-! ## Version ids -/

/-- The id a new version gets: a new one in a versioned bucket, `null` in any other. -/
structure AssignedId (N : Node) (w : World) (versioning : BucketVersioning) (versionId : Text) : Prop where
  eq_null : versionId = nullVersionId ↔ versioning ≠ .enabled
  fresh : versioning = .enabled → ∀ k, ∀ s ∈ versions N w k, s.versionId ≠ versionId

theorem hex_ne_null {random : Bytes} (hrandom : random.length = 16) : Codec.hex random ≠ nullVersionId := by
  intro h
  have hlength := congrArg List.length h
  rw [Codec.length_hex, hrandom] at hlength
  cases hlength

theorem hex_randomBytes_ne_null (t : ℕ) : Codec.hex (N.randomBytes t 16) ≠ nullVersionId :=
  hex_ne_null (N.length_randomBytes t 16)

theorem nextVersionId_spec {w : World} (versioning : BucketVersioning) (hw : Inv N w)
    (hdistinct : N.Distinct (w.calls + 1)) :
    wp (nextVersionId N versioning)
      (fun versionId w' => (∃ n, w.calls ≤ n ∧ n ≤ w.calls + 1 ∧ w' = { w with calls := n }) ∧
        NewVersionId N w' versionId ∧ AssignedId N w versioning versionId)
      (fun _ _ => False) w := by
  have hnull : ∀ v : BucketVersioning, v ≠ .enabled →
      (∃ n, w.calls ≤ n ∧ n ≤ w.calls + 1 ∧ w = { w with calls := n }) ∧
        NewVersionId N w nullVersionId ∧ AssignedId N w v nullVersionId := fun v hv =>
    ⟨⟨w.calls, le_rfl, Nat.le_succ _, rfl⟩, Or.inl rfl, ⟨fun _ => hv, fun _ => rfl⟩,
      fun h => absurd h hv⟩
  cases versioning with
  | disabled => exact hnull .disabled nofun
  | suspended => exact hnull .suspended nofun
  | enabled =>
    have hnew : ∀ v ∈ w.db.objectVersions, v.versionId ≠ Codec.hex (N.randomBytes w.calls 16) := by
      intro v hv hid
      rcases (hw.versions v hv).versionId with h | ⟨t, ht, h⟩
      · exact hex_randomBytes_ne_null w.calls (hid.symm.trans h)
      · have := hdistinct.versionId t (by omega) w.calls (by omega)
          (Codec.hex_injective (h.symm.trans hid))
        omega
    refine ⟨⟨w.calls + 1, Nat.le_succ _, le_rfl, rfl⟩,
      Or.inr ⟨⟨w.calls, Nat.lt_succ_self _, rfl⟩, hnew⟩,
      ⟨fun h => absurd h (hex_randomBytes_ne_null _), fun h => absurd rfl h⟩, fun _ k s hs => ?_⟩
    obtain ⟨v, hv, rfl⟩ := List.mem_map.mp hs
    exact hnew v (mem_history.mp hv).1

/-! ## Writing a key -/

/-- A descriptor survives its columns. -/
theorem toBlobEncryption_toEncryptionColumns {encryption : Option StorageTypes.BlobEncryption}
    (h : ∀ descriptor ∈ encryption, descriptor.wrappedKey ≠ []) :
    toBlobEncryption (toEncryptionColumns encryption) = encryption := by
  cases encryption with
  | none => rfl
  | some descriptor =>
    have hpresent := Query.present_eq_some_iff.mpr ⟨rfl, h descriptor rfl⟩
    simp only [toEncryptionColumns, toBlobEncryption, hpresent]

/-- One that opens a blob does. -/
theorem toBlobEncryption_of_payload {config : StorageTypes.EncryptionConfig}
    {disk : FileTable Text Blob} {path : Text} {encryption : Option StorageTypes.BlobEncryption}
    {content : Bytes} (h : payload N config disk path encryption = some content) :
    toBlobEncryption (toEncryptionColumns encryption) = encryption := by
  refine toBlobEncryption_toEncryptionColumns fun descriptor hdescriptor hkey => ?_
  rw [Option.mem_def.mp hdescriptor, payload] at h
  obtain ⟨blob, -, hblob⟩ := Option.bind_eq_some_iff.mp h
  have hclosed : StorageCipher.openKey N config descriptor = none := by
    rw [StorageCipher.openKey, hkey]
    rfl
  simp [hclosed] at hblob

theorem payloadOf_written {w w' : World} {content : Bytes} {result : StorageTypes.WriteResult}
    (h : Written N w content result w') :
    payloadOf N w' (some result.storagePath) (toEncryptionColumns result.encryption) = some content := by
  rw [payloadOf, Option.bind_some, toBlobEncryption_of_payload h.payload, h.payload]

/-- What a new blob gives a version row. -/
theorem Committable.of_written {w w₁ : World} {content : Bytes} {result : StorageTypes.WriteResult}
    (hw : Inv N w) (h : Written N w content result w₁) (hdistinct : N.Distinct w₁.calls) (w' : World)
    (hcalls : w₁.calls ≤ w'.calls) (hdb : w'.db = w.db) (hdisk : w'.disk = w₁.disk)
    (hencryption : w'.encryption = w₁.encryption) {values : VersionValues}
    (hpath : values.storagePath = some result.storagePath)
    (hsse : values.sse = toEncryptionColumns result.encryption)
    (hmarker : values.isDeleteMarker = false) (hsize : values.size = result.size) :
    Committable N w' values ∧ payloadOf N w' values.storagePath values.sse = some content := by
  have hpayload : payloadOf N w' values.storagePath values.sse = some content := by
    rw [hpath, hsse, ← payloadOf_written h, payloadOf, payloadOf, hdisk, hencryption]
  refine ⟨⟨?_, ?_, fun _ => by rw [hpayload]; rfl, by rw [hmarker, hpath]; rfl, ?_⟩, hpayload⟩
  · intro path hp
    rw [hpath] at hp
    rw [← Option.some.inj hp]
    exact ⟨w.calls, h.calls.trans_le hcalls, h.storagePath⟩
  · intro path hp
    rw [hpath] at hp
    rw [hdb, ← Option.some.inj hp]
    exact Unreferenced.of_written hw hdistinct h.storagePath h.calls
  · rw [hsize, h.size, hpayload]
    rfl

/-- The faults with which a write is refused. -/
def putFaults : List Fault :=
  [.invalidKey, .payloadTooLarge, .payloadInterrupted, .badDigest, .bucketQuotaExceeded,
    .userQuotaExceeded]

/-- The version a successful write shows. -/
structure PutResponse (N : Node) (w : World) (versioning : BucketVersioning) (content : Bytes)
    (result : PutObjectResult) : Prop where
  assigned : AssignedId N w versioning result.versionId
  etag : result.etag = Codec.hex (N.md5 content)
  size : result.size = content.length

theorem mem_putFaults_of_quota {e : Fault} (h : e = .bucketQuotaExceeded ∨ e = .userQuotaExceeded) :
    e ∈ putFaults := by
  rcases h with rfl | rfl <;> decide

theorem mem_putFaults_of_write {e : Fault} (h : e = .payloadTooLarge ∨ e = .payloadInterrupted) :
    e ∈ putFaults := by
  rcases h with rfl | rfl <;> decide

/-- The checks of a file on disk, which a refusal removes. -/
theorem checkWritten_effect (bucket : BucketContext) (contentMd5 : Option Text)
    (result : StorageTypes.WriteResult) (w : World) :
    wp (tryCatch (do
        assertContentMd5 contentMd5 result.etag
        UsageService.assertQuota bucket.toQuotaTarget result.size) fun err => do
          StorageService.delete result.storagePath
          throw err)
      (fun _ w' => w' = w)
      (fun e w' => w' = { w with disk := w.disk.remove result.storagePath } ∧ e ∈ putFaults) w := by
  rw [wp_tryCatch, wp_bind, assertContentMd5, wp_require]
  refine ⟨fun _ => ?_, fun _ => ⟨rfl, by decide⟩⟩
  refine wp_mono (UsageService.assertQuota_spec _ _ _) (fun _ _ h => h) ?_
  rintro e _ ⟨rfl, he⟩
  exact ⟨rfl, mem_putFaults_of_quota he⟩

/-- The checks on a blob that has been written: where one fails, the blob is deleted again. -/
theorem checkWritten_spec {w w₁ : World} {content : Bytes} {result : StorageTypes.WriteResult}
    (hw : Inv N w) (h : Written N w content result w₁) (hdistinct : N.Distinct w₁.calls)
    (bucket : BucketContext) (contentMd5 : Option Text) :
    wp (tryCatch (do
        assertContentMd5 contentMd5 result.etag
        UsageService.assertQuota bucket.toQuotaTarget result.size) fun err => do
          StorageService.delete result.storagePath
          throw err)
      (fun _ w' => w' = w₁) (fun e w' => Unchanged N w w' ∧ e ∈ putFaults) w₁ := by
  have hquiet : Quiet w { w₁ with disk := w₁.disk.remove result.storagePath } := by
    have hwritten := Quiet.of_confined hw h.confined hdistinct
    refine hwritten.trans (Quiet.of_remove ?_)
    rw [hwritten.db]
    exact Unreferenced.of_written hw hdistinct h.storagePath h.calls
  have hcalls := h.calls_le
  have hunchanged : Unchanged N w { w₁ with disk := w₁.disk.remove result.storagePath } :=
    Effect.of_quiet hw hquiet h.confined.encryption (by
      change w₁.calls ≤ w.calls + 8
      omega)
  refine wp_mono (checkWritten_effect bucket contentMd5 result w₁) (fun _ _ h => h) ?_
  rintro e _ ⟨rfl, he⟩
  exact ⟨hunchanged, he⟩

/-- Committing a blob that has been written and checked, and deleting what it replaces. -/
theorem commitWritten_spec {w w₁ : World} {content : Bytes} {result : StorageTypes.WriteResult}
    (hw : Inv N w) (h : Written N w content result w₁) (hdistinct : N.Distinct (w.calls + 7))
    (bucket : BucketContext) (key : Text) (values : VersionValues)
    (hpath : values.storagePath = some result.storagePath)
    (hsse : values.sse = toEncryptionColumns result.encryption)
    (hmarker : values.isDeleteMarker = false) (hsize : values.size = result.size) :
    wp (nextVersionId N bucket.versioning)
      (fun versionId => wp (commitVersion N bucket key versionId values)
        (fun replaced w' =>
          Effect N w w' (VersionedMap.write (·.versionId) (bucket.versioning ≠ .enabled)
            (bucket.guid, key) ⟨versionId, values.etag, values.headers, some content⟩ (versions N w))
            (pending N w) ∧ w'.calls ≤ w.calls + 7 ∧ AssignedId N w bucket.versioning versionId ∧
          SameUploads w w' ∧ ∀ path ∈ replaced, Unreferenced w'.db path)
        (fun _ _ => False))
      (fun _ _ => False) w₁ := by
  have hcalls := h.calls_le
  have hquiet := Quiet.of_confined hw h.confined (hdistinct.mono (by omega))
  have hw₁ := hquiet.inv hw
  refine wp_mono (nextVersionId_spec _ hw₁ (hdistinct.mono (by omega))) ?_ fun _ _ h => h
  rintro versionId _ ⟨⟨n, hn, hn', rfl⟩, hnew, hassigned⟩
  have hquiet₂ : Quiet w₁ { w₁ with calls := n } := Quiet.of_calls hn
  obtain ⟨hvalues, hpayload⟩ := Committable.of_written hw h
    (hdistinct.mono (by omega)) { w₁ with calls := n } hn hquiet.db rfl rfl hpath hsse hmarker hsize
  refine wp_mono (commitVersion_spec (hquiet₂.inv hw₁)
    (hdistinct.mono (show n + 1 ≤ w.calls + 7 by omega)) hnew hvalues bucket key) ?_ fun _ _ h => h
  rintro replaced w' ⟨heffect, hcalls', hsame, hreplaced⟩
  change w'.calls = n + 1 at hcalls'
  have huploads : SameUploads w w' :=
    ⟨hsame.uploads.trans (congrArg _ hquiet.db), hsame.parts.trans (congrArg _ hquiet.db)⟩
  have hnull : decide (versionId = nullVersionId) = decide (bucket.versioning ≠ .enabled) := by
    rw [decide_eq_decide]
    exact hassigned.eq_null
  refine ⟨?_, by omega, ⟨hassigned.eq_null, fun henabled => ?_⟩, huploads, hreplaced⟩
  · refine ⟨heffect.inv, ?_, ?_, ?_, ?_, ?_, ?_⟩
    · rw [heffect.versions, hnull, hquiet₂.versions_eq, hquiet.versions_eq, valuesVersion, hpayload]
    · rw [heffect.pending, hquiet₂.pending_eq, hquiet.pending_eq]
    · rw [heffect.buckets, hquiet₂.db, hquiet.db]
    · exact heffect.encryption.trans h.confined.encryption
    · have := h.calls
      omega
    · change w'.calls ≤ w.calls + 8
      omega
  · rw [← hquiet.versions_eq]
    exact hassigned.fresh henabled

/-- Deleting the blobs that were replaced changes nothing more. -/
theorem Effect.deleteBlobs {w w₁ : World} {vs : VersionedMap BucketKey StoredVersion}
    {uploads : BucketUpload → Option PendingUpload} (h : Effect N w w₁ vs uploads) {paths : List Text}
    (hpaths : ∀ path ∈ paths, Unreferenced w₁.db path) :
    wp (ObjectsService.deleteBlobs paths) (fun _ w' => Effect N w w' vs uploads ∧ w'.calls = w₁.calls)
      (fun _ _ => False) w₁ := by
  refine wp_mono (deleteBlobs_spec hpaths) ?_ fun _ _ h => h
  rintro _ w' ⟨hquiet, hencryption, hcalls⟩
  refine ⟨⟨hquiet.inv h.inv, hquiet.versions_eq.trans h.versions, hquiet.pending_eq.trans h.pending,
    (congrArg Database.buckets hquiet.db).trans h.buckets, hencryption.trans h.encryption,
    hcalls ▸ h.calls_ge, hcalls ▸ h.calls_le⟩, hcalls⟩

/-- **A write shows its payload as the key's newest version, or is refused and changes nothing.** -/
theorem put_spec {w : World} (params : PutObjectParams) (hw : Inv N w)
    (hdistinct : N.Distinct (w.calls + 7)) :
    wp (put N params)
      (fun r w' => Effect N w w' (VersionedMap.write (·.versionId) (params.bucket.versioning ≠ .enabled)
          (params.bucket.guid, params.key)
          ⟨r.versionId, r.etag, toVersionColumns params.headers, some params.stream.content⟩
          (versions N w)) (pending N w) ∧ w'.calls ≤ w.calls + 7 ∧
        PutResponse N w params.bucket.versioning params.stream.content r)
      (fun e w' => Unchanged N w w' ∧ e ∈ putFaults) w := by
  have hrefl : Unchanged N w w := Effect.of_quiet hw (Quiet.refl w) rfl (Nat.le_add_right _ _)
  rw [put, wp_bind, assertValidKey, wp_require]
  refine ⟨fun _ => ?_, fun _ => ⟨hrefl, by decide⟩⟩
  rw [wp_bind, assertWithinMaxBytes, wp_require]
  refine ⟨fun _ => ?_, fun _ => ⟨hrefl, by decide⟩⟩
  rw [wp_bind]
  refine wp_mono (UsageService.assertQuota_spec _ _ w) ?_ fun e w' ⟨h, he⟩ =>
    ⟨h ▸ hrefl, mem_putFaults_of_quota he⟩
  intro _ w₀ hsame
  rw [hsame, wp_bind]
  refine wp_mono (write_spec params.stream params.maxBytes w) ?_ ?_
  · intro written w₁ hwritten
    have hcalls := hwritten.calls_le
    rw [wp_bind]
    refine wp_mono (checkWritten_spec hw hwritten (hdistinct.mono (by omega)) params.bucket
      params.contentMd5) ?_ fun _ _ h => h
    intro _ w₀ hsame
    rw [hsame, wp_bind]
    have hcommitted := commitWritten_spec hw hwritten hdistinct params.bucket params.key {
      size := written.size
      etag := written.etag
      headers := toVersionColumns params.headers
      storagePath := some written.storagePath
      sse := toEncryptionColumns written.encryption
      createdByAccessKeyId := params.accessKeyId } rfl rfl rfl rfl
    refine wp_mono hcommitted ?_ fun _ _ h => h.elim
    intro versionId w₂ hcommit
    rw [wp_bind]
    refine wp_mono hcommit ?_ fun _ _ h => h.elim
    rintro replaced w₃ ⟨heffect, hcalls₃, hassigned, -, hreplaced⟩
    rw [wp_bind]
    refine wp_mono (heffect.deleteBlobs hreplaced) ?_ fun _ _ h => h.elim
    rintro _ w₄ ⟨heffect', hcalls₄⟩
    exact ⟨heffect', hcalls₄ ▸ hcalls₃, hassigned, hwritten.etag, hwritten.size⟩
  · rintro e w' ⟨hconfined, hcalls, he⟩
    refine ⟨Effect.of_quiet hw (Quiet.of_confined hw hconfined (hdistinct.mono (by omega)))
      hconfined.encryption ?_, mem_putFaults_of_write he⟩
    change w'.calls ≤ w.calls + 8
    omega

/-! ## Reading a key -/

variable (N) in
/-- What a read serves: the version asked for and, unless it is a delete marker, its payload. -/
def readObject (bucketGuid : Guid) (key : Text) (versionId : Option Text) :
    Service (ObjectVersionDetail × Option Bytes) := do
  let version ← getVersion bucketGuid key versionId
  match Query.present version.storagePath with
  | none => return (version, none)
  | some storagePath =>
      let payload ← readPayload N storagePath none version.encryption
      return (version, some payload.stream.content)

/-- A version row found for a key shows the stored version `s`. -/
structure Shows (N : Node) (w : World) (key : Text) (s : StoredVersion)
    (detail : ObjectVersionDetail) : Prop where
  key : detail.key = key
  versionId : detail.versionId = s.versionId
  etag : detail.etag = s.etag
  headers : detail.headers = s.headers
  size : detail.size = (s.payload.getD []).length
  isDeleteMarker : detail.isDeleteMarker = s.payload.isNone
  payload : (detail.storagePath.bind fun path =>
    payload N w.encryption w.disk path detail.encryption) = s.payload
  present : Query.present detail.storagePath = detail.storagePath
  storagePath : detail.storagePath.isSome = s.payload.isSome

theorem present_of_generated {w : World} {storagePath : Option Text}
    (h : ∀ path, storagePath = some path → Generated N w path) :
    Query.present storagePath = storagePath := by
  cases storagePath with
  | none => rfl
  | some path =>
    obtain ⟨t, -, rfl⟩ := h path rfl
    exact Query.present_eq_some_iff.mpr ⟨rfl, storagePathOf_ne_nil _⟩

theorem shows_of_row {w : World} {k : BucketKey} {v : ObjectVersionRow} (hw : Inv N w)
    (hv : v ∈ history w.db k) (latestVersionGuid : Option Guid) :
    Shows N w k.2 (storedVersion N w v) (toVersionDetail k.2 latestVersionGuid v) := by
  have hrow := hw.versions v (mem_history.mp hv).1
  have hsome : v.storagePath.isSome = (payloadOf N w v.storagePath v.sse).isSome := by
    cases hpath : v.storagePath with
    | none => rfl
    | some path =>
      have hreadable := hrow.readable
      rw [hpath] at hreadable
      rw [hreadable rfl]
      rfl
  refine ⟨rfl, rfl, rfl, rfl, hrow.size, ?_, rfl, present_of_generated hrow.generated, hsome⟩
  change v.isDeleteMarker = (payloadOf N w v.storagePath v.sse).isNone
  rw [hrow.marker, ← Option.not_isSome, hsome, Option.not_isSome]

/-- The fault of a lookup that finds nothing. -/
def notFound (m : VersionedMap BucketKey StoredVersion) (k : BucketKey) (versionId : Option Text) :
    Fault :=
  if (Query.present versionId).isSome ∧ m k ≠ [] then .versionNotFound else .objectNotFound

theorem versions_eq_nil {w : World} {k : BucketKey} : versions N w k = [] ↔ history w.db k = [] := by
  rw [versions, VersionedMap.map, List.map_eq_nil_iff]

theorem history_ne_nil {w : World} (hw : Inv N w) {k : BucketKey} {o : ObjectRow}
    (ho : findObject k.1 k.2 w.db = some o) : history w.db k ≠ [] := by
  obtain ⟨v, hlast, -⟩ := hw.tables.latest o (List.mem_of_find?_eq_some ho)
  rw [history_of_found ho]
  intro h
  rw [List.reverse_eq_nil_iff.mp h] at hlast
  cases hlast

/-- **`getVersion` is a lookup**, and changes nothing. -/
theorem getVersion_spec {w : World} (hw : Inv N w) (bucketGuid : Guid) (key : Text)
    (versionId : Option Text) :
    match VersionedMap.lookup (·.versionId) (versions N w) (bucketGuid, key)
      (Query.present versionId) with
    | some s => ∃ detail, getVersion bucketGuid key versionId w = .ok detail w ∧ Shows N w key s detail
    | none => getVersion bucketGuid key versionId w =
        .error (notFound (versions N w) (bucketGuid, key) versionId) w := by
  have hlookup := VersionedMap.lookup_map (storedVersion_versionId N w) (history w.db)
    (bucketGuid, key) (Query.present versionId)
  rw [versions, hlookup]
  cases hfound : findObject bucketGuid key w.db with
  | none =>
    have hempty : history w.db (bucketGuid, key) = [] := by
      refine history_of_none ?_
      rw [objectGuid, hfound, Option.map_none]
    have hlookup' : VersionedMap.lookup (·.versionId) (history w.db) (bucketGuid, key)
        (Query.present versionId) = none := by
      cases Query.present versionId with
      | none => rw [VersionedMap.lookup, hempty]; rfl
      | some i => rw [VersionedMap.lookup, hempty]; rfl
    have hrun : getVersion bucketGuid key versionId w = .error .objectNotFound w := by
      change (orThrow (findObject bucketGuid key w.db) Fault.objectNotFound >>= _ : Service _) w = _
      rw [hfound]
      rfl
    have hmap : VersionedMap.map (storedVersion N w) (history w.db) (bucketGuid, key) = [] := by
      rw [VersionedMap.map, hempty, List.map_nil]
    rw [hlookup', hrun, notFound, if_neg fun h => h.2 hmap]
    rfl
  | some o =>
    have hkey := ((findObject_eq_some hw.tables.object_key).mp hfound).2.2
    have hread : selectVersion o versionId w.db =
        VersionedMap.lookup (·.versionId) (history w.db) (bucketGuid, key)
          (Query.present versionId) := by
      rw [selectVersion]
      cases Query.present versionId with
      | none => exact findVersionByGuid_latest (k := (bucketGuid, key)) hw.tables hfound
      | some i => exact findVersion_eq (k := (bucketGuid, key)) hw.tables hfound i
    have hrun : getVersion bucketGuid key versionId w =
        (do
          let version ← orThrow (VersionedMap.lookup (·.versionId) (history w.db) (bucketGuid, key)
            (Query.present versionId))
            (if (Query.present versionId).isSome then .versionNotFound else .objectNotFound)
          return toVersionDetail o.key o.latestVersionGuid version : Service _) w := by
      change (orThrow (findObject bucketGuid key w.db) Fault.objectNotFound >>= _ : Service _) w = _
      rw [hfound, ← hread]
      rfl
    rw [hrun]
    cases hv : VersionedMap.lookup (·.versionId) (history w.db) (bucketGuid, key)
      (Query.present versionId) with
    | none =>
      have hmap : VersionedMap.map (storedVersion N w) (history w.db) (bucketGuid, key) ≠ [] :=
        fun h => history_ne_nil (k := (bucketGuid, key)) hw hfound (versions_eq_nil.mp h)
      have hfault : notFound (VersionedMap.map (storedVersion N w) (history w.db)) (bucketGuid, key)
          versionId = if (Query.present versionId).isSome then .versionNotFound else .objectNotFound := by
        rw [notFound]
        simp only [ne_eq, hmap, not_false_eq_true, and_true]
      rw [hfault]
      rfl
    | some v =>
      have hmem : v ∈ history w.db (bucketGuid, key) := by
        cases hid : Query.present versionId with
        | none =>
          rw [hid] at hv
          exact List.mem_of_mem_head? hv
        | some i =>
          rw [hid] at hv
          exact List.mem_of_find?_eq_some hv
      refine ⟨_, rfl, ?_⟩
      rw [hkey]
      exact shows_of_row hw hmem _

/-- **A read is a lookup**: it serves the version of the map with its payload, and changes nothing. -/
theorem readObject_spec {w : World} (hw : Inv N w) (bucketGuid : Guid) (key : Text)
    (versionId : Option Text) :
    match VersionedMap.lookup (·.versionId) (versions N w) (bucketGuid, key)
      (Query.present versionId) with
    | some s => ∃ detail, readObject N bucketGuid key versionId w = .ok (detail, s.payload) w ∧
        Shows N w key s detail
    | none => readObject N bucketGuid key versionId w =
        .error (notFound (versions N w) (bucketGuid, key) versionId) w := by
  have hget := getVersion_spec hw bucketGuid key versionId
  cases hs : VersionedMap.lookup (·.versionId) (versions N w) (bucketGuid, key)
    (Query.present versionId) with
  | none =>
    rw [hs] at hget
    exact run_bind_of_error hget
  | some s =>
    rw [hs] at hget
    obtain ⟨detail, hrun, hshows⟩ := hget
    refine ⟨detail, ?_, hshows⟩
    rw [readObject, run_bind_of_ok hrun]
    change (match Query.present detail.storagePath with
      | none => pure (detail, none)
      | some storagePath => readPayload N storagePath none detail.encryption >>= fun payload =>
          pure (detail, some payload.stream.content) : Service _) w = _
    have hpayload := hshows.payload
    rw [hshows.present]
    cases hpath : detail.storagePath with
    | none =>
      rw [hpath] at hpayload
      rw [← hpayload]
      rfl
    | some path =>
      rw [hpath, Option.bind_some] at hpayload
      have hsome := hshows.storagePath
      rw [hpath] at hsome
      obtain ⟨content, hcontent⟩ := Option.isSome_iff_exists.mp hsome.symm
      rw [hcontent] at hpayload
      obtain ⟨result, hread, -, hstream⟩ := read_eq hpayload none
      refine (run_bind_of_ok (x := readPayload N path none detail.encryption) hread).trans ?_
      rw [hcontent]
      exact congrArg (fun c => EStateM.Result.ok (detail, some c) w) hstream

/-! ## Copying a key -/

/-- **A copy shows the payload of its source** as the newest version of its key. -/
theorem copy_spec {w : World} (hw : Inv N w) (hdistinct : N.Distinct (w.calls + 7))
    {sourceKey : Text} {s : StoredVersion} {source : ObjectVersionDetail}
    (hsource : Shows N w sourceKey s source) (target : BucketContext) (key : Text)
    (directive : MetadataDirective) (accessKeyId : Option Text) (headers : ObjectHeaders) :
    wp (copy N source target key directive accessKeyId headers)
      (fun r w' => ∃ content, s.payload = some content ∧
        Effect N w w' (VersionedMap.write (·.versionId) (target.versioning ≠ .enabled)
          (target.guid, key) ⟨r.1.versionId, r.1.etag,
            toVersionColumns (inheritedHeaders s.headers directive headers), some content⟩
          (versions N w)) (pending N w) ∧
        PutResponse N w target.versioning content r.1)
      (fun e w' => Unchanged N w w' ∧ (s.payload = none ∧ e = .objectNotFound ∨ e ∈ putFaults)) w := by
  have hrefl : Unchanged N w w := Effect.of_quiet hw (Quiet.refl w) rfl (Nat.le_add_right _ _)
  have hpayload := hsource.payload
  have hsome := hsource.storagePath
  rw [copy, wp_bind, wp_orThrow, hsource.present]
  refine ⟨fun path hpath => ?_, fun hpath => ⟨hrefl, Or.inl ⟨?_, rfl⟩⟩⟩
  · rw [hpath, Option.bind_some] at hpayload
    rw [hpath] at hsome
    obtain ⟨content, hcontent⟩ := Option.isSome_iff_exists.mp hsome.symm
    rw [hcontent] at hpayload
    obtain ⟨result, hread, -, hstream⟩ := read_eq hpayload none
    rw [wp_bind, wp, hread]
    change wp (put N { bucket := target, key, stream := result.stream, accessKeyId, headers := _ } >>= _)
      _ _ w
    rw [wp_bind]
    refine wp_mono (put_spec _ hw hdistinct) ?_ fun e w' h => ⟨h.1, Or.inr h.2⟩
    rintro r w' ⟨heffect, hcalls, hresponse⟩
    rw [wp_bind, wp_nextCall, wp_pure]
    change result.stream.content = content at hstream
    rw [hstream, hsource.headers] at heffect
    rw [hstream] at hresponse
    have hquiet : Quiet w' { w' with calls := w'.calls + 1 } := Quiet.of_calls (Nat.le_succ _)
    exact ⟨content, hcontent, Effect.of_quiet_trans (Quiet.refl w) rfl heffect hquiet rfl (by
      change w'.calls + 1 ≤ w.calls + 8
      omega), hresponse⟩
  · rw [hpath] at hpayload
    exact hpayload.symm

/-! ## Deleting a key or a version of it -/

/-- Rows that lose some versions, and keys with them. -/
theorem Inv.shrunk {w w' : World} (hw : Inv N w) (htables : WellFormed w'.db)
    (hobjects : ∀ o ∈ w'.db.objects, ∃ p ∈ w.db.objects, p.guid = o.guid)
    (hversions : ∀ v ∈ w'.db.objectVersions, v ∈ w.db.objectVersions)
    (huploads : w'.db.multipartUploads = w.db.multipartUploads)
    (hparts : w'.db.multipartParts = w.db.multipartParts) (hdisk : w'.disk = w.disk)
    (hencryption : w'.encryption = w.encryption) (hcalls : w'.calls = w.calls) : Inv N w' := by
  have hpayload : ∀ storagePath sse,
      payloadOf N w' storagePath sse = payloadOf N w storagePath sse := fun _ _ => by
    rw [payloadOf, payloadOf, hdisk, hencryption]
  refine ⟨htables, fun o ho => ?_, fun v hv => ?_, fun u hu => ?_, huploads ▸ hw.upload_guid,
    huploads ▸ hw.upload_id, fun p hp => ?_, hparts ▸ hw.part_number, ?_, ?_, ?_⟩
  · obtain ⟨p, hp, hguid⟩ := hobjects o ho
    exact hcalls ▸ hguid ▸ hw.objects p hp
  · exact (hw.versions v (hversions v hv)).mono hcalls.ge (hpayload _ _)
  · exact (hw.uploads u (huploads ▸ hu)).mono hcalls.ge
  · exact (hw.parts p (hparts ▸ hp)).mono hcalls.ge (hpayload _ _)
  · intro v hv v' hv'
    exact hw.blobs.versions v (hversions v hv) v' (hversions v' hv')
  · rw [hparts]
    exact hw.blobs.parts
  · intro v hv p hp
    exact hw.blobs.apart v (hversions v hv) p (hparts ▸ hp)

/-- A blob whose version row is gone has no row. -/
theorem Inv.unreferenced_of_gone {w : World} (hw : Inv N w) {db' : Database}
    (hversions : ∀ v ∈ db'.objectVersions, v ∈ w.db.objectVersions)
    (hparts : db'.multipartParts = w.db.multipartParts) {u : ObjectVersionRow}
    (hu : u ∈ w.db.objectVersions) (hgone : u ∉ db'.objectVersions) {path : Text}
    (hpath : u.storagePath = some path) : Unreferenced db' path where
  versions := fun v hv hv' =>
    hgone (hw.blobs.versions v (hversions v hv) u hu path hv' hpath ▸ hv)
  parts := fun p hp hp' =>
    hw.blobs.apart u hu p (hparts ▸ hp) (hpath.trans (congrArg some hp'.symm))

/-- **What a delete did.** -/
inductive Deleted (N : Node) (w : World) (k : BucketKey) (versioning : BucketVersioning)
    (versionId : Option Text) : DeleteResult → World → Prop
  /-- There was no such key. -/
  | absent {w' : World} (hk : versions N w k = []) (h : Unchanged N w w') :
      Deleted N w k versioning versionId ⟨none, false⟩ w'
  /-- One version was removed. -/
  | version {w' : World} {i : Text} {s : StoredVersion} (hid : Query.present versionId = some i)
      (hs : (versions N w k).find? (·.versionId = i) = some s)
      (h : Effect N w w' (VersionedMap.remove (·.versionId) k i (versions N w)) (pending N w)) :
      Deleted N w k versioning versionId ⟨some i, s.payload.isNone⟩ w'
  /-- The key was dropped with all its versions. -/
  | purged {w' : World} (hid : Query.present versionId = none) (hk : versions N w k ≠ [])
      (hversioning : versioning = .disabled)
      (h : Effect N w w' (VersionedMap.purge k (versions N w)) (pending N w)) :
      Deleted N w k versioning versionId ⟨none, false⟩ w'
  /-- The key was hidden behind a delete marker. -/
  | marked {w' : World} {i : Text} (hid : Query.present versionId = none) (hk : versions N w k ≠ [])
      (hversioning : versioning ≠ .disabled) (hassigned : AssignedId N w versioning i)
      (h : Effect N w w' (VersionedMap.write (·.versionId) (versioning ≠ .enabled) k
        ⟨i, [], {}, none⟩ (versions N w)) (pending N w)) :
      Deleted N w k versioning versionId ⟨some i, true⟩ w'

theorem Deleted.effect {w w' : World} {k : BucketKey} {versioning : BucketVersioning}
    {versionId : Option Text} {r : DeleteResult} (h : Deleted N w k versioning versionId r w') :
    ∃ vs, Effect N w w' vs (pending N w) := by
  cases h with
  | absent _ h => exact ⟨_, h⟩
  | version _ _ h => exact ⟨_, h⟩
  | purged _ _ _ h => exact ⟨_, h⟩
  | marked _ _ _ _ h => exact ⟨_, h⟩

/-- Removing one version of a key. -/
theorem deleteVersion_spec {w : World} (hw : Inv N w) {k : BucketKey} {o : ObjectRow}
    (ho : findObject k.1 k.2 w.db = some o) (i : Text) :
    wp (deleteVersion o.guid i)
      (fun r w' => ∃ s, (versions N w k).find? (·.versionId = i) = some s ∧
        r = ⟨some i, s.payload.isNone⟩ ∧
        Effect N w w' (VersionedMap.remove (·.versionId) k i (versions N w)) (pending N w))
      (fun e w' => w' = w ∧ e = .versionNotFound ∧
        (versions N w k).find? (·.versionId = i) = none) w := by
  have hfind : (versions N w k).find? (·.versionId = i) =
      ((history w.db k).find? (·.versionId = i)).map (storedVersion N w) :=
    VersionedMap.lookup_map (storedVersion_versionId N w) (history w.db) k (some i)
  change wp (World.select (findVersion o.guid i) >>= _) _ _ w
  rw [wp_bind, World.select, wp_query, wp_bind, wp_orThrow, findVersion_eq hw.tables ho, hfind]
  refine ⟨fun v hv => ?_, fun hnone => ⟨rfl, rfl, by rw [hnone, Option.map_none]⟩⟩
  have hmem := List.mem_of_find?_eq_some hv
  have hid := List.find?_some hv
  rw [decide_eq_true_iff] at hid
  obtain ⟨hmem', hguid⟩ := mem_history.mp hmem
  have hobject : o.guid = v.objectGuid := by
    have : objectGuid k w.db = some o.guid := by rw [objectGuid, ho, Option.map_some]
    exact Option.some.inj (this.symm.trans hguid)
  rw [hobject, wp_bind, World.execute, wp_alter]
  obtain ⟨objects', objectVersions', hframe⟩ : ∃ objects objectVersions,
      removeVersion v.objectGuid v.guid w.db = { w.db with objects, objectVersions } :=
    removeVersion_frame _ _
  have hsub : ∀ u ∈ (removeVersion v.objectGuid v.guid w.db).objectVersions,
      u ∈ w.db.objectVersions := fun u hu => by
    rw [removeVersion_objectVersions] at hu
    exact (List.mem_filter.mp hu).1
  have hgone : v ∉ (removeVersion v.objectGuid v.guid w.db).objectVersions := fun hv' => by
    rw [removeVersion_objectVersions] at hv'
    simpa using (List.mem_filter.mp hv').2
  have hparts : (removeVersion v.objectGuid v.guid w.db).multipartParts = w.db.multipartParts := by
    rw [hframe]
  have hinv : Inv N { w with db := removeVersion v.objectGuid v.guid w.db } := by
    refine hw.shrunk (hw.tables.removeVersion hmem) (fun o ho => guid_removeVersion ho) hsub ?_ hparts
      rfl rfl rfl
    change (removeVersion v.objectGuid v.guid w.db).multipartUploads = _
    rw [hframe]
  have heffect : Effect N w { w with db := removeVersion v.objectGuid v.guid w.db }
      (VersionedMap.remove (·.versionId) k i (versions N w)) (pending N w) := by
    refine ⟨hinv, ?_, ?_, ?_, rfl, le_rfl, Nat.le_add_right _ _⟩
    · rw [versions, history_removeVersion hw.tables hmem, hid,
        VersionedMap.map_remove (storedVersion_versionId N _)]
      rfl
    · refine pending_congr ?_ hparts fun _ _ => rfl
      change (removeVersion v.objectGuid v.guid w.db).multipartUploads = _
      rw [hframe]
    · change (removeVersion v.objectGuid v.guid w.db).buckets = _
      rw [hframe]
  rw [wp_bind]
  refine wp_mono (heffect.deleteBlobs fun path hpath => ?_) ?_ fun _ _ h => h.elim
  · obtain ⟨hpath, -⟩ := Query.present_eq_some_iff.mp (Option.mem_toList.mp hpath)
    exact hw.unreferenced_of_gone hsub hparts hmem' hgone hpath
  · rintro _ w' ⟨heffect', -⟩
    refine ⟨storedVersion N w v, by rw [hv, Option.map_some], ?_, heffect'⟩
    have hshows := shows_of_row hw hmem none
    exact congrArg (DeleteResult.mk (some i)) hshows.isDeleteMarker

/-- Dropping a key with all its versions. -/
theorem purgeObject_spec {w : World} (hw : Inv N w) {k : BucketKey} {o : ObjectRow}
    (ho : findObject k.1 k.2 w.db = some o) :
    wp (do
        let paths ← World.execute (purgeObject o.guid)
        deleteBlobs paths)
      (fun _ w' => Effect N w w' (VersionedMap.purge k (versions N w)) (pending N w))
      (fun _ _ => False) w := by
  have hguid : objectGuid k w.db = some o.guid := by rw [objectGuid, ho, Option.map_some]
  have hsub : ∀ u ∈ (purgeObject o.guid w.db).2.objectVersions, u ∈ w.db.objectVersions :=
    fun u hu => (List.mem_filter.mp hu).1
  have hinv : Inv N { w with db := (purgeObject o.guid w.db).2 } :=
    hw.shrunk hw.tables.purgeObject (fun p hp => ⟨p, (List.mem_filter.mp hp).1, rfl⟩) hsub rfl rfl
      rfl rfl rfl
  have heffect : Effect N w { w with db := (purgeObject o.guid w.db).2 }
      (VersionedMap.purge k (versions N w)) (pending N w) := by
    refine ⟨hinv, ?_, pending_congr rfl rfl fun _ _ => rfl, rfl, rfl, le_rfl, Nat.le_add_right _ _⟩
    rw [versions, history_purgeObject hw.tables hguid, VersionedMap.map_purge]
    rfl
  rw [wp_bind, World.execute, wp_alter]
  refine wp_mono (heffect.deleteBlobs fun path hpath => ?_) (fun _ _ h => h.1) fun _ _ h => h
  obtain ⟨u, hu, hpath⟩ := (mem_purgeObject_paths hguid).mp hpath
  obtain ⟨hpath, -⟩ := Query.present_eq_some_iff.mp hpath
  obtain ⟨hmem, hobject⟩ := mem_history.mp hu
  refine hw.unreferenced_of_gone hsub rfl hmem (fun hu' => ?_) hpath
  have hne := (List.mem_filter.mp hu').2
  simp [Option.some.inj (hguid.symm.trans hobject)] at hne

/-- **A delete removes a version, drops the key or hides it**, and fails only for want of a version. -/
theorem delete_spec {w : World} (hw : Inv N w) (hdistinct : N.Distinct (w.calls + 2))
    (bucket : BucketContext) (key : Text) (versionId accessKeyId : Option Text) :
    wp (delete N bucket key versionId accessKeyId)
      (Deleted N w (bucket.guid, key) bucket.versioning versionId)
      (fun e w' => w' = w ∧ e = .versionNotFound ∧ versions N w (bucket.guid, key) ≠ [] ∧
        ∃ i, Query.present versionId = some i ∧
          (versions N w (bucket.guid, key)).find? (·.versionId = i) = none) w := by
  rw [delete, wp_bind, World.select, wp_query]
  cases ho : findObject bucket.guid key w.db with
  | none =>
    have hempty : versions N w (bucket.guid, key) = [] :=
      versions_eq_nil.mpr (history_of_none (by rw [objectGuid, ho, Option.map_none]))
    exact .absent hempty (Effect.of_quiet hw (Quiet.refl w) rfl (Nat.le_add_right _ _))
  | some o =>
    have hne : versions N w (bucket.guid, key) ≠ [] := fun h =>
      history_ne_nil (k := (bucket.guid, key)) hw ho (versions_eq_nil.mp h)
    dsimp only
    cases hid : Query.present versionId with
    | some i =>
      refine wp_mono (deleteVersion_spec (k := (bucket.guid, key)) hw ho i) ?_ ?_
      · rintro _ w' ⟨s, hs, rfl, heffect⟩
        exact .version hid hs heffect
      · rintro e w' ⟨hsame, he, hs⟩
        exact ⟨hsame, he, hne, i, rfl, hs⟩
    | none =>
      dsimp only
      rw [wp_ite]
      split_ifs with hversioning
      · have hpurge := purgeObject_spec (k := (bucket.guid, key)) hw ho
        rw [wp_bind] at hpurge ⊢
        refine wp_mono hpurge ?_ fun _ _ h => h.elim
        intro paths w₁ h
        rw [wp_bind]
        refine wp_mono h ?_ fun _ _ h => h.elim
        rintro _ w' heffect
        exact .purged hid hne hversioning heffect
      · rw [wp_bind]
        refine wp_mono (nextVersionId_spec _ hw (hdistinct.mono (by omega))) ?_ fun _ _ h => h.elim
        rintro i _ ⟨⟨n, hn, hn', rfl⟩, hnew, hassigned⟩
        have hquiet : Quiet w { w with calls := n } := Quiet.of_calls hn
        rw [wp_bind]
        have hmarker : Committable N { w with calls := n } {
            isDeleteMarker := true
            size := 0
            etag := []
            storagePath := none
            createdByAccessKeyId := accessKeyId } := ⟨by simp, by simp, by simp, rfl, rfl⟩
        refine wp_mono (commitVersion_spec (hquiet.inv hw)
          (hdistinct.mono (show n + 1 ≤ w.calls + 2 by omega)) hnew hmarker bucket key) ?_
          fun _ _ h => h.elim
        rintro replaced w₂ ⟨heffect, hcalls, -, hreplaced⟩
        change w₂.calls = n + 1 at hcalls
        rw [wp_bind]
        refine wp_mono (heffect.deleteBlobs hreplaced) ?_ fun _ _ h => h.elim
        rintro _ w' ⟨heffect', hcalls'⟩
        refine .marked hid hne hversioning hassigned ?_
        have hnull : decide (i = nullVersionId) = decide (bucket.versioning ≠ .enabled) := by
          rw [decide_eq_decide]
          exact hassigned.eq_null
        refine Effect.of_quiet_trans hquiet rfl ?_ (Quiet.refl w') rfl (by
          change w'.calls ≤ w.calls + 8
          omega)
        rw [← hnull, ← hquiet.versions_eq, ← hquiet.pending_eq]
        exact heffect'

/-! ## Deleting many keys -/

/-- Deleting many keys is deleting them in turn, and it does not fail. -/
theorem deleteMany_state (bucket : BucketContext) (accessKeyId : Option Text)
    (entries : List DeleteEntry) (w : World) :
    wp (deleteMany N bucket accessKeyId entries)
      (fun _ w' => w' = entries.foldl (fun w entry =>
        stateAfter (ObjectsService.delete N bucket entry.key entry.versionId accessKeyId) w) w)
      (fun _ _ => False) w := by
  induction entries generalizing w with
  | nil => exact rfl
  | cons entry rest ih =>
    rw [deleteMany, wp_bind, wp_tryCatch, wp_bind]
    have hrest : ∀ w' : World,
        w' = stateAfter (ObjectsService.delete N bucket entry.key entry.versionId accessKeyId) w →
        wp (deleteMany N bucket accessKeyId rest)
          (fun _ w'' => w'' = (entry :: rest).foldl (fun w entry =>
            stateAfter (ObjectsService.delete N bucket entry.key entry.versionId accessKeyId) w) w)
          (fun _ _ => False) w' := by
      rintro _ rfl
      exact ih _
    rw [wp]
    cases hrun : ObjectsService.delete N bucket entry.key entry.versionId accessKeyId w with
    | ok result w' =>
      exact wp_bind.mpr (wp_mono (hrest w' (by rw [stateAfter, hrun])) (fun _ _ h => h) fun _ _ h => h)
    | error err w' =>
      exact wp_bind.mpr (wp_mono (hrest w' (by rw [stateAfter, hrun])) (fun _ _ h => h) fun _ _ h => h)

end ObjectsService
end SimpleStorage
