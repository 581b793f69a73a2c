import SimpleStorage.Objects.ObjectsService
import SimpleStorage.Objects.Transactions

/-!
# What holds of a store between requests

Rows and blobs together.  `Inv` says that the tables are well formed, that every row was
made by an earlier call, that every row with a blob can be read back with the descriptor
it has, and that no two rows share a blob.

What a client can see of a store is `versions`, the versions of each key with their
payloads, and `pending`, the uploads in progress with those of their parts.

A change is `Quiet` if no row notices it, and a quiet change keeps the invariant and what a
client sees (`Quiet.inv`, `Quiet.versions_eq`, `Quiet.pending_eq`).  Writing new files is quiet,
and so is deleting files no row points at: `Quiet.of_confined`, `deleteBlobs_spec`.
-/

namespace SimpleStorage
namespace ObjectsService

open ObjectsTypes Program Statements StorageService

variable (N : Node)

/-! ## What a client can see -/

/-- A version as a client sees it; one without payload is a delete marker. -/
structure StoredVersion where
  versionId : Text
  etag : Text
  headers : HeaderColumns
  payload : Option Bytes
  deriving DecidableEq, Repr

/-- The payload behind a row. -/
def payloadOf (w : World) (storagePath : Option Text) (sse : EncryptionColumns) : Option Bytes :=
  storagePath.bind fun path => payload N w.encryption w.disk path (toBlobEncryption sse)

def storedVersion (w : World) (v : ObjectVersionRow) : StoredVersion where
  versionId := v.versionId
  etag := v.etag
  headers := v.headers
  payload := payloadOf N w v.storagePath v.sse

theorem storedVersion_versionId (w : World) (v : ObjectVersionRow) :
    (storedVersion N w v).versionId = v.versionId := rfl

/-- **The versions of each key, newest first.** -/
def versions (w : World) : VersionedMap BucketKey StoredVersion :=
  VersionedMap.map (storedVersion N w) (history w.db)

/-- The uploads of all buckets, by their ids. -/
abbrev BucketUpload := Guid × Text

/-- An upload in progress. -/
structure PendingUpload where
  key : Text
  headers : HeaderColumns
  parts : ℤ → Option Bytes

def pendingUpload (w : World) (u : MultipartUploadRow) : PendingUpload where
  key := u.key
  headers := u.headers
  parts := fun n => (findPart u.guid n w.db).bind fun p => payloadOf N w (some p.storagePath) p.sse

/-- **The uploads in progress**, by bucket and upload id. -/
def pending (w : World) : BucketUpload → Option PendingUpload := fun k =>
  (findUpload k.1 k.2 w.db).map (pendingUpload N w)

/-! ## The invariant -/

/-- A path that was generated. -/
def Generated (w : World) (path : Text) : Prop := ∃ t < w.calls, path = pathAt N t

/-- What a version row is worth. -/
structure VersionInv (w : World) (v : ObjectVersionRow) : Prop where
  guid : v.guid < w.calls
  createdAt : ∃ t < w.calls, v.createdAt = N.now t
  versionId : v.versionId = nullVersionId ∨ ∃ t < w.calls, v.versionId = Codec.hex (N.randomBytes t 16)
  generated : ∀ path, v.storagePath = some path → Generated N w path
  readable : v.storagePath.isSome → (payloadOf N w v.storagePath v.sse).isSome
  marker : v.isDeleteMarker = v.storagePath.isNone
  size : v.size = ((payloadOf N w v.storagePath v.sse).getD []).length

/-- What a part row is worth. -/
structure PartInv (w : World) (p : MultipartPartRow) : Prop where
  uploadGuid : p.uploadGuid < w.calls
  generated : Generated N w p.storagePath
  readable : ∃ content, payloadOf N w (some p.storagePath) p.sse = some content ∧
    p.size = content.length ∧ p.etag = Codec.hex (N.md5 content)

/-- What an upload row is worth. -/
structure UploadInv (w : World) (u : MultipartUploadRow) : Prop where
  guid : u.guid < w.calls
  uploadId : ∃ t < w.calls, u.uploadId = Codec.base64url.encode (N.randomBytes t 24)

/-- No two rows share a blob. -/
structure BlobsApart (db : Database) : Prop where
  versions : ∀ v ∈ db.objectVersions, ∀ v' ∈ db.objectVersions,
    ∀ path, v.storagePath = some path → v'.storagePath = some path → v = v'
  parts : ∀ p ∈ db.multipartParts, ∀ p' ∈ db.multipartParts, p.storagePath = p'.storagePath → p = p'
  apart : ∀ v ∈ db.objectVersions, ∀ p ∈ db.multipartParts, v.storagePath ≠ some p.storagePath

/-- **What holds of a store between requests.** -/
structure Inv (w : World) : Prop where
  tables : WellFormed w.db
  objects : ∀ o ∈ w.db.objects, o.guid < w.calls
  versions : ∀ v ∈ w.db.objectVersions, VersionInv N w v
  uploads : ∀ u ∈ w.db.multipartUploads, UploadInv N w u
  upload_guid : (w.db.multipartUploads.map (·.guid)).Nodup
  upload_id : (w.db.multipartUploads.map (·.uploadId)).Nodup
  parts : ∀ p ∈ w.db.multipartParts, PartInv N w p
  part_number : (w.db.multipartParts.map fun p => (p.uploadGuid, p.partNumber)).Nodup
  blobs : BlobsApart w.db

/-- A store without keys and uploads. -/
structure Empty (db : Database) : Prop where
  objects : db.objects = []
  versions : db.objectVersions = []
  uploads : db.multipartUploads = []
  parts : db.multipartParts = []

variable {N} in
theorem Inv.of_empty {w : World} (h : Empty w.db) : Inv N w where
  tables := by
    refine ⟨⟨?_, ?_, ?_, ?_, ?_⟩, ?_, ?_⟩ <;> simp [h.objects, h.versions]
  objects := by simp [h.objects]
  versions := by simp [h.versions]
  uploads := by simp [h.uploads]
  upload_guid := by simp [h.uploads]
  upload_id := by simp [h.uploads]
  parts := by simp [h.parts]
  part_number := by simp [h.parts]
  blobs := ⟨by simp [h.versions], by simp [h.parts], by simp [h.versions]⟩

/-- No row points at the blob. -/
structure Unreferenced (db : Database) (path : Text) : Prop where
  versions : ∀ v ∈ db.objectVersions, v.storagePath ≠ some path
  parts : ∀ p ∈ db.multipartParts, p.storagePath ≠ path

/-! ## Changes no row notices -/

variable {N}

/-- Later, under the same master key, and with the files rows point at unchanged. -/
structure Quiet (w w' : World) : Prop where
  db : w'.db = w.db
  masterKey : w'.encryption.masterKey = w.encryption.masterKey
  calls : w.calls ≤ w'.calls
  versions : ∀ v ∈ w.db.objectVersions, ∀ path, v.storagePath = some path →
    w'.disk.get path = w.disk.get path
  parts : ∀ p ∈ w.db.multipartParts, w'.disk.get p.storagePath = w.disk.get p.storagePath

theorem Quiet.refl (w : World) : Quiet w w :=
  ⟨rfl, rfl, le_rfl, fun _ _ _ _ => rfl, fun _ _ => rfl⟩

theorem Quiet.trans {w w' w'' : World} (h : Quiet w w') (h' : Quiet w' w'') : Quiet w w'' where
  db := h'.db.trans h.db
  masterKey := h'.masterKey.trans h.masterKey
  calls := h.calls.trans h'.calls
  versions := fun v hv path hpath =>
    (h'.versions v (h.db ▸ hv) path hpath).trans (h.versions v hv path hpath)
  parts := fun p hp => (h'.parts p (h.db ▸ hp)).trans (h.parts p hp)

theorem payloadOf_congr {w w' : World} (hkey : w'.encryption.masterKey = w.encryption.masterKey)
    {storagePath : Option Text}
    (hdisk : ∀ path, storagePath = some path → w'.disk.get path = w.disk.get path)
    (sse : EncryptionColumns) : payloadOf N w' storagePath sse = payloadOf N w storagePath sse := by
  cases storagePath with
  | none => rfl
  | some path => exact payload_congr hkey (hdisk path rfl) _

theorem Generated.mono {w w' : World} (h : w.calls ≤ w'.calls) {path : Text}
    (hpath : Generated N w path) : Generated N w' path := by
  obtain ⟨t, ht, rfl⟩ := hpath
  exact ⟨t, by omega, rfl⟩

theorem VersionInv.mono {w w' : World} {v : ObjectVersionRow} (hv : VersionInv N w v)
    (hcalls : w.calls ≤ w'.calls)
    (hpayload : payloadOf N w' v.storagePath v.sse = payloadOf N w v.storagePath v.sse) :
    VersionInv N w' v where
  guid := hv.guid.trans_le hcalls
  createdAt := by
    obtain ⟨t, ht, h⟩ := hv.createdAt
    exact ⟨t, ht.trans_le hcalls, h⟩
  versionId := hv.versionId.imp_right fun ⟨t, ht, h⟩ => ⟨t, ht.trans_le hcalls, h⟩
  generated := fun path hpath => (hv.generated path hpath).mono hcalls
  readable := hpayload ▸ hv.readable
  marker := hv.marker
  size := hpayload ▸ hv.size

theorem PartInv.mono {w w' : World} {p : MultipartPartRow} (hp : PartInv N w p)
    (hcalls : w.calls ≤ w'.calls)
    (hpayload : payloadOf N w' (some p.storagePath) p.sse = payloadOf N w (some p.storagePath) p.sse) :
    PartInv N w' p where
  uploadGuid := hp.uploadGuid.trans_le hcalls
  generated := hp.generated.mono hcalls
  readable := hpayload ▸ hp.readable

theorem UploadInv.mono {w w' : World} {u : MultipartUploadRow} (hu : UploadInv N w u)
    (hcalls : w.calls ≤ w'.calls) : UploadInv N w' u where
  guid := hu.guid.trans_le hcalls
  uploadId := by
    obtain ⟨t, ht, h⟩ := hu.uploadId
    exact ⟨t, ht.trans_le hcalls, h⟩

section Quiet

variable {w w' : World} (h : Quiet w w')
include h

theorem Quiet.payloadOf_version {v : ObjectVersionRow} (hv : v ∈ w.db.objectVersions) :
    payloadOf N w' v.storagePath v.sse = payloadOf N w v.storagePath v.sse :=
  payloadOf_congr h.masterKey (h.versions v hv) _

theorem Quiet.payloadOf_part {p : MultipartPartRow} (hp : p ∈ w.db.multipartParts) :
    payloadOf N w' (some p.storagePath) p.sse = payloadOf N w (some p.storagePath) p.sse := by
  refine payloadOf_congr h.masterKey (fun path hpath => ?_) _
  rw [← Option.some.inj hpath]
  exact h.parts p hp

/-- **A quiet change keeps the invariant.** -/
theorem Quiet.inv (hw : Inv N w) : Inv N w' where
  tables := h.db ▸ hw.tables
  objects := fun o ho => (hw.objects o (h.db ▸ ho)).trans_le h.calls
  versions := fun v hv => (hw.versions v (h.db ▸ hv)).mono h.calls (h.payloadOf_version (h.db ▸ hv))
  uploads := fun u hu => (hw.uploads u (h.db ▸ hu)).mono h.calls
  upload_guid := h.db ▸ hw.upload_guid
  upload_id := h.db ▸ hw.upload_id
  parts := fun p hp => (hw.parts p (h.db ▸ hp)).mono h.calls (h.payloadOf_part (h.db ▸ hp))
  part_number := h.db ▸ hw.part_number
  blobs := h.db ▸ hw.blobs

/-- … and what a client sees of the versions … -/
theorem Quiet.versions_eq : ObjectsService.versions N w' = ObjectsService.versions N w := by
  funext k
  rw [ObjectsService.versions, ObjectsService.versions, h.db]
  refine List.map_congr_left fun v hv => ?_
  rw [storedVersion, storedVersion, h.payloadOf_version (mem_history.mp hv).1]

/-- … and of the uploads. -/
theorem Quiet.pending_eq : pending N w' = pending N w := by
  funext k
  rw [pending, pending, h.db]
  congr 1
  funext u
  rw [pendingUpload, pendingUpload, h.db]
  congr 1
  funext n
  cases hp : findPart u.guid n w.db with
  | none => rfl
  | some p => exact h.payloadOf_part (List.mem_of_find?_eq_some hp)

end Quiet

/-! ## The quiet changes -/

theorem Quiet.of_calls {w : World} {n : ℕ} (h : w.calls ≤ n) : Quiet w { w with calls := n } :=
  ⟨rfl, rfl, h, fun _ _ _ _ => rfl, fun _ _ => rfl⟩

/-- A generated path is not one that is generated later. -/
theorem Generated.ne_pathAt {w w' : World} (hdistinct : N.Distinct w'.calls)
    {path : Text} (hpath : Generated N w path) {t : ℕ} (ht : w.calls ≤ t) (ht' : t < w'.calls) :
    path ≠ pathAt N t := by
  rintro rfl
  obtain ⟨s, hs, hst⟩ := hpath
  have := pathAt_inj hdistinct ht' (by omega) hst
  omega

/-- **New files are quiet.** -/
theorem Quiet.of_confined {w w' : World} (hw : Inv N w) (h : Confined N w w')
    (hdistinct : N.Distinct w'.calls) : Quiet w w' where
  db := h.db
  masterKey := congrArg StorageTypes.EncryptionConfig.masterKey h.encryption
  calls := h.calls
  versions := fun v hv path hpath => h.disk path fun _ ht ht' =>
    ((hw.versions v hv).generated path hpath).ne_pathAt hdistinct ht ht'
  parts := fun p hp => h.disk _ fun _ ht ht' => (hw.parts p hp).generated.ne_pathAt hdistinct ht ht'

/-- **Deleting a file no row points at is quiet.** -/
theorem Quiet.of_remove {w : World} {path : Text} (h : Unreferenced w.db path) :
    Quiet w { w with disk := w.disk.remove path } where
  db := rfl
  masterKey := rfl
  calls := le_rfl
  versions := fun v hv _ hp => FileTable.get_remove_of_ne fun hpp =>
    h.versions v hv (hp.trans (congrArg some hpp))
  parts := fun p hp => FileTable.get_remove_of_ne fun hpp => h.parts p hp hpp

/-- Deleting files no row points at. -/
theorem deleteBlobs_spec {paths : List Text} {w : World}
    (h : ∀ path ∈ paths, Unreferenced w.db path) :
    wp (deleteBlobs paths)
      (fun _ w' => Quiet w w' ∧ w'.encryption = w.encryption ∧ w'.calls = w.calls)
      (fun _ _ => False) w := by
  refine wp_mono (wp_forM (fun rest w' =>
      (Quiet w w' ∧ w'.encryption = w.encryption ∧ w'.calls = w.calls) ∧
        ∀ path ∈ rest, Unreferenced w'.db path) ?_ ⟨⟨Quiet.refl w, rfl, rfl⟩, h⟩)
    (fun _ _ h => h.1) fun _ _ h => h
  intro path rest w₁ ⟨⟨hquiet, hsame⟩, hrest⟩
  rw [wp_delete]
  exact ⟨⟨hquiet.trans (Quiet.of_remove (hrest path List.mem_cons_self)), hsame⟩,
    fun _ hp => hrest _ (List.mem_cons_of_mem _ hp)⟩

/-- A file written after the rows has no row. -/
theorem Unreferenced.of_written {w w' : World} {path : Text} (hw : Inv N w)
    (hdistinct : N.Distinct w'.calls) (hpath : path = pathAt N w.calls) (hcalls : w.calls < w'.calls) :
    Unreferenced w.db path where
  versions := fun v hv h => ((hw.versions v hv).generated path h).ne_pathAt hdistinct
    le_rfl hcalls hpath
  parts := fun p hp h => (h ▸ (hw.parts p hp).generated).ne_pathAt hdistinct le_rfl hcalls hpath

end ObjectsService
end SimpleStorage
