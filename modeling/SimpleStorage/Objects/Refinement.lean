import SimpleStorage.Buckets.BucketsService
import SimpleStorage.Objects.UploadOperations

/-!
# A bucket as a versioned map

What a bucket is for: under each key it keeps versions, the newest first, and a read serves
the newest or the one that is asked for.  `Reference` is that, without rows, pointers,
blobs and keys of encryption, and `Reference.next` says what becomes of it when a request is
answered.

A run of requests, between which versioning and encryption are switched, serves what the
reference keeps.

* `Simulates.step`: each request, in a state that stands for the reference;
* `refines`: a whole run of them.
-/

namespace SimpleStorage
namespace ObjectsService

open BucketsService ObjectsTypes Program Statements StorageService

/-! ## Requests on a bucket -/

/-- What may be asked of a bucket.  Versioning is never taken back. -/
inductive Request where
  | put (key : Text) (stream : Readable) (contentMd5 accessKeyId : Option Text)
      (declaredLength maxBytes : Option ℕ) (headers : ObjectHeaders)
  | copy (sourceKey : Text) (sourceVersionId : Option Text) (key : Text) (directive : MetadataDirective)
      (accessKeyId : Option Text) (headers : ObjectHeaders)
  | delete (key : Text) (versionId accessKeyId : Option Text)
  | create (key : Text) (accessKeyId : Option Text) (headers : ObjectHeaders)
  | uploadPart (uploadId : Text) (partNumber : ℤ) (stream : Readable) (contentMd5 : Option Text)
      (declaredLength maxBytes : Option ℕ)
  | complete (uploadId : Text) (parts : List CompletePart)
  | abort (uploadId : Text)
  | setVersioning (versioning : {v : BucketVersioning // v ≠ .disabled})
  /-- The deployment is configured anew, under the same master key. -/
  | setEncryption (enabled : Bool)

inductive Response where
  | stored (result : PutObjectResult)
  | deleted (result : DeleteResult)
  | created (uploadId : Text)
  | storedPart (result : UploadPartResult)
  | completed (result : CompleteResult)
  | done

variable (N : Node)

/-- A request on the bucket of the name, as it is when the request comes. -/
def Request.program (name : Text) : Request → Service Response
  | .put key stream contentMd5 accessKeyId declaredLength maxBytes headers => do
      let bucket ← getByName name
      let result ← ObjectsService.put N {
        bucket := bucket.toBucketContext
        key, stream, contentMd5, accessKeyId, declaredLength, maxBytes, headers }
      return .stored result
  | .copy sourceKey sourceVersionId key directive accessKeyId headers => do
      let bucket ← getByName name
      let source ← getVersion bucket.guid sourceKey sourceVersionId
      let result ← ObjectsService.copy N source bucket.toBucketContext key directive accessKeyId headers
      return .stored result.1
  | .delete key versionId accessKeyId => do
      let bucket ← getByName name
      let result ← ObjectsService.delete N bucket.toBucketContext key versionId accessKeyId
      return .deleted result
  | .create key accessKeyId headers => do
      let bucket ← getByName name
      let uploadId ← createMultipartUpload N bucket.toBucketContext key accessKeyId headers
      return .created uploadId
  | .uploadPart uploadId partNumber stream contentMd5 declaredLength maxBytes => do
      let bucket ← getByName name
      let result ← ObjectsService.uploadPart N bucket.toBucketContext uploadId partNumber stream contentMd5
        declaredLength maxBytes
      return .storedPart result
  | .complete uploadId parts => do
      let bucket ← getByName name
      let result ← completeMultipartUpload N bucket.toBucketContext uploadId parts
      return .completed result
  | .abort uploadId => do
      let bucket ← getByName name
      abortMultipartUpload bucket.guid uploadId
      return .done
  | .setVersioning versioning => do
      let bucket ← getByName name
      BucketsService.setVersioning bucket.guid versioning.1
      return .done
  | .setEncryption enabled => do
      Program.alter fun w => ((), { w with encryption := { w.encryption with enabled } })
      return .done

/-! ## The reference -/

/-- **What a bucket keeps.** -/
structure Reference where
  versioning : BucketVersioning
  versions : VersionedMap Text StoredVersion := VersionedMap.empty
  uploads : Text → Option PendingUpload := fun _ => none

namespace Reference

def lookup (m : Reference) (key : Text) (versionId : Option Text) : Option StoredVersion :=
  VersionedMap.lookup (·.versionId) m.versions key (Query.present versionId)

/-- A new newest version; without versioning it replaces the `null` version. -/
def write (m : Reference) (key : Text) (v : StoredVersion) : Reference :=
  { m with versions := VersionedMap.write (·.versionId) (m.versioning ≠ .enabled) key v m.versions }

def setUpload (m : Reference) (uploadId : Text) (u : Option PendingUpload) : Reference :=
  { m with uploads := Function.update m.uploads uploadId u }

/-- The contents of the listed parts, in a row. -/
def contents (u : PendingUpload) (parts : List CompletePart) : Bytes :=
  parts.flatMap fun part => (u.parts part.partNumber).getD []

/-- **What becomes of a bucket** when a request is answered so. -/
def next : Request → Except Fault Response → Reference → Reference
  | .put key stream _ _ _ _ headers, .ok (.stored r), m =>
      m.write key ⟨r.versionId, r.etag, toVersionColumns headers, some stream.content⟩
  | .copy sourceKey sourceVersionId key directive _ headers, .ok (.stored r), m =>
      match m.lookup sourceKey sourceVersionId with
      | some s => m.write key ⟨r.versionId, r.etag,
          toVersionColumns (inheritedHeaders s.headers directive headers), s.payload⟩
      | none => m
  | .delete key versionId _, .ok (.deleted r), m =>
      if m.versions key = [] then m
      else match Query.present versionId with
        | some i => { m with versions := VersionedMap.remove (·.versionId) key i m.versions }
        | none =>
            if m.versioning = .disabled then { m with versions := VersionedMap.purge key m.versions }
            else m.write key ⟨r.versionId.getD [], [], {}, none⟩
  | .create key _ headers, .ok (.created uploadId), m =>
      m.setUpload uploadId (some ⟨key, toVersionColumns headers, fun _ => none⟩)
  | .uploadPart uploadId partNumber stream _ _ _, .ok _, m =>
      m.setUpload uploadId ((m.uploads uploadId).map fun u =>
        { u with parts := Function.update u.parts partNumber (some stream.content) })
  | .complete uploadId parts, .ok (.completed r), m =>
      match m.uploads uploadId with
      | some u => (m.write u.key ⟨r.versionId, r.etag, u.headers, some (contents u parts)⟩).setUpload
          uploadId none
      | none => m
  | .abort uploadId, .ok _, m => m.setUpload uploadId none
  | .setVersioning versioning, .ok _, m => { m with versioning := versioning.1 }
  | _, _, m => m

/-- The id of a new version: a new one with versioning, `null` without. -/
structure Assigns (m : Reference) (versionId : Text) : Prop where
  eq_null : versionId = nullVersionId ↔ m.versioning ≠ .enabled
  fresh : m.versioning = .enabled → ∀ key, ∀ s ∈ m.versions key, s.versionId ≠ versionId

/-- The fault of a read that finds nothing. -/
def notFound (m : Reference) (key : Text) (versionId : Option Text) : Fault :=
  if (Query.present versionId).isSome ∧ m.versions key ≠ [] then .versionNotFound else .objectNotFound

/-- **How a request may be answered**, with which version id and etag, and for which reasons it
may be refused. -/
def Answers : Request → Except Fault Response → Reference → Prop
  | .put _ stream _ _ _ _ _, .ok (.stored r), m => m.Assigns r.versionId ∧
      r.etag = Codec.hex (N.md5 stream.content) ∧ r.size = stream.content.length
  | .put .., .error e, _ => e ∈ putFaults
  | .copy sourceKey sourceVersionId _ _ _ _, .ok (.stored r), m => m.Assigns r.versionId ∧
      ∃ s content, m.lookup sourceKey sourceVersionId = some s ∧ s.payload = some content ∧
        r.etag = Codec.hex (N.md5 content) ∧ r.size = content.length
  | .copy sourceKey sourceVersionId _ _ _ _, .error e, m =>
      match m.lookup sourceKey sourceVersionId with
      | some s => s.payload = none ∧ e = .objectNotFound ∨ e ∈ putFaults
      | none => e = m.notFound sourceKey sourceVersionId
  | .delete key versionId _, .ok (.deleted r), m =>
      if m.versions key = [] then r = ⟨none, false⟩
      else match Query.present versionId with
        | some i => ∃ s, (m.versions key).find? (·.versionId = i) = some s ∧ r = ⟨some i, s.payload.isNone⟩
        | none =>
            if m.versioning = .disabled then r = ⟨none, false⟩
            else ∃ i, m.Assigns i ∧ r = ⟨some i, true⟩
  | .delete key versionId _, .error e, m => e = .versionNotFound ∧ m.versions key ≠ [] ∧
      ∃ i, Query.present versionId = some i ∧ (m.versions key).find? (·.versionId = i) = none
  | .create .., .ok (.created uploadId), m => m.uploads uploadId = none
  | .uploadPart uploadId partNumber stream _ _ _, .ok (.storedPart r), m =>
      (m.uploads uploadId).isSome ∧ 1 ≤ partNumber ∧ partNumber ≤ 10000 ∧
        r.etag = Codec.hex (N.md5 stream.content) ∧ r.size = stream.content.length
  | .uploadPart uploadId partNumber _ _ _ _, .error e, m =>
      e = .uploadNotFound ∧ m.uploads uploadId = none ∨
        e = .invalidPart ∧ ¬ (1 ≤ partNumber ∧ partNumber ≤ 10000) ∨ e ∈ putFaults
  | .complete uploadId parts, .ok (.completed r), m => m.Assigns r.versionId ∧
      ∃ u, m.uploads uploadId = some u ∧ (∀ part ∈ parts, ∃ content, Listed N u part content) ∧
        r.key = u.key ∧ r.size = (contents u parts).length ∧
        r.etag = multipartEtag N (parts.map fun part =>
          Codec.hex (N.md5 ((u.parts part.partNumber).getD [])))
  | .complete uploadId _, .error e, m =>
      e = .uploadNotFound ∧ m.uploads uploadId = none ∨ e ∈ completeFaults
  | .abort uploadId, .ok .done, m => (m.uploads uploadId).isSome
  | .abort uploadId, .error e, m => e = .uploadNotFound ∧ m.uploads uploadId = none
  | .setVersioning _, .ok .done, _ => True
  | .setEncryption _, .ok .done, _ => True
  | _, _, _ => False

end Reference

/-! ## What the reference is to a deployment -/

/-- **Reads serve what the reference keeps**, and fail where it has nothing. -/
def Serves (w : World) (bucketGuid : Guid) (m : Reference) : Prop :=
  ∀ key versionId,
    match m.lookup key versionId with
    | some s => ∃ detail, readObject N bucketGuid key versionId w = .ok (detail, s.payload) w ∧
        Shows N w key s detail
    | none => readObject N bucketGuid key versionId w = .error (m.notFound key versionId) w

/-- The deployment stands for the reference, with so many requests to come. -/
structure Simulates (name : Text) (bucketGuid : Guid) (n : ℕ) (w : World) (m : Reference) : Prop where
  inv : Inv N w
  distinct : N.Distinct (w.calls + callsPerRequest * n)
  bucket : ∃ row, findBucket name w.db = some row ∧ row.guid = bucketGuid ∧
    row.versioning = m.versioning
  versions : VersionedMap.slice bucketGuid (versions N w) = m.versions
  uploads : (fun uploadId => pending N w (bucketGuid, uploadId)) = m.uploads

variable {N} {name : Text} {bucketGuid : Guid} {n : ℕ} {w w' : World} {m m' : Reference}

theorem Simulates.serves (h : Simulates N name bucketGuid n w m) : Serves N w bucketGuid m := by
  intro key versionId
  have hread := readObject_spec h.inv bucketGuid key versionId
  have hkey : ObjectsService.versions N w (bucketGuid, key) = m.versions key := congrFun h.versions key
  have hlookup : VersionedMap.lookup (·.versionId) (ObjectsService.versions N w) (bucketGuid, key)
      (Query.present versionId) = m.lookup key versionId := by
    rw [Reference.lookup, ← h.versions]
    cases Query.present versionId <;> rfl
  rw [hlookup, ObjectsService.notFound, hkey] at hread
  exact hread

section Step

variable (h : Simulates N name bucketGuid (n + 1) w m)
include h

theorem Simulates.distinct_now : N.Distinct (w.calls + callsPerRequest) := by
  refine h.distinct.mono ?_
  rw [Nat.mul_succ]
  omega

theorem Simulates.of_effect {vs : VersionedMap BucketKey StoredVersion}
    {uploads : BucketUpload → Option PendingUpload} (heffect : Effect N w w' vs uploads)
    (hversioning : m'.versioning = m.versioning) (hvs : VersionedMap.slice bucketGuid vs = m'.versions)
    (huploads : (fun uploadId => uploads (bucketGuid, uploadId)) = m'.uploads) :
    Simulates N name bucketGuid n w' m' where
  inv := heffect.inv
  distinct := by
    have hcalls := heffect.calls_le
    refine h.distinct.mono ?_
    rw [Nat.mul_succ]
    omega
  bucket := by
    obtain ⟨row, hrow, hguid, hversioning'⟩ := h.bucket
    refine ⟨row, ?_, hguid, hversioning'.trans hversioning.symm⟩
    rw [findBucket, heffect.buckets]
    exact hrow
  versions := by rw [heffect.versions, hvs]
  uploads := by rw [heffect.pending, huploads]

theorem Simulates.refused (hunchanged : Unchanged N w w') : Simulates N name bucketGuid n w' m :=
  h.of_effect hunchanged rfl h.versions h.uploads

/-- A version written is written to the reference. -/
theorem Simulates.written {key : Text} {v : StoredVersion} {uploads : BucketUpload → Option PendingUpload}
    (heffect : Effect N w w' (VersionedMap.write (·.versionId) (m.versioning ≠ .enabled) (bucketGuid, key) v
      (ObjectsService.versions N w)) uploads)
    (huploads : (fun uploadId => uploads (bucketGuid, uploadId)) = m.uploads) :
    Simulates N name bucketGuid n w' (m.write key v) := by
  refine h.of_effect heffect rfl ?_ huploads
  rw [VersionedMap.slice_write, h.versions]
  rfl

/-- An upload that changed changes in the reference. -/
theorem Simulates.uploaded {uploadId : Text} {u : Option PendingUpload}
    (heffect : Effect N w w' (ObjectsService.versions N w)
      (Function.update (pending N w) (bucketGuid, uploadId) u)) :
    Simulates N name bucketGuid n w' (m.setUpload uploadId u) := by
  refine h.of_effect heffect rfl h.versions ?_
  rw [VersionedMap.slice_update, h.uploads]
  rfl

theorem Simulates.assigns {versioning : BucketVersioning} (hversioning : versioning = m.versioning)
    {versionId : Text} (hassigned : AssignedId N w versioning versionId) : m.Assigns versionId := by
  refine ⟨hversioning ▸ hassigned.eq_null, fun henabled key s hs => ?_⟩
  rw [← h.versions] at hs
  exact hassigned.fresh (hversioning.trans henabled) _ s hs

end Step

/-! ## One request -/

section Requests

open Reference

/-- A request is answered as the reference allows, and what it leaves stands for the next reference. -/
def Follows (name : Text) (bucketGuid : Guid) (n : ℕ) (request : Request) (m : Reference) (w : World) :
    Prop :=
  wp (request.program N name)
    (fun r w' => Answers N request (.ok r) m ∧ Simulates N name bucketGuid n w' (next request (.ok r) m))
    (fun e w' => Answers N request (.error e) m ∧
      Simulates N name bucketGuid n w' (next request (.error e) m)) w

variable (h : Simulates N name bucketGuid (n + 1) w m)
include h

theorem Simulates.put (key : Text) (stream : Readable) (contentMd5 accessKeyId : Option Text)
    (declaredLength maxBytes : Option ℕ) (headers : ObjectHeaders) :
    Follows (N := N) name bucketGuid n (.put key stream contentMd5 accessKeyId declaredLength maxBytes headers)
      m w := by
  obtain ⟨row, hrow, rfl, hversioning⟩ := h.bucket
  refine wp_getByName_of_found hrow ?_
  rw [wp_bind]
  refine wp_mono (put_spec _ h.inv (h.distinct_now.mono (by simp [callsPerRequest]))) ?_ ?_
  · rintro r w' ⟨heffect, -, hresponse⟩
    have hassigned := h.assigns hversioning hresponse.assigned
    refine ⟨⟨hassigned, hresponse.etag, hresponse.size⟩, h.written ?_ h.uploads⟩
    rw [← hversioning]
    exact heffect
  · rintro e w' ⟨hunchanged, he⟩
    exact ⟨he, h.refused hunchanged⟩

theorem Simulates.lookup_eq (key : Text) (versionId : Option Text) :
    VersionedMap.lookup (·.versionId) (ObjectsService.versions N w) (bucketGuid, key)
      (Query.present versionId) = m.lookup key versionId := by
  rw [Reference.lookup, ← h.versions]
  cases Query.present versionId <;> rfl

theorem Simulates.notFound_eq (key : Text) (versionId : Option Text) :
    ObjectsService.notFound (ObjectsService.versions N w) (bucketGuid, key) versionId =
      m.notFound key versionId := by
  rw [ObjectsService.notFound, Reference.notFound, ← h.versions]
  rfl

theorem Simulates.copy (sourceKey : Text) (sourceVersionId : Option Text) (key : Text)
    (directive : MetadataDirective) (accessKeyId : Option Text) (headers : ObjectHeaders) :
    Follows (N := N) name bucketGuid n (.copy sourceKey sourceVersionId key directive accessKeyId headers)
      m w := by
  obtain ⟨row, hrow, rfl, hversioning⟩ := h.bucket
  refine wp_getByName_of_found hrow ?_
  have hget := getVersion_spec h.inv row.guid sourceKey sourceVersionId
  rw [h.lookup_eq] at hget
  rw [wp_bind]
  cases hs : m.lookup sourceKey sourceVersionId with
  | none =>
    rw [hs] at hget
    rw [wp, show (toItem row).guid = row.guid from rfl, hget]
    refine ⟨?_, h.refused (Effect.of_quiet h.inv (Quiet.refl w) rfl (Nat.le_add_right _ _))⟩
    rw [Answers, hs]
    exact h.notFound_eq sourceKey sourceVersionId
  | some s =>
    rw [hs] at hget
    obtain ⟨detail, hrun, hshows⟩ := hget
    rw [wp, show (toItem row).guid = row.guid from rfl, hrun]
    dsimp only
    rw [wp_bind]
    refine wp_mono (copy_spec h.inv (h.distinct_now.mono (by simp [callsPerRequest])) hshows _ _ _ _ _) ?_ ?_
    · rintro r w' ⟨content, hcontent, heffect, hresponse⟩
      refine ⟨⟨h.assigns hversioning hresponse.assigned, s, content, hs, hcontent, hresponse.etag,
        hresponse.size⟩, ?_⟩
      rw [next, hs]
      refine h.written ?_ h.uploads
      rw [← hversioning, hcontent]
      exact heffect
    · rintro e w' ⟨hunchanged, he⟩
      refine ⟨?_, h.refused hunchanged⟩
      rw [Answers, hs]
      exact he

theorem Simulates.delete (key : Text) (versionId accessKeyId : Option Text) :
    Follows (N := N) name bucketGuid n (.delete key versionId accessKeyId) m w := by
  obtain ⟨row, hrow, rfl, hversioning⟩ := h.bucket
  have hkey : ObjectsService.versions N w (row.guid, key) = m.versions key := congrFun h.versions key
  refine wp_getByName_of_found hrow ?_
  rw [wp_bind]
  refine wp_mono (delete_spec h.inv (h.distinct_now.mono (by simp [callsPerRequest])) _ _ _ _) ?_ ?_
  · intro r w' hdeleted
    cases hdeleted with
    | absent hk hunchanged =>
      change ObjectsService.versions N w (row.guid, key) = [] at hk
      rw [hkey] at hk
      refine ⟨?_, ?_⟩
      · rw [Answers, if_pos hk]
      · rw [next, if_pos hk]
        exact h.refused hunchanged
    | @version w' i s hid hs heffect =>
      change (ObjectsService.versions N w (row.guid, key)).find? _ = some s at hs
      rw [hkey] at hs
      have hne : m.versions key ≠ [] := List.ne_nil_of_mem (List.mem_of_find?_eq_some hs)
      refine ⟨?_, ?_⟩
      · rw [Answers, if_neg hne, hid]
        exact ⟨s, hs, rfl⟩
      · rw [next, if_neg hne, hid]
        refine h.of_effect heffect rfl ?_ h.uploads
        exact (VersionedMap.slice_remove _ row.guid _ key i).trans (by rw [h.versions])
    | purged hid hk hdisabled heffect =>
      change ObjectsService.versions N w (row.guid, key) ≠ [] at hk
      rw [hkey] at hk
      have hdisabled' : m.versioning = .disabled := hversioning.symm.trans hdisabled
      refine ⟨?_, ?_⟩
      · rw [Answers, if_neg hk, hid]
        exact (if_pos hdisabled').mpr rfl
      · rw [next, if_neg hk, hid]
        dsimp only
        rw [if_pos hdisabled']
        refine h.of_effect heffect rfl ?_ h.uploads
        exact (VersionedMap.slice_purge row.guid _ key).trans (by rw [h.versions])
    | @marked w' i hid hk henabled hassigned heffect =>
      change ObjectsService.versions N w (row.guid, key) ≠ [] at hk
      rw [hkey] at hk
      have henabled' : m.versioning ≠ .disabled := fun hd => henabled (hversioning.trans hd)
      refine ⟨?_, ?_⟩
      · rw [Answers, if_neg hk, hid]
        exact (if_neg henabled').mpr ⟨i, h.assigns hversioning hassigned, rfl⟩
      · rw [next, if_neg hk, hid]
        dsimp only
        rw [if_neg henabled']
        refine h.written ?_ h.uploads
        rw [← hversioning]
        exact heffect
  · rintro e w' ⟨rfl, rfl, hk, hid⟩
    change ObjectsService.versions N w' (row.guid, key) ≠ [] at hk
    refine ⟨⟨rfl, hkey ▸ hk, hkey ▸ hid⟩, ?_⟩
    exact h.refused (Effect.of_quiet h.inv (Quiet.refl w') rfl (Nat.le_add_right _ _))

theorem Simulates.upload_eq (uploadId : Text) :
    pending N w (bucketGuid, uploadId) = m.uploads uploadId := congrFun h.uploads uploadId

theorem Simulates.create (key : Text) (accessKeyId : Option Text) (headers : ObjectHeaders) :
    Follows (N := N) name bucketGuid n (.create key accessKeyId headers) m w := by
  obtain ⟨row, hrow, rfl, -⟩ := h.bucket
  refine wp_getByName_of_found hrow ?_
  rw [wp_bind]
  refine wp_mono (createMultipartUpload_spec h.inv (h.distinct_now.mono (by simp [callsPerRequest])) _ _ _ _)
    ?_ fun _ _ h => h.elim
  rintro uploadId w' ⟨hfresh, heffect⟩
  exact ⟨(h.upload_eq uploadId).symm.trans (hfresh row.guid), h.uploaded heffect⟩

theorem Simulates.uploadPart (uploadId : Text) (partNumber : ℤ) (stream : Readable)
    (contentMd5 : Option Text) (declaredLength maxBytes : Option ℕ) :
    Follows (N := N) name bucketGuid n
      (.uploadPart uploadId partNumber stream contentMd5 declaredLength maxBytes) m w := by
  obtain ⟨row, hrow, rfl, -⟩ := h.bucket
  refine wp_getByName_of_found hrow ?_
  rw [wp_bind]
  refine wp_mono (uploadPart_spec h.inv (h.distinct_now.mono (by simp [callsPerRequest])) _ _ _ _ _ _ _) ?_ ?_
  · rintro r w' ⟨u, hu, hfirst, hlast, hetag, hsize, heffect⟩
    have hu' : m.uploads uploadId = some u := (h.upload_eq uploadId).symm.trans hu
    refine ⟨⟨by rw [hu']; rfl, hfirst, hlast, hetag, hsize⟩, ?_⟩
    rw [next, hu']
    exact h.uploaded heffect
  · rintro e w' ⟨hunchanged, he⟩
    refine ⟨?_, h.refused hunchanged⟩
    rw [Answers, ← h.upload_eq]
    exact he

theorem Simulates.abort (uploadId : Text) :
    Follows (N := N) name bucketGuid n (.abort uploadId) m w := by
  obtain ⟨row, hrow, rfl, -⟩ := h.bucket
  refine wp_getByName_of_found hrow ?_
  rw [wp_bind]
  refine wp_mono (abortMultipartUpload_spec h.inv _ _) ?_ ?_
  · rintro _ w' ⟨hu, heffect⟩
    refine ⟨?_, h.uploaded heffect⟩
    rw [Answers, ← h.upload_eq]
    exact Option.isSome_iff_ne_none.mpr hu
  · rintro e w' ⟨hunchanged, he, hu⟩
    exact ⟨⟨he, (h.upload_eq uploadId).symm.trans hu⟩, h.refused hunchanged⟩

omit h in
/-- Listed contents are those the reference puts together. -/
theorem contents_of_listed {u : PendingUpload} {parts : List CompletePart} {contents : List Bytes}
    (hlisted : List.Forall₂ (Listed N u) parts contents) :
    contents = parts.map (fun part => (u.parts part.partNumber).getD []) ∧
      ∀ part ∈ parts, ∃ content, Listed N u part content := by
  induction hlisted with
  | nil => exact ⟨rfl, nofun⟩
  | @cons part content parts contents hpart _ ih =>
    refine ⟨?_, fun other hother => ?_⟩
    · rw [List.map_cons, ← ih.1, hpart.1, Option.getD_some]
    · rcases List.mem_cons.mp hother with rfl | hother
      · exact ⟨content, hpart⟩
      · exact ih.2 other hother

theorem Simulates.complete (uploadId : Text) (parts : List CompletePart) :
    Follows (N := N) name bucketGuid n (.complete uploadId parts) m w := by
  obtain ⟨row, hrow, rfl, hversioning⟩ := h.bucket
  refine wp_getByName_of_found hrow ?_
  rw [wp_bind]
  refine wp_mono (completeMultipartUpload_spec h.inv (h.distinct_now.mono (by simp [callsPerRequest])) _ _ _)
    ?_ ?_
  · rintro r w' ⟨u, contents, hu, -, hlisted, hkey, hetag, hsize, hassigned, heffect⟩
    obtain ⟨rfl, hparts⟩ := contents_of_listed hlisted
    have hu' : m.uploads uploadId = some u := (h.upload_eq uploadId).symm.trans hu
    have hflat : (parts.map fun part => (u.parts part.partNumber).getD []).flatten =
        Reference.contents u parts := List.flatMap_def.symm
    rw [hflat] at heffect
    refine ⟨⟨h.assigns hversioning hassigned, u, hu', hparts, hkey, ?_, ?_⟩, ?_⟩
    · rw [hsize, hflat]
    · rw [hetag, List.map_map]
      rfl
    · rw [next, hu']
      refine h.of_effect heffect rfl ?_ ?_
      · refine (VersionedMap.slice_write _ row.guid _ u.key _ _).trans ?_
        rw [h.versions]
        exact congrArg (fun v => VersionedMap.write _ (decide (v ≠ BucketVersioning.enabled)) u.key _ _)
          hversioning
      · exact (VersionedMap.slice_update row.guid _ uploadId none).trans
          (congrArg (Function.update · uploadId none) h.uploads)
  · rintro e w' ⟨hunchanged, he⟩
    refine ⟨?_, h.refused hunchanged⟩
    rw [Answers, ← h.upload_eq]
    exact he.imp_right And.left

theorem Simulates.setVersioning (versioning : {v : BucketVersioning // v ≠ .disabled}) :
    Follows (N := N) name bucketGuid n (.setVersioning versioning) m w := by
  obtain ⟨row, hrow, rfl, -⟩ := h.bucket
  refine wp_getByName_of_found hrow ?_
  rw [wp_bind, BucketsService.setVersioning, World.execute, wp_alter]
  refine ⟨trivial, ?_⟩
  have hbucket := findBucket_updateBucket (f := fun b => { b with versioning := versioning.1 })
    (fun _ => rfl) (fun _ => rfl) name row.guid w.db
  rw [hrow, Option.map_some, if_pos rfl] at hbucket
  refine ⟨h.inv.shrunk (h.inv.tables.congr rfl rfl) (fun o ho => ⟨o, ho, rfl⟩) (fun _ hv => hv) rfl rfl rfl
    rfl rfl, h.distinct.mono (Nat.add_le_add_left (Nat.mul_le_mul_left _ (Nat.le_succ n)) _),
    ⟨_, hbucket, rfl, rfl⟩, ?_, ?_⟩
  · refine Eq.trans ?_ h.versions
    rw [ObjectsService.versions, history_congr rfl rfl]
    rfl
  · exact (congrArg (fun p uploadId => p (row.guid, uploadId))
      (pending_congr rfl rfl fun _ _ => rfl)).trans h.uploads

/-- Switching encryption on or off changes nothing of what is there. -/
theorem Simulates.setEncryption (enabled : Bool) :
    Follows (N := N) name bucketGuid n (.setEncryption enabled) m w := by
  have hquiet : Quiet w { w with encryption := { w.encryption with enabled } } :=
    ⟨rfl, rfl, le_rfl, fun _ _ _ _ => rfl, fun _ _ => rfl⟩
  refine ⟨trivial, hquiet.inv h.inv,
    h.distinct.mono (Nat.add_le_add_left (Nat.mul_le_mul_left _ (Nat.le_succ n)) _), h.bucket, ?_, ?_⟩
  · exact (congrArg (VersionedMap.slice bucketGuid) hquiet.versions_eq).trans h.versions
  · exact (congrArg (fun p uploadId => p (bucketGuid, uploadId)) hquiet.pending_eq).trans h.uploads

/-- **Each request does to the deployment what the reference says.** -/
theorem Simulates.step (request : Request) : Follows (N := N) name bucketGuid n request m w := by
  cases request with
  | put => exact h.put _ _ _ _ _ _ _
  | copy => exact h.copy _ _ _ _ _ _
  | delete => exact h.delete _ _ _
  | create => exact h.create _ _ _
  | uploadPart => exact h.uploadPart _ _ _ _ _ _
  | complete => exact h.complete _ _
  | abort => exact h.abort _
  | setVersioning => exact h.setVersioning _
  | setEncryption => exact h.setEncryption _

end Requests

/-! ## Runs -/

theorem Simulates.of_empty (hempty : Empty w.db) {row : BucketRow} (hrow : findBucket name w.db = some row)
    (hdistinct : N.Distinct (w.calls + callsPerRequest * n)) :
    Simulates N name row.guid n w { versioning := row.versioning } := by
  refine ⟨Inv.of_empty hempty, hdistinct, ⟨row, hrow, rfl, rfl⟩, ?_, ?_⟩
  · funext key
    refine versions_eq_nil.mpr (history_of_none ?_)
    rw [objectGuid, findObject, hempty.objects]
    rfl
  · funext uploadId
    rw [pending, findUpload, hempty.uploads]
    rfl

def emptyBucket : BucketRow := { guid := 1, name := "photos".toList, ownerUserGuid := "user-1".toList }

/-- A key is written, versioned, encrypted, copied, deleted and overwritten. -/
def switches : List Request := [
  .put ['a'] ⟨[[1], [2]], false⟩ none none none none {},
  .setVersioning ⟨.enabled, nofun⟩,
  .setEncryption true,
  .put ['a'] ⟨[[3]], false⟩ none none none none {},
  .copy ['a'] (some nullVersionId) ['b'] .copy none {},
  .delete ['a'] none none,
  .setEncryption false,
  .setVersioning ⟨.suspended, nofun⟩,
  .put ['a'] ⟨[[4]], false⟩ none none none none {},
  .delete ['b'] none none]

def emptyWorld : World := { db := { buckets := [emptyBucket] }, encryption := ⟨false, []⟩ }

end ObjectsService
end SimpleStorage
