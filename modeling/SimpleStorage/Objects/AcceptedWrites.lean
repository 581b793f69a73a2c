import SimpleStorage.Objects.RefusedWrites

/-!
# Accepted writes

When a write goes through, told from the request, its payload and the tables it finds: what is
announced is allowed, the payload comes to its end and is no larger than allowed, it has the digest the
client names, and there is room for it.

* `Storable` is all of this, and `wp_store` says that nothing else is checked once the key or the
  upload is known.
* `put_accepted`, `uploadPart_accepted`: when the two operations go through.
-/

namespace SimpleStorage
namespace ObjectsService

open ObjectsTypes Program Statements StorageService UsageService

/-- The payload comes to its end, and is no larger than allowed. -/
structure Fits (maxBytes : Option ℕ) (payload : Readable) : Prop where
  complete : payload.interrupted = false
  size : ∀ m ∈ maxBytes, payload.content.length ≤ m

/-- **A payload that can be stored.** -/
structure Storable (N : Node) (bucket : BucketContext) (contentMd5 : Option Text)
    (declaredLength maxBytes : Option ℕ) (payload : Readable) (db : Database) : Prop where
  declared : WithinMaxBytes declaredLength maxBytes
  announced : HasRoom bucket.toQuotaTarget (declaredLength.getD 0) db
  fits : Fits maxBytes payload
  digest : DigestMatches contentMd5 (Codec.hex (N.md5 payload.content))
  room : HasRoom bucket.toQuotaTarget payload.content.length db

variable {N : Node}

/-- A payload overflows if it is larger than allowed. -/
theorem overflows_eq_false_iff {maxBytes : Option ℕ} {chunks : List Bytes} {size : ℕ}
    (hsize : ∀ m ∈ maxBytes, size ≤ m) :
    overflows maxBytes size chunks = false ↔ ∀ m ∈ maxBytes, size + chunks.flatten.length ≤ m := by
  refine ⟨fun h m hm => le_of_not_overflows h hm (hsize m hm), fun h => ?_⟩
  induction chunks generalizing size with
  | nil => rfl
  | cons chunk rest ih =>
    simp only [List.flatten_cons, List.length_append] at h
    rw [overflows, Bool.or_eq_false_iff]
    refine ⟨?_, ih (fun m hm => ?_) fun m hm => ?_⟩
    · cases maxBytes with
      | none => rfl
      | some m =>
        have hm := h m rfl
        rw [Option.any_some, decide_eq_false_iff_not]
        omega
    · have := h m hm
      omega
    · have := h m hm
      omega

/-- **A write goes through if the payload fits.** -/
theorem write_accepted (payload : Readable) (maxBytes : Option ℕ) (w : World) :
    wp (write N payload maxBytes)
      (fun written w' => w'.db = w.db ∧ written.size = payload.content.length ∧
        written.etag = Codec.hex (N.md5 payload.content) ∧ Fits maxBytes payload)
      (fun _ _ => ¬ Fits maxBytes payload) w := by
  have hoverflows := @overflows_eq_false_iff maxBytes payload.chunks 0 fun m _ => Nat.zero_le m
  simp only [Nat.zero_add] at hoverflows
  rw [write, wp_bind, generateStoragePath, wp_bind, wp_nextCallFor, wp_pure, wp_bind]
  refine wp_mono (newBlobKey_spec _) ?_ fun _ _ h => h.elim
  rintro blobKey _ ⟨n, -, rfl, -⟩
  rw [wp_ite]
  split_ifs with hlarge hbroken
  · intro hfits
    rw [hoverflows.mpr hfits.size] at hlarge
    cases hlarge
  · intro hfits
    rw [hfits.complete] at hbroken
    cases hbroken
  · exact ⟨rfl, rfl, rfl, Bool.eq_false_iff.mpr hbroken, hoverflows.mp (Bool.eq_false_iff.mpr hlarge)⟩

/-- The checks of a payload on disk. -/
theorem checkWritten_accepted (bucket : BucketContext) (contentMd5 : Option Text)
    (written : StorageTypes.WriteResult) (w : World) :
    wp (tryCatch (do
        assertContentMd5 contentMd5 written.etag
        UsageService.assertQuota bucket.toQuotaTarget written.size) fun err => do
          StorageService.delete written.storagePath
          throw err)
      (fun _ _ => DigestMatches contentMd5 written.etag ∧
        HasRoom bucket.toQuotaTarget written.size w.db)
      (fun _ _ => ¬ (DigestMatches contentMd5 written.etag ∧
        HasRoom bucket.toQuotaTarget written.size w.db)) w := by
  rw [wp_tryCatch, wp_bind, assertContentMd5, wp_require]
  refine ⟨fun hdigest => ?_, fun hdigest h => hdigest h.1⟩
  refine wp_mono (assertQuota_within _ _ w) (fun _ _ h => ⟨hdigest, h.2⟩) ?_
  exact fun _ _ hroom h => hroom h.2

/-- **What comes after a payload is stored goes through if the payload can be stored.** -/
theorem wp_store {α : Type} {f : StorageTypes.WriteResult → Service α} (bucket : BucketContext)
    (contentMd5 : Option Text) (declaredLength maxBytes : Option ℕ) (payload : Readable)
    (hf : ∀ written w', wp (f written) (fun _ _ => True) (fun _ _ => False) w') (w : World) :
    wp (do
        assertWithinMaxBytes declaredLength maxBytes
        UsageService.assertQuota bucket.toQuotaTarget (declaredLength.getD 0)
        let written ← write N payload maxBytes
        tryCatch (do
          assertContentMd5 contentMd5 written.etag
          UsageService.assertQuota bucket.toQuotaTarget written.size) fun err => do
            StorageService.delete written.storagePath
            throw err
        f written)
      (fun _ _ => Storable N bucket contentMd5 declaredLength maxBytes payload w.db)
      (fun _ _ => ¬ Storable N bucket contentMd5 declaredLength maxBytes payload w.db) w := by
  rw [wp_bind, assertWithinMaxBytes, wp_require]
  refine ⟨fun hdeclared => ?_, fun hdeclared h => hdeclared h.declared⟩
  rw [wp_bind]
  refine wp_mono (assertQuota_within _ _ w) ?_ fun _ _ hannounced h => hannounced h.announced
  rintro _ _ ⟨rfl, hannounced⟩
  rw [wp_bind]
  refine wp_mono (write_accepted payload maxBytes _) ?_ fun _ _ hfits h => hfits h.fits
  rintro written w₁ ⟨hdb, hsize, hetag, hfits⟩
  rw [wp_bind]
  refine wp_mono (checkWritten_accepted bucket contentMd5 written w₁) ?_ ?_
  · rintro _ w₂ ⟨hdigest, hroom⟩
    rw [hetag] at hdigest
    rw [hsize, hdb] at hroom
    exact wp_mono (hf written w₂) (fun _ _ _ => ⟨hdeclared, hannounced, hfits, hdigest, hroom⟩)
      fun _ _ h => h.elim
  · intro _ _ hchecks h
    refine hchecks ⟨?_, ?_⟩
    · rw [hetag]
      exact h.digest
    · rw [hsize, hdb]
      exact h.room

/-- **When a put goes through.** -/
theorem put_accepted (params : PutObjectParams) (w : World) :
    wp (put N params)
      (fun _ _ => ValidKey params.key ∧ Storable N params.bucket params.contentMd5 params.declaredLength
        params.maxBytes params.stream w.db)
      (fun _ _ => ¬ (ValidKey params.key ∧ Storable N params.bucket params.contentMd5
        params.declaredLength params.maxBytes params.stream w.db)) w := by
  rw [put, wp_bind, assertValidKey, wp_require]
  refine ⟨fun hkey => ?_, fun hkey h => hkey h.1⟩
  refine wp_mono (wp_store params.bucket params.contentMd5 params.declaredLength params.maxBytes
    params.stream (fun written w' => ?_) w) (fun _ _ h => ⟨hkey, h⟩) fun _ _ hnot h => hnot h.2
  rw [wp_bind]
  refine wp_mono (nextVersionId_tables params.bucket.versioning w') ?_ fun _ _ h => h
  rintro versionId w₁ -
  rw [wp_bind, commitVersion, World.insertFor, wp_perform, wp_bind]
  exact wp_mono (deleteBlobs_tables _ _) (fun _ _ _ => trivial) fun _ _ h => h

/-- **When a part goes through.** -/
theorem uploadPart_accepted (bucket : BucketContext) (uploadId : Text) (partNumber : ℤ)
    (payload : Readable) (contentMd5 : Option Text) (declaredLength maxBytes : Option ℕ) (w : World) :
    wp (uploadPart N bucket uploadId partNumber payload contentMd5 declaredLength maxBytes)
      (fun _ _ => (findUpload bucket.guid uploadId w.db).isSome ∧ (1 ≤ partNumber ∧ partNumber ≤ 10000) ∧
        Storable N bucket contentMd5 declaredLength maxBytes payload w.db)
      (fun _ _ => ¬ ((findUpload bucket.guid uploadId w.db).isSome ∧
        (1 ≤ partNumber ∧ partNumber ≤ 10000) ∧
        Storable N bucket contentMd5 declaredLength maxBytes payload w.db)) w := by
  rw [uploadPart, wp_bind]
  refine wp_mono (requireUpload_spec w bucket.guid uploadId) ?_ ?_
  · rintro u w₀ ⟨rfl, hu⟩
    rw [wp_bind, wp_require]
    refine ⟨fun hnumber => ?_, fun hnumber h => hnumber h.2.1⟩
    refine wp_mono (wp_store bucket contentMd5 declaredLength maxBytes payload
      (fun written w' => ?_) w₀) (fun _ _ h => ⟨Option.isSome_of_eq_some hu, hnumber, h⟩)
      fun _ _ hnot h => hnot h.2.2
    rw [wp_bind, World.select, wp_query, wp_bind, World.insertFor, wp_perform, wp_bind]
    exact wp_mono (deleteBlobs_tables _ _) (fun _ _ _ => trivial) fun _ _ h => h
  · rintro _ _ ⟨-, -, hnone⟩ h
    rw [hnone] at h
    cases h.1

end ObjectsService
end SimpleStorage
