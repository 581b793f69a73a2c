import SimpleStorage.Objects.AtomicSteps
import SimpleStorage.Objects.UploadOperations

/-!
# Referential integrity

What the schema promises of guids and references, as far as it needs no more than that every
guid is generated once: primary keys, the unique number of a part in its upload, and that
every version belongs to a key.  Every kind of step keeps it (`Atomic.integrity`), so it
holds however the steps of requests are mixed.
-/

namespace SimpleStorage
namespace ObjectsService

open Program ReadCommitted Statements

/-- The keys' rows as references from an object to its bucket. -/
def objectRefs (db : Database) : List (Guid × Guid) := db.objects.map fun o => (o.guid, o.bucketGuid)

/-- The uploads in progress as references from an upload to its bucket. -/
def uploadRefs (db : Database) : List (Guid × Guid) :=
  (db.multipartUploads.filter (·.status = .inProgress)).map fun u => (u.guid, u.bucketGuid)

/-- **Guids are unique and references are good.** -/
structure Integrity (w : World) : Prop where
  bucket_guid : (w.db.buckets.map (·.guid)).Nodup
  object_guid : (w.db.objects.map (·.guid)).Nodup
  upload_guid : (w.db.multipartUploads.map (·.guid)).Nodup
  part_number : (w.db.multipartParts.map fun p => (p.uploadGuid, p.partNumber)).Nodup
  version_object : ∀ v ∈ w.db.objectVersions, v.objectGuid ∈ w.db.objects.map (·.guid)
  object_lt : ∀ o ∈ w.db.objects, o.guid < w.calls
  upload_lt : ∀ u ∈ w.db.multipartUploads, u.guid < w.calls

/-! ## References after a transaction -/

section Transactions

variable {guid : Guid} {createdAt : Timestamp} {bucketGuid : Guid} {key versionId : Text}
  {values : VersionValues} {db : Database}

theorem objectRefs_pointLatest (objectGuid versionGuid : Guid) (db : Database) :
    objectRefs (pointLatest objectGuid versionGuid db) = objectRefs db :=
  map_pointLatest _ fun _ => rfl

/-- A commit adds a reference if the key is new. -/
theorem objectRefs_commitVersion :
    objectRefs (Statements.commitVersion guid createdAt bucketGuid key versionId values db).2 =
      objectRefs db ++ if findObject bucketGuid key db = none then [(guid, bucketGuid)] else [] := by
  rw [commitVersion_eq (k := (bucketGuid, key)), objectRefs_pointLatest]
  cases hfound : findObject bucketGuid key db with
  | some row =>
    rw [upsertObject_of_some hfound, if_neg nofun, List.append_nil]
    rfl
  | none =>
    rw [upsertObject_of_none hfound, if_pos rfl]
    exact List.map_append

/-- Removing a version drops the reference of its object, or none. -/
theorem objectRefs_removeVersion (objectGuid versionGuid : Guid) :
    objectRefs (Statements.removeVersion objectGuid versionGuid db) = objectRefs db ∨
      versionsOf objectGuid (deleteVersions (·.guid = versionGuid) db).2 = [] ∧
        (Statements.removeVersion objectGuid versionGuid db).objects =
          db.objects.filter (·.guid ≠ objectGuid) := by
  rw [removeVersion_eq]
  cases hnewest : newestVersion objectGuid (deleteVersions (·.guid = versionGuid) db).2 with
  | some newest => exact Or.inl (objectRefs_pointLatest _ _ _)
  | none => exact Or.inr ⟨newestBy_eq_none.mp hnewest, rfl⟩

end Transactions

section Commit

variable {guid : Guid} {createdAt : Timestamp} {bucketGuid : Guid} {key versionId : Text}
  {values : VersionValues} {db : Database}

/-- The versions after a commit: those that are kept, and the new one. -/
theorem objectVersions_commitVersion :
    (Statements.commitVersion guid createdAt bucketGuid key versionId values db).2.objectVersions =
      keptVersions (commitRow guid (bucketGuid, key) db).guid versionId db.objectVersions ++
        [committedVersion guid createdAt (bucketGuid, key) versionId values db] := by
  rw [commitVersion_eq (k := (bucketGuid, key))]
  change keptVersions _ _ (upsertObject guid bucketGuid key db).2.objectVersions ++ _ = _
  congr 2
  rw [upsertObject]
  cases findObject bucketGuid key db <;> rfl

/-- A commit finds or makes the row of its key. -/
theorem findObject_upsertObject (guid : Guid) (k : BucketKey) (db : Database) :
    findObject k.1 k.2 (upsertObject guid k.1 k.2 db).2 = some (commitRow guid k db) := by
  rw [commitRow]
  cases h : findObject k.1 k.2 db with
  | some row =>
    rw [upsertObject_of_some h]
    exact h
  | none =>
    rw [upsertObject_of_none h, findObject_append, h, Option.none_or, if_pos ⟨rfl, rfl⟩]

section Others

variable {k k' : BucketKey} (hguids : (db.objects.map (·.guid)).Nodup)
  (hfresh : ∀ o ∈ db.objects, o.guid ≠ guid) (hne : k' ≠ k)
include hguids hfresh hne

/-- The row of another key is another one. -/
theorem commitRow_guid_ne {o : ObjectRow} (hfound : findObject k.1 k.2 db = some o) :
    o.guid ≠ (commitRow guid k' db).guid := by
  have hmem := List.mem_of_find?_eq_some hfound
  rw [commitRow]
  cases h : findObject k'.1 k'.2 db with
  | some row =>
    rw [upsertObject_of_some h]
    intro hguid
    have hsame : o = row := List.inj_on_of_nodup_map hguids hmem (List.mem_of_find?_eq_some h) hguid
    have hk := List.find?_some hfound
    have hk' := List.find?_some h
    rw [Bool.and_eq_true, decide_eq_true_iff, decide_eq_true_iff] at hk hk'
    exact hne (Prod.ext (hk'.1.symm.trans (hsame ▸ hk.1)) (hk'.2.symm.trans (hsame ▸ hk.2)))
  | none =>
    rw [upsertObject_of_none h]
    exact hfresh o hmem

/-- **A commit leaves the rows of other keys alone.** -/
theorem findObject_commitVersion_of_ne :
    findObject k.1 k.2 (Statements.commitVersion guid createdAt k'.1 k'.2 versionId values db).2 =
      findObject k.1 k.2 db := by
  have hsame : findObject k.1 k.2 (upsertObject guid k'.1 k'.2 db).2 = findObject k.1 k.2 db := by
    cases h : findObject k'.1 k'.2 db with
    | some row => rw [upsertObject_of_some h]
    | none =>
      rw [upsertObject_of_none h, findObject_append, if_neg, Option.or_none]
      exact fun heq => hne (Prod.ext heq.1 heq.2)
  rw [commitVersion_eq, findObject_pointLatest]
  show (findObject k.1 k.2 (upsertObject guid k'.1 k'.2 db).2).map _ = _
  rw [hsame]
  cases hfound : findObject k.1 k.2 db with
  | none => rfl
  | some o => rw [Option.map_some, if_neg (commitRow_guid_ne hguids hfresh hne hfound)]

end Others

/-- The new version belongs to a key of the bucket. -/
theorem committed_mem_objectRefs :
    ((commitRow guid (bucketGuid, key) db).guid, bucketGuid) ∈
      objectRefs (Statements.commitVersion guid createdAt bucketGuid key versionId values db).2 := by
  rw [objectRefs_commitVersion, commitRow, List.mem_append]
  cases hfound : findObject bucketGuid key db with
  | some row =>
    rw [upsertObject_of_some (k := (bucketGuid, key)) hfound]
    have hp := List.find?_some hfound
    rw [Bool.and_eq_true, decide_eq_true_iff] at hp
    exact Or.inl (List.mem_map.mpr ⟨row, List.mem_of_find?_eq_some hfound, Prod.ext rfl hp.1⟩)
  | none =>
    rw [upsertObject_of_none (k := (bucketGuid, key)) hfound, if_pos rfl]
    exact Or.inr (List.mem_singleton_self _)

end Commit

theorem map_guid_eq_objectRefs (db : Database) : db.objects.map (·.guid) = (objectRefs db).map (·.1) := by
  rw [objectRefs, List.map_map]
  rfl

/-! ## Integrity is kept -/

section Kept

variable {N : Node} {w : World}

/-- Only the rows that are referred to, and refer, matter. -/
theorem Integrity.congr (hw : Integrity w) {w' : World} (hdb : w'.db = w.db) (hcalls : w.calls ≤ w'.calls) :
    Integrity w' where
  bucket_guid := hdb ▸ hw.bucket_guid
  object_guid := hdb ▸ hw.object_guid
  upload_guid := hdb ▸ hw.upload_guid
  part_number := hdb ▸ hw.part_number
  version_object := hdb ▸ hw.version_object
  object_lt := fun o ho => (hw.object_lt o (hdb ▸ ho)).trans_le hcalls
  upload_lt := fun u hu => (hw.upload_lt u (hdb ▸ hu)).trans_le hcalls

theorem OffTables.calls_le {event : World → Option Event} {effect : World → World}
    (h : OffTables N event effect) (w : World) : w.calls ≤ (effect w).calls := by
  cases h with
  | read => exact le_rfl
  | draw => exact Nat.le_succ _
  | generate => exact Nat.le_succ _
  | write => exact Nat.le_succ _
  | remove => exact le_rfl

/-- A commit keeps integrity. -/
theorem Integrity.commitVersion (hw : Integrity w) (createdAt : Timestamp) (bucketGuid : Guid)
    (key versionId : Text) (values : VersionValues) :
    Integrity { w with
      db := (Statements.commitVersion w.calls createdAt bucketGuid key versionId values w.db).2
      calls := w.calls + 1 } := by
  obtain ⟨objects, objectVersions, hframe⟩ :=
    commitVersion_others w.calls createdAt bucketGuid key versionId values w.db
  have hguids : (Statements.commitVersion w.calls createdAt bucketGuid key versionId values
      w.db).2.objects.map (·.guid) =
      w.db.objects.map (·.guid) ++ if findObject bucketGuid key w.db = none then [w.calls] else [] := by
    rw [map_guid_eq_objectRefs, objectRefs_commitVersion, List.map_append, ← map_guid_eq_objectRefs]
    split_ifs <;> rfl
  refine ⟨?_, ?_, ?_, ?_, fun v hv => ?_, fun o ho => ?_, ?_⟩
  · rw [hframe]
    exact hw.bucket_guid
  · rw [hguids]
    split_ifs with hnone
    · refine List.nodup_append.mpr ⟨hw.object_guid, List.nodup_singleton _, fun a ha b hb => ?_⟩
      obtain ⟨o, ho, rfl⟩ := List.mem_map.mp ha
      rw [List.mem_singleton.mp hb]
      exact (hw.object_lt o ho).ne
    · rw [List.append_nil]
      exact hw.object_guid
  · rw [hframe]
    exact hw.upload_guid
  · rw [hframe]
    exact hw.part_number
  · rw [objectVersions_commitVersion, List.mem_append, List.mem_singleton] at hv
    rcases hv with hv | rfl
    · rw [hguids]
      exact List.mem_append_left _ (hw.version_object v ((keptVersions_sublist _ _ _).subset hv))
    · rw [map_guid_eq_objectRefs]
      exact List.mem_map.mpr ⟨_, committed_mem_objectRefs, rfl⟩
  · rcases row_commitVersion ho with ⟨p, hp, hguid, -⟩ | ⟨hguid, -⟩
    · exact hguid ▸ (hw.object_lt p hp).trans (Nat.lt_succ_self _)
    · exact hguid ▸ Nat.lt_succ_self w.calls
  · rw [hframe]
    exact fun u hu => (hw.upload_lt u hu).trans (Nat.lt_succ_self _)

/-- So does dropping versions, with the keys none is left of. -/
theorem Integrity.shrink (hw : Integrity w) {objects : List ObjectRow}
    {objectVersions : List ObjectVersionRow}
    (hguids : (objects.map (·.guid)).Sublist (w.db.objects.map (·.guid)))
    (hversions : ∀ v ∈ objectVersions, v.objectGuid ∈ objects.map (·.guid)) :
    Integrity { w with db := { w.db with objects, objectVersions } } where
  bucket_guid := hw.bucket_guid
  object_guid := hw.object_guid.sublist hguids
  upload_guid := hw.upload_guid
  part_number := hw.part_number
  version_object := hversions
  object_lt := fun o ho => by
    obtain ⟨p, hp, hguid⟩ := List.mem_map.mp (hguids.subset (List.mem_map_of_mem ho))
    exact hguid ▸ hw.object_lt p hp
  upload_lt := hw.upload_lt

/-- Dropping the row of a key none of whose versions is left. -/
theorem mem_objects_of_no_version (hw : Integrity w) {versions : List ObjectVersionRow}
    (hsub : versions.Sublist w.db.objectVersions) {objectGuid : Guid}
    (hnone : ∀ v ∈ versions, v.objectGuid ≠ objectGuid) :
    ∀ v ∈ versions, v.objectGuid ∈ (w.db.objects.filter (·.guid ≠ objectGuid)).map (·.guid) := by
  intro v hv
  obtain ⟨o, ho, hguid⟩ := List.mem_map.mp (hw.version_object v (hsub.subset hv))
  refine List.mem_map.mpr ⟨o, List.mem_filter.mpr ⟨ho, decide_eq_true ?_⟩, hguid⟩
  exact fun h => hnone v hv (hguid.symm.trans h)

theorem Integrity.removeVersion (hw : Integrity w) (objectGuid versionGuid : Guid) :
    Integrity { w with db := Statements.removeVersion objectGuid versionGuid w.db } := by
  obtain ⟨objects, objectVersions, hframe⟩ : ∃ objects objectVersions,
      Statements.removeVersion objectGuid versionGuid w.db = { w.db with objects, objectVersions } :=
    removeVersion_frame objectGuid versionGuid
  have hversions : (Statements.removeVersion objectGuid versionGuid w.db).objectVersions = _ :=
    removeVersion_objectVersions objectGuid versionGuid
  have hobjects : objectRefs (Statements.removeVersion objectGuid versionGuid w.db) = _ ∨ _ :=
    objectRefs_removeVersion objectGuid versionGuid
  rw [hframe] at hversions hobjects ⊢
  obtain rfl : objectVersions = w.db.objectVersions.filter fun v => !(v.guid = versionGuid : Bool) :=
    hversions
  rcases hobjects with hrefs | ⟨hnone, hobjects⟩
  · have hguids : objects.map (·.guid) = w.db.objects.map (·.guid) := by
      have h := congrArg (List.map (·.1)) hrefs
      rwa [← map_guid_eq_objectRefs, ← map_guid_eq_objectRefs] at h
    refine hw.shrink (hguids ▸ List.Sublist.refl _) fun v hv => ?_
    rw [hguids]
    exact hw.version_object v (List.filter_sublist.subset hv)
  · obtain rfl : objects = w.db.objects.filter (·.guid ≠ objectGuid) := hobjects
    refine hw.shrink (List.filter_sublist.map _)
      (mem_objects_of_no_version hw List.filter_sublist fun v hv hguid => ?_)
    exact List.filter_eq_nil_iff.mp hnone v hv (decide_eq_true hguid)

theorem Integrity.purgeObject (hw : Integrity w) (objectGuid : Guid) :
    Integrity { w with db := (Statements.purgeObject objectGuid w.db).2 } := by
  refine hw.shrink (List.filter_sublist.map _)
    (mem_objects_of_no_version hw List.filter_sublist fun v hv hguid => ?_)
  have hne := (List.mem_filter.mp hv).2
  simp [hguid] at hne

theorem Integrity.upsertPart (hw : Integrity w) (part : MultipartPartRow) :
    Integrity { w with db := Statements.upsertPart part w.db } :=
  ⟨hw.bucket_guid, hw.object_guid, hw.upload_guid, upsertPart_numbers hw.part_number,
    hw.version_object, hw.object_lt, hw.upload_lt⟩

theorem Integrity.setUploadStatus (hw : Integrity w) (uploadGuid : Guid) (status : MultipartUploadStatus) :
    Integrity { w with db := Statements.setUploadStatus uploadGuid status w.db } := by
  have hguids : (Statements.setUploadStatus uploadGuid status w.db).multipartUploads.map (·.guid) =
      w.db.multipartUploads.map (·.guid) := by
    rw [Statements.setUploadStatus, List.map_map]
    refine List.map_congr_left fun u _ => ?_
    rw [Function.comp_apply]
    split_ifs <;> rfl
  refine ⟨hw.bucket_guid, hw.object_guid, hguids ▸ hw.upload_guid, hw.part_number,
    hw.version_object, hw.object_lt, fun u hu => ?_⟩
  have hmem : u.guid ∈ w.db.multipartUploads.map (·.guid) := hguids ▸ List.mem_map_of_mem hu
  obtain ⟨u', hu', hguid⟩ := List.mem_map.mp hmem
  exact hguid ▸ hw.upload_lt u' hu'

theorem Integrity.deleteParts (hw : Integrity w) (uploadGuid : Guid) :
    Integrity { w with db := Statements.deleteParts uploadGuid w.db } :=
  ⟨hw.bucket_guid, hw.object_guid, hw.upload_guid, hw.part_number.sublist (List.filter_sublist.map _),
    hw.version_object, hw.object_lt, hw.upload_lt⟩

/-- Closing an upload keeps integrity. -/
theorem Integrity.closeUpload (hw : Integrity w) (uploadGuid : Guid) (status : MultipartUploadStatus) :
    Integrity { w with db := ObjectsService.closeUpload uploadGuid status w.db } :=
  (hw.setUploadStatus uploadGuid status).deleteParts uploadGuid

/-- **Every kind of step keeps integrity.** -/
theorem Atomic.integrity {event : World → Option Event} {effect : World → World}
    (h : Atomic N event effect) (hw : Integrity w) : Integrity (effect w) := by
  cases h with
  | offTables h => exact hw.congr (h.db w) (h.calls_le w)
  | requireUpload bucketGuid uploadId => exact hw
  | commit bucketGuid key versionId values => exact hw.commitVersion _ bucketGuid key versionId values
  | removeVersion objectGuid versionGuid => exact hw.removeVersion objectGuid versionGuid
  | purge objectGuid => exact hw.purgeObject objectGuid
  | insertUpload row hguid =>
    refine ⟨hw.bucket_guid, hw.object_guid, ?_, hw.part_number, hw.version_object, ?_, ?_⟩
    · refine nodup_map_append_singleton hw.upload_guid fun u hu h => ?_
      rw [hguid] at h
      exact (hw.upload_lt u hu).ne h
    · exact fun o ho => (hw.object_lt o ho).trans (Nat.lt_succ_self _)
    · intro u hu
      rcases List.mem_append.mp hu with hu | hu
      · exact (hw.upload_lt u hu).trans (Nat.lt_succ_self _)
      · rw [List.mem_singleton.mp hu, hguid]
        exact Nat.lt_succ_self w.calls
  | storePart bucketGuid row => exact (hw.upsertPart (row w.calls)).congr rfl (Nat.le_succ _)
  | retire uploadGuid status => exact hw.setUploadStatus uploadGuid status
  | dropParts uploadGuid => exact hw.deleteParts uploadGuid

theorem Atomic.calls_le {event : World → Option Event} {effect : World → World}
    (h : Atomic N event effect) (w : World) : w.calls ≤ (effect w).calls := by
  cases h with
  | offTables h => exact h.calls_le w
  | commit => exact Nat.le_succ _
  | insertUpload => exact Nat.le_succ _
  | storePart => exact Nat.le_succ _
  | _ => exact le_rfl

end Kept

end ObjectsService
end SimpleStorage
