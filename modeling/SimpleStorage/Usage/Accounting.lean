import SimpleStorage.Library.Joins
import SimpleStorage.Objects.Integrity

/-!
# What is charged to a bucket

The usage of a bucket is a sum over joins.  With integrity every version and every part is
counted once, in the bucket it belongs to: `storedVersions_eq`, `pendingParts_eq`.

* `userUsage_totalBytes`: the usage of a user is the sum over the buckets.
* `totalBytes_eq`: the usage of a bucket is the sum of what its rows are charged.
* `commit_bytes`, `storePart_bytes_le`: what a commit and a stored part add, to their bucket.
* `closeUpload_bytes`, `removeVersion_bytes`, `purgeObject_bytes`: what is taken away.
-/

namespace SimpleStorage
namespace UsageService

open ObjectsService Program Statements

variable {w : World}

/-! ## Every row is counted once -/

theorem storedVersions_eq (hw : Integrity w) (bucketGuid : Guid) :
    storedVersions bucketGuid w.db = w.db.objectVersions.filter fun v =>
      (v.objectGuid, bucketGuid) ∈ objectRefs w.db && v.storagePath.isSome := by
  rw [storedVersions, Join.join_eq_filter hw.object_guid.of_map]
  · refine List.filter_congr fun v _ => ?_
    rw [Bool.eq_iff_iff, List.any_eq_true, Bool.and_eq_true, decide_eq_true_iff, objectRefs,
      List.mem_map]
    simp only [Bool.and_eq_true, decide_eq_true_iff, Prod.mk.injEq]
    constructor
    · rintro ⟨o, ho, ⟨hguid, hbucket⟩, hpath⟩
      exact ⟨⟨o, ho, hguid, hbucket⟩, hpath⟩
    · rintro ⟨⟨o, ho, hguid, hbucket⟩, hpath⟩
      exact ⟨o, ho, ⟨hguid, hbucket⟩, hpath⟩
  · intro v o ho o' ho' h h'
    rw [Bool.and_eq_true, Bool.and_eq_true, decide_eq_true_iff] at h h'
    exact List.inj_on_of_nodup_map hw.object_guid ho ho' (h.1.1.trans h'.1.1.symm)

theorem pendingParts_eq (hw : Integrity w) (bucketGuid : Guid) :
    pendingParts bucketGuid w.db = w.db.multipartParts.filter fun p =>
      (p.uploadGuid, bucketGuid) ∈ uploadRefs w.db := by
  rw [pendingParts, Join.join_eq_filter hw.upload_guid.of_map]
  · refine List.filter_congr fun p _ => ?_
    rw [Bool.eq_iff_iff, List.any_eq_true, decide_eq_true_iff, uploadRefs, List.mem_map]
    simp only [Bool.and_eq_true, decide_eq_true_iff, List.mem_filter, Prod.mk.injEq]
    constructor
    · rintro ⟨u, hu, ⟨hguid, hbucket⟩, hstatus⟩
      exact ⟨u, ⟨hu, hstatus⟩, hguid, hbucket⟩
    · rintro ⟨u, ⟨hu, hstatus⟩, hguid, hbucket⟩
      exact ⟨u, hu, ⟨hguid, hbucket⟩, hstatus⟩
  · intro p u hu u' hu' h h'
    rw [Bool.and_eq_true, Bool.and_eq_true, decide_eq_true_iff] at h h'
    exact List.inj_on_of_nodup_map hw.upload_guid hu hu' (h.1.1.trans h'.1.1.symm)

/-- What a version is charged to a bucket: its size, if it belongs to it and has a payload. -/
def versionCharge (guid : Guid) (db : Database) (v : ObjectVersionRow) : ℕ :=
  if decide ((v.objectGuid, guid) ∈ objectRefs db) && v.storagePath.isSome then v.size else 0

/-- What a part is charged to a bucket. -/
def partCharge (guid : Guid) (db : Database) (p : MultipartPartRow) : ℕ :=
  if decide ((p.uploadGuid, guid) ∈ uploadRefs db) then p.size else 0

/-- **The usage of a bucket is the sum of what its rows are charged.** -/
theorem totalBytes_eq (hw : Integrity w) (guid : Guid) : (bucketUsage guid w.db).totalBytes =
    (w.db.objectVersions.map (versionCharge guid w.db)).sum +
      (w.db.multipartParts.map (partCharge guid w.db)).sum := by
  change _ + _ = _
  rw [storedVersions_eq hw, pendingParts_eq hw, Join.sum_filter, Join.sum_filter]
  rfl

/-- An object belongs to one bucket. -/
theorem objectRefs_unique (hw : Integrity w) {guid b b' : Guid} (h : (guid, b) ∈ objectRefs w.db)
    (h' : (guid, b') ∈ objectRefs w.db) : b = b' := by
  obtain ⟨o, ho, heq⟩ := List.mem_map.mp h
  obtain ⟨o', ho', heq'⟩ := List.mem_map.mp h'
  obtain rfl := List.inj_on_of_nodup_map hw.object_guid ho ho'
    ((congrArg Prod.fst heq).trans (congrArg Prod.fst heq').symm)
  exact (congrArg Prod.snd heq).symm.trans (congrArg Prod.snd heq')

theorem uploadRefs_unique (hw : Integrity w) {guid b b' : Guid} (h : (guid, b) ∈ uploadRefs w.db)
    (h' : (guid, b') ∈ uploadRefs w.db) : b = b' := by
  obtain ⟨u, hu, heq⟩ := List.mem_map.mp h
  obtain ⟨u', hu', heq'⟩ := List.mem_map.mp h'
  obtain rfl := List.inj_on_of_nodup_map hw.upload_guid (List.mem_filter.mp hu).1
    (List.mem_filter.mp hu').1 ((congrArg Prod.fst heq).trans (congrArg Prod.fst heq').symm)
  exact (congrArg Prod.snd heq).symm.trans (congrArg Prod.snd heq')

/-- An upload in progress that a request finds, as a reference to its bucket. -/
theorem uploadRefs_of_found {bucketGuid : Guid} {uploadId : Text} {db : Database} {u : MultipartUploadRow}
    (h : findUpload bucketGuid uploadId db = some u) : (u.guid, bucketGuid) ∈ uploadRefs db := by
  have hp := List.find?_some h
  simp only [Bool.and_eq_true, decide_eq_true_iff] at hp
  exact List.mem_map.mpr ⟨u, List.mem_filter.mpr ⟨List.mem_of_find?_eq_some h, decide_eq_true hp.2⟩,
    Prod.ext rfl hp.1.2⟩

/-! ## Users -/

/-- The buckets a user is charged for. -/
def chargedBuckets (userGuid : UserGuid) (db : Database) : List BucketRow :=
  db.buckets.filter fun b => b.ownerUserGuid = userGuid && b.deletedAt.isNone

theorem totalBytes_foldl_add (us : List UsageTypes.Usage) (u : UsageTypes.Usage) :
    (us.foldl add u).totalBytes = u.totalBytes + (us.map (·.totalBytes)).sum := by
  induction us generalizing u with
  | nil => rfl
  | cons u' us ih =>
    rw [List.foldl_cons, ih, List.map_cons, List.sum_cons, add, Nat.add_assoc]

/-- **A user is charged for the sum of the buckets.** -/
theorem userUsage_totalBytes (userGuid : UserGuid) (db : Database) :
    (userUsage userGuid db).totalBytes =
      ((chargedBuckets userGuid db).map fun b => (bucketUsage b.guid db).totalBytes).sum := by
  rw [userUsage, totalBytes_foldl_add, List.map_map]
  exact Nat.zero_add _

/-- What one bucket gains is what its owner gains at most, and nobody else. -/
theorem userUsage_le {db db' : Database} (hbuckets : db'.buckets = db.buckets)
    (hguids : (db.buckets.map (·.guid)).Nodup) {bucketGuid : Guid} {n : ℕ}
    (h : ∀ guid, (bucketUsage guid db').totalBytes ≤
      (bucketUsage guid db).totalBytes + if guid = bucketGuid then n else 0) (userGuid : UserGuid) :
    (userUsage userGuid db').totalBytes ≤ (userUsage userGuid db).totalBytes +
      if bucketGuid ∈ (chargedBuckets userGuid db).map (·.guid) then n else 0 := by
  rw [userUsage_totalBytes, userUsage_totalBytes, chargedBuckets, hbuckets]
  have hnodup : ((chargedBuckets userGuid db).map (·.guid)).Nodup :=
    hguids.sublist (List.filter_sublist.map _)
  change ((chargedBuckets userGuid db).map _).sum ≤ _
  generalize chargedBuckets userGuid db = charged at hnodup ⊢
  induction charged with
  | nil => exact Nat.zero_le _
  | cons b charged ih =>
    rw [List.map_cons, List.nodup_cons] at hnodup
    have hrest := ih hnodup.2
    have hb := h b.guid
    simp only [List.map_cons, List.sum_cons, List.mem_cons]
    by_cases hguid : b.guid = bucketGuid
    · have hnot : bucketGuid ∉ charged.map (·.guid) := hguid ▸ hnodup.1
      rw [if_neg hnot] at hrest
      rw [if_pos hguid] at hb
      rw [if_pos (Or.inl hguid.symm)]
      omega
    · rw [if_neg hguid] at hb
      have hiff : (bucketGuid = b.guid ∨ bucketGuid ∈ charged.map (·.guid)) ↔
          bucketGuid ∈ charged.map (·.guid) := or_iff_right fun h => hguid h.symm
      rw [if_congr hiff rfl rfl]
      omega

/-! ## What a commit adds -/

/-- A commit changes nothing about which bucket an earlier version belongs to. -/
theorem mem_objectRefs_commitVersion (hw : Integrity w) {createdAt : Timestamp} {bucketGuid : Guid}
    {key versionId : Text} {values : VersionValues} {v : ObjectVersionRow}
    (hv : v ∈ w.db.objectVersions) (guid : Guid) :
    (v.objectGuid, guid) ∈ objectRefs
        (Statements.commitVersion w.calls createdAt bucketGuid key versionId values w.db).2 ↔
      (v.objectGuid, guid) ∈ objectRefs w.db := by
  rw [objectRefs_commitVersion, List.mem_append]
  refine or_iff_left fun h => ?_
  obtain ⟨o, ho, hguid⟩ := List.mem_map.mp (hw.version_object v hv)
  split_ifs at h
  · have hcalls := congrArg Prod.fst (List.mem_singleton.mp h)
    exact (hw.object_lt o ho).ne (hguid.trans hcalls)
  · cases h

/-- The versions a commit keeps and those it replaces, in a sum. -/
theorem sum_keptVersions (f : ObjectVersionRow → ℕ) (objectGuid : Guid) (versionId : Text)
    (vs : List ObjectVersionRow) :
    ((keptVersions objectGuid versionId vs).map f).sum +
      ((replacedVersions objectGuid versionId vs).map f).sum = (vs.map f).sum := by
  rw [keptVersions, replacedVersions]
  split_ifs
  · rw [Nat.add_comm]
    exact Join.sum_filter_add_sum_filter_not _ f vs
  · rfl

/-- What a commit replaces is charged to its bucket alone. -/
theorem versionCharge_replaced (hw : Integrity w) (createdAt : Timestamp) {bucketGuid guid : Guid}
    {key versionId : Text} (values : VersionValues) (hguid : guid ≠ bucketGuid) {v : ObjectVersionRow}
    (hv : v ∈ replacedVersions (commitRow w.calls (bucketGuid, key) w.db).guid versionId
      w.db.objectVersions) : versionCharge guid w.db v = 0 := by
  rw [replacedVersions] at hv
  split_ifs at hv
  · obtain ⟨hv, hobject⟩ := List.mem_filter.mp hv
    rw [Bool.and_eq_true, decide_eq_true_iff] at hobject
    refine if_neg fun hcharged => hguid ?_
    rw [Bool.and_eq_true, decide_eq_true_iff] at hcharged
    have hafter : (v.objectGuid, guid) ∈ objectRefs
        (Statements.commitVersion w.calls createdAt bucketGuid key versionId values w.db).2 :=
      (mem_objectRefs_commitVersion hw hv guid).mpr hcharged.1
    rw [hobject.1] at hafter
    exact objectRefs_unique (hw.commitVersion createdAt bucketGuid key versionId values) hafter
      committed_mem_objectRefs
  · cases hv

/-- **What a commit adds**: its size if it has a payload, for what it replaces, to its bucket. -/
theorem commit_bytes (hw : Integrity w) (createdAt : Timestamp) (bucketGuid : Guid)
    (key versionId : Text) (values : VersionValues) (guid : Guid) :
    (bucketUsage guid
        (Statements.commitVersion w.calls createdAt bucketGuid key versionId values w.db).2).totalBytes +
      ((replacedVersions (commitRow w.calls (bucketGuid, key) w.db).guid versionId
        w.db.objectVersions).map (versionCharge guid w.db)).sum =
      (bucketUsage guid w.db).totalBytes +
        if guid = bucketGuid ∧ values.storagePath.isSome then values.size else 0 := by
  have hw' := hw.commitVersion createdAt bucketGuid key versionId values
  obtain ⟨objects, objectVersions, hframe⟩ :=
    commitVersion_others w.calls createdAt bucketGuid key versionId values w.db
  have hparts : (Statements.commitVersion w.calls createdAt bucketGuid key versionId values
        w.db).2.multipartParts.map (partCharge guid
        (Statements.commitVersion w.calls createdAt bucketGuid key versionId values w.db).2) =
      w.db.multipartParts.map (partCharge guid w.db) := by
    rw [hframe]
    rfl
  have hkept : (keptVersions (commitRow w.calls (bucketGuid, key) w.db).guid versionId
        w.db.objectVersions).map (versionCharge guid
        (Statements.commitVersion w.calls createdAt bucketGuid key versionId values w.db).2) =
      (keptVersions (commitRow w.calls (bucketGuid, key) w.db).guid versionId
        w.db.objectVersions).map (versionCharge guid w.db) := by
    refine List.map_congr_left fun v hv => ?_
    rw [versionCharge, versionCharge]
    simp only [mem_objectRefs_commitVersion hw ((keptVersions_sublist _ _ _).subset hv) guid]
  have hnew : versionCharge guid
        (Statements.commitVersion w.calls createdAt bucketGuid key versionId values w.db).2
        (committedVersion w.calls createdAt (bucketGuid, key) versionId values w.db) =
      if guid = bucketGuid ∧ values.storagePath.isSome then values.size else 0 := by
    have href : ((commitRow w.calls (bucketGuid, key) w.db).guid, guid) ∈ objectRefs
          (Statements.commitVersion w.calls createdAt bucketGuid key versionId values w.db).2 ↔
        guid = bucketGuid :=
      ⟨fun h => objectRefs_unique hw' h committed_mem_objectRefs,
        fun h => h ▸ committed_mem_objectRefs⟩
    refine if_congr ?_ rfl rfl
    rw [Bool.and_eq_true, decide_eq_true_iff]
    exact and_congr_left' href
  have hsum := sum_keptVersions (versionCharge guid w.db)
    (commitRow w.calls (bucketGuid, key) w.db).guid versionId w.db.objectVersions
  have hafter := totalBytes_eq hw' guid
  dsimp only at hafter
  rw [objectVersions_commitVersion, List.map_append, List.sum_append, List.map_singleton,
    List.sum_singleton, hkept, hnew, hparts] at hafter
  rw [hafter, totalBytes_eq hw, ← hsum]
  omega

/-- **A commit adds at most its size**, to its bucket. -/
theorem commit_bytes_le (hw : Integrity w) (createdAt : Timestamp) (bucketGuid : Guid)
    (key versionId : Text) (values : VersionValues) (guid : Guid) :
    (bucketUsage guid
        (Statements.commitVersion w.calls createdAt bucketGuid key versionId values w.db).2).totalBytes ≤
      (bucketUsage guid w.db).totalBytes + if guid = bucketGuid then values.size else 0 := by
  have hbytes := commit_bytes hw createdAt bucketGuid key versionId values guid
  by_cases hguid : guid = bucketGuid
  · rw [if_pos hguid]
    split_ifs at hbytes <;> omega
  · rw [if_neg fun h => hguid h.1] at hbytes
    rw [if_neg hguid]
    omega

/-- A commit adds nothing to any other bucket. -/
theorem commit_bytes_other (hw : Integrity w) (createdAt : Timestamp) {bucketGuid guid : Guid}
    (hguid : guid ≠ bucketGuid) (key versionId : Text) (values : VersionValues) :
    (bucketUsage guid
        (Statements.commitVersion w.calls createdAt bucketGuid key versionId values w.db).2).totalBytes =
      (bucketUsage guid w.db).totalBytes := by
  have hbytes := commit_bytes hw createdAt bucketGuid key versionId values guid
  have hzero : ((replacedVersions (commitRow w.calls (bucketGuid, key) w.db).guid versionId
      w.db.objectVersions).map (versionCharge guid w.db)).sum = 0 := by
    refine List.sum_eq_zero fun n hn => ?_
    obtain ⟨v, hv, rfl⟩ := List.mem_map.mp hn
    exact versionCharge_replaced hw createdAt values hguid hv
  rw [hzero, if_neg fun h => hguid h.1] at hbytes
  exact hbytes

/-- **A stored part adds at most its size**, to the bucket of its upload. -/
theorem storePart_bytes_le (hw : Integrity w) {part : MultipartPartRow} {bucketGuid : Guid}
    (hupload : ∀ guid, (part.uploadGuid, guid) ∈ uploadRefs w.db → guid = bucketGuid) (guid : Guid) :
    (bucketUsage guid (upsertPart part w.db)).totalBytes ≤
      (bucketUsage guid w.db).totalBytes + if guid = bucketGuid then part.size else 0 := by
  have hparts := pendingParts_eq (hw.upsertPart part) guid
  have hnew : (if decide ((part.uploadGuid, guid) ∈ uploadRefs w.db) then part.size else 0) ≤
      if guid = bucketGuid then part.size else 0 := by
    split_ifs with hcounted hguid
    · exact le_rfl
    · exact absurd (hupload guid (of_decide_eq_true hcounted)) hguid
    · exact Nat.zero_le _
    · exact Nat.zero_le _
  change _ + _ ≤ _ + _ + _
  rw [hparts, pendingParts_eq hw, Nat.add_assoc, Join.sum_filter, Join.sum_filter]
  refine Nat.add_le_add_left ?_ _
  change ((upsertPart part w.db).multipartParts.map fun p =>
    if decide ((p.uploadGuid, guid) ∈ uploadRefs w.db) then p.size else 0).sum ≤ _
  rw [upsertPart]
  cases findPart part.uploadGuid part.partNumber w.db with
  | none =>
    dsimp only
    rw [List.map_append, List.sum_append, List.map_singleton, List.sum_singleton]
    exact Nat.add_le_add_left hnew _
  | some old =>
    dsimp only
    rw [List.map_map]
    refine Join.sum_replace_le hw.part_number (k := (part.uploadGuid, part.partNumber))
      (fun p hp => ?_) fun p hp => ?_
    · have hmatch : ¬ (p.uploadGuid = part.uploadGuid ∧ p.partNumber = part.partNumber) :=
        fun h => hp (Prod.ext h.1 h.2)
      rw [Function.comp_apply, if_neg hmatch]
    · have hmatch : p.uploadGuid = part.uploadGuid ∧ p.partNumber = part.partNumber := Prod.mk.inj hp
      rw [Function.comp_apply, if_pos hmatch]
      exact hmatch.1 ▸ hnew

/-- A stored part adds nothing to any other bucket. -/
theorem storePart_bytes_other (hw : Integrity w) {part : MultipartPartRow} {bucketGuid guid : Guid}
    (hupload : ∀ guid, (part.uploadGuid, guid) ∈ uploadRefs w.db → guid = bucketGuid)
    (hguid : guid ≠ bucketGuid) :
    (bucketUsage guid (upsertPart part w.db)).totalBytes = (bucketUsage guid w.db).totalBytes := by
  have hzero : ∀ p : MultipartPartRow, p.uploadGuid = part.uploadGuid → partCharge guid w.db p = 0 := by
    intro p hp
    refine if_neg fun hcharged => hguid (hupload guid ?_)
    rw [← hp]
    exact of_decide_eq_true hcharged
  have hafter := totalBytes_eq (hw.upsertPart part) guid
  rw [hafter, totalBytes_eq hw]
  congr 1
  change ((upsertPart part w.db).multipartParts.map (partCharge guid w.db)).sum = _
  rw [upsertPart]
  cases findPart part.uploadGuid part.partNumber w.db with
  | none =>
    dsimp only
    rw [List.map_append, List.sum_append, List.map_singleton, List.sum_singleton, hzero part rfl,
      Nat.add_zero]
  | some old =>
    dsimp only
    rw [List.map_map]
    congr 1
    refine List.map_congr_left fun p _ => ?_
    rw [Function.comp_apply]
    split_ifs with hp
    · rw [hzero p hp.1]
      exact hzero _ hp.1
    · rfl

/-! ## What is taken away -/

/-- The references of the other uploads after one is closed. -/
theorem mem_uploadRefs_closeUpload {uploadGuid : Guid} {status : MultipartUploadStatus} {db : Database}
    {guid bucketGuid : Guid} (hne : guid ≠ uploadGuid) (h : (guid, bucketGuid) ∈ uploadRefs db) :
    (guid, bucketGuid) ∈ uploadRefs (ObjectsService.closeUpload uploadGuid status db) := by
  obtain ⟨u, hu, heq⟩ := List.mem_map.mp h
  obtain ⟨hu, hstatus⟩ := List.mem_filter.mp hu
  have hguid : u.guid ≠ uploadGuid := fun h => hne ((congrArg Prod.fst heq).symm.trans h)
  refine List.mem_map.mpr ⟨u, List.mem_filter.mpr ⟨List.mem_map.mpr ⟨u, hu, ?_⟩, hstatus⟩, heq⟩
  rw [if_neg hguid]

theorem mem_uploadRefs_closeUpload_iff {status : MultipartUploadStatus} (hstatus : status ≠ .inProgress)
    {uploadGuid g guid : Guid} (hg : g ≠ uploadGuid) {db : Database} :
    (g, guid) ∈ uploadRefs (ObjectsService.closeUpload uploadGuid status db) ↔ (g, guid) ∈ uploadRefs db := by
  refine ⟨fun h => ?_, mem_uploadRefs_closeUpload hg⟩
  obtain ⟨u, hu, heq⟩ := List.mem_map.mp h
  obtain ⟨hu, hopen⟩ := List.mem_filter.mp hu
  obtain ⟨v, hv, rfl⟩ := List.mem_map.mp hu
  split_ifs at * with hclosed
  · exact absurd (of_decide_eq_true hopen) hstatus
  · exact List.mem_map.mpr ⟨v, List.mem_filter.mpr ⟨hv, hopen⟩, heq⟩

/-- **A closed upload takes its parts with it**, from its bucket. -/
theorem closeUpload_bytes (hw : Integrity w) {status : MultipartUploadStatus}
    (hstatus : status ≠ .inProgress) {bucketGuid : Guid} {uploadId : Text} {u : MultipartUploadRow}
    (hu : findUpload bucketGuid uploadId w.db = some u) (guid : Guid) :
    (bucketUsage guid (ObjectsService.closeUpload u.guid status w.db)).totalBytes +
      (if guid = bucketGuid then ((partsOf u.guid w.db).map (·.size)).sum else 0) =
      (bucketUsage guid w.db).totalBytes := by
  have hkept : (ObjectsService.closeUpload u.guid status w.db).multipartParts.map
        (partCharge guid (ObjectsService.closeUpload u.guid status w.db)) =
      (w.db.multipartParts.filter fun p => !(decide (p.uploadGuid = u.guid))).map
        (partCharge guid w.db) := by
    have hparts : (ObjectsService.closeUpload u.guid status w.db).multipartParts =
        w.db.multipartParts.filter fun p => !(decide (p.uploadGuid = u.guid)) :=
      List.filter_congr fun p _ => decide_not
    rw [hparts]
    refine List.map_congr_left fun p hp => ?_
    have hne : p.uploadGuid ≠ u.guid := by simpa using (List.mem_filter.mp hp).2
    simp only [partCharge, mem_uploadRefs_closeUpload_iff hstatus hne]
  have hdropped : ((partsOf u.guid w.db).map (partCharge guid w.db)).sum =
      if guid = bucketGuid then ((partsOf u.guid w.db).map (·.size)).sum else 0 := by
    have href : (u.guid, guid) ∈ uploadRefs w.db ↔ guid = bucketGuid :=
      ⟨fun h => uploadRefs_unique hw h (uploadRefs_of_found hu), fun h => h ▸ uploadRefs_of_found hu⟩
    have hcharge : ∀ p ∈ partsOf u.guid w.db,
        partCharge guid w.db p = if guid = bucketGuid then p.size else 0 := by
      intro p hp
      have hupload := of_decide_eq_true (List.mem_filter.mp hp).2
      refine if_congr ?_ rfl rfl
      rw [decide_eq_true_iff, hupload, href]
    rw [List.map_congr_left hcharge]
    split_ifs
    · rfl
    · exact List.sum_eq_zero fun n hn => List.eq_of_mem_map_const hn
  have hafter := totalBytes_eq (hw.closeUpload u.guid status) guid
  dsimp only at hafter
  rw [hkept] at hafter
  have hsum := Join.sum_filter_add_sum_filter_not (fun p => decide (p.uploadGuid = u.guid))
    (partCharge guid w.db) w.db.multipartParts
  change ((partsOf u.guid w.db).map _).sum + _ = _ at hsum
  change _ = (w.db.objectVersions.map (versionCharge guid w.db)).sum + _ at hafter
  rw [hafter, totalBytes_eq hw, ← hsum, hdropped]
  omega

/-- **Versions that are dropped** take with them what they were charged. -/
theorem drop_bytes (hw : Integrity w) {w' : World} (hw' : Integrity w') {p : ObjectVersionRow → Bool}
    (hversions : w'.db.objectVersions = w.db.objectVersions.filter fun v => !p v)
    (hrefs : ∀ v ∈ w'.db.objectVersions, ∀ guid,
      (v.objectGuid, guid) ∈ objectRefs w'.db ↔ (v.objectGuid, guid) ∈ objectRefs w.db)
    (huploads : w'.db.multipartUploads = w.db.multipartUploads)
    (hparts : w'.db.multipartParts = w.db.multipartParts) (guid : Guid) :
    (bucketUsage guid w'.db).totalBytes +
      ((w.db.objectVersions.filter p).map (versionCharge guid w.db)).sum =
      (bucketUsage guid w.db).totalBytes := by
  have hkept : w'.db.objectVersions.map (versionCharge guid w'.db) =
      (w.db.objectVersions.filter fun v => !p v).map (versionCharge guid w.db) := by
    rw [← hversions]
    refine List.map_congr_left fun v hv => ?_
    simp only [versionCharge, hrefs v hv guid]
  have hpending : w'.db.multipartParts.map (partCharge guid w'.db) =
      w.db.multipartParts.map (partCharge guid w.db) := by
    rw [hparts]
    have hopen : uploadRefs w'.db = uploadRefs w.db := by rw [uploadRefs, uploadRefs, huploads]
    refine List.map_congr_left fun q _ => if_congr ?_ rfl rfl
    rw [decide_eq_true_iff, decide_eq_true_iff, hopen]
  have hsum := Join.sum_filter_add_sum_filter_not p (versionCharge guid w.db) w.db.objectVersions
  rw [totalBytes_eq hw', totalBytes_eq hw, hkept, hpending, ← hsum]
  omega

theorem mem_refs_filter {objects : List ObjectRow} {objectGuid g guid : Guid} (hg : g ≠ objectGuid) :
    (g, guid) ∈ (objects.filter (·.guid ≠ objectGuid)).map (fun o => (o.guid, o.bucketGuid)) ↔
      (g, guid) ∈ objects.map fun o => (o.guid, o.bucketGuid) := by
  simp only [List.mem_map, List.mem_filter, decide_eq_true_iff, Prod.mk.injEq]
  constructor
  · rintro ⟨o, ⟨ho, -⟩, rfl, rfl⟩
    exact ⟨o, ho, rfl, rfl⟩
  · rintro ⟨o, ho, rfl, rfl⟩
    exact ⟨o, ⟨ho, hg⟩, rfl, rfl⟩

theorem removeVersion_bytes (hw : Integrity w) (objectGuid versionGuid guid : Guid) :
    (bucketUsage guid (Statements.removeVersion objectGuid versionGuid w.db)).totalBytes +
      ((w.db.objectVersions.filter fun v => decide (v.guid = versionGuid)).map
        (versionCharge guid w.db)).sum = (bucketUsage guid w.db).totalBytes := by
  obtain ⟨objects, objectVersions, hframe⟩ : ∃ objects objectVersions,
      Statements.removeVersion objectGuid versionGuid w.db = { w.db with objects, objectVersions } :=
    removeVersion_frame objectGuid versionGuid
  refine drop_bytes hw (hw.removeVersion objectGuid versionGuid)
    (removeVersion_objectVersions objectGuid versionGuid) ?_ (by rw [hframe]) (by rw [hframe]) guid
  intro v hv b
  rcases @objectRefs_removeVersion w.db objectGuid versionGuid with hrefs | ⟨hnone, hobjects⟩
  · rw [hrefs]
  · have hne : v.objectGuid ≠ objectGuid := by
      intro hself
      have hmem : v ∈ versionsOf objectGuid (deleteVersions (·.guid = versionGuid) w.db).2 := by
        rw [removeVersion_objectVersions] at hv
        exact List.mem_filter.mpr ⟨hv, decide_eq_true hself⟩
      rw [hnone] at hmem
      cases hmem
    rw [objectRefs, hobjects]
    exact mem_refs_filter hne

theorem purgeObject_bytes (hw : Integrity w) (objectGuid guid : Guid) :
    (bucketUsage guid (Statements.purgeObject objectGuid w.db).2).totalBytes +
      ((w.db.objectVersions.filter fun v => decide (v.objectGuid = objectGuid)).map
        (versionCharge guid w.db)).sum = (bucketUsage guid w.db).totalBytes := by
  refine drop_bytes hw (hw.purgeObject objectGuid) rfl (fun v hv b => ?_) rfl rfl guid
  have hne : v.objectGuid ≠ objectGuid := by simpa using (List.mem_filter.mp hv).2
  exact mem_refs_filter hne

end UsageService
end SimpleStorage
