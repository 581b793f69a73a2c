import SimpleStorage.Buckets.BucketsService
import SimpleStorage.Objects.TableEffects
import SimpleStorage.Usage.Accounting

/-!
# Every stored byte is charged

What the tables say a user stores, and what the user is charged for: the usage counts live
buckets and uploads in progress only, so the two agree as long as nothing is left behind in
a deleted bucket or by a retired upload.

`Settled` is the invariant of requests that run one after the other.  A bucket is deleted
only when it has no keys, but the parts of its uploads in progress stay and nobody is charged
for them any more.

* `charged_iff`: in a run every stored byte is charged in every state, exactly if no bucket
  is deleted that has such a part.
* `pending_part_escapes`: a run with such a delete.
-/

namespace SimpleStorage
namespace UsageService

open ObjectsService ObjectsTypes Program Statements

/-! ## Requests -/

inductive AccountRequest where
  | createBucket (name : Text) (ownerUserGuid : UserGuid)
  | deleteBucket (name : Text)
  | put (bucket : Text) (params : PutObjectParams)
  | delete (bucket key : Text) (versionId accessKeyId : Option Text)
  | createMultipartUpload (bucket key : Text) (accessKeyId : Option Text) (headers : ObjectHeaders)
  | uploadPart (bucket uploadId : Text) (partNumber : ℤ) (stream : Readable)
      (contentMd5 : Option Text) (declaredLength maxBytes : Option ℕ)
  | completeMultipartUpload (bucket uploadId : Text) (parts : List CompletePart)
  | abortMultipartUpload (bucket uploadId : Text)
  deriving DecidableEq

variable (N : Node)

/-- Each resolves its bucket first. -/
def AccountRequest.program : AccountRequest → Service Unit
  | .createBucket name ownerUserGuid => do
      let _ ← BucketsService.create name ownerUserGuid
  | .deleteBucket name => do
      let bucket ← BucketsService.getByName name
      BucketsService.delete N bucket.guid
  | .put bucket params => do
      let bucket ← BucketsService.getByName bucket
      let _ ← ObjectsService.put N { params with bucket := bucket.toBucketContext }
  | .delete bucket key versionId accessKeyId => do
      let bucket ← BucketsService.getByName bucket
      let _ ← ObjectsService.delete N bucket.toBucketContext key versionId accessKeyId
  | .createMultipartUpload bucket key accessKeyId headers => do
      let bucket ← BucketsService.getByName bucket
      let _ ← ObjectsService.createMultipartUpload N bucket.toBucketContext key accessKeyId headers
  | .uploadPart bucket uploadId partNumber stream contentMd5 declaredLength maxBytes => do
      let bucket ← BucketsService.getByName bucket
      let _ ← ObjectsService.uploadPart N bucket.toBucketContext uploadId partNumber stream contentMd5
        declaredLength maxBytes
  | .completeMultipartUpload bucket uploadId parts => do
      let bucket ← BucketsService.getByName bucket
      let _ ← ObjectsService.completeMultipartUpload N bucket.toBucketContext uploadId parts
  | .abortMultipartUpload bucket uploadId => do
      let bucket ← BucketsService.getByName bucket
      ObjectsService.abortMultipartUpload bucket.guid uploadId

/-! ## What is stored and what is charged -/

/-- The bucket belongs to the user, deleted or not. -/
def OwnedBy (userGuid : UserGuid) (bucketGuid : Guid) (db : Database) : Prop :=
  ∃ b ∈ db.buckets, b.guid = bucketGuid ∧ b.ownerUserGuid = userGuid

/-- The version has a payload and is in a bucket of the user. -/
def VersionOf (userGuid : UserGuid) (db : Database) (v : ObjectVersionRow) : Prop :=
  v.storagePath.isSome ∧ ∃ o ∈ db.objects, o.guid = v.objectGuid ∧ OwnedBy userGuid o.bucketGuid db

/-- The part is of an upload to a bucket of the user. -/
def PartOf (userGuid : UserGuid) (db : Database) (p : MultipartPartRow) : Prop :=
  ∃ u ∈ db.multipartUploads, u.guid = p.uploadGuid ∧ OwnedBy userGuid u.bucketGuid db

instance (userGuid : UserGuid) (bucketGuid : Guid) (db : Database) :
    Decidable (OwnedBy userGuid bucketGuid db) := inferInstanceAs (Decidable (∃ b ∈ db.buckets, _))

instance (userGuid : UserGuid) (db : Database) (v : ObjectVersionRow) :
    Decidable (VersionOf userGuid db v) := inferInstanceAs (Decidable (_ ∧ _))

instance (userGuid : UserGuid) (db : Database) (p : MultipartPartRow) :
    Decidable (PartOf userGuid db p) := inferInstanceAs (Decidable (∃ u ∈ db.multipartUploads, _))

/-- The bytes the rows in a user's buckets refer to. -/
def storedBytes (userGuid : UserGuid) (db : Database) : ℕ :=
  ((db.objectVersions.filter fun v => VersionOf userGuid db v).map (·.size)).sum +
    ((db.multipartParts.filter fun p => PartOf userGuid db p).map (·.size)).sum

/-- **Every stored byte is charged to its owner**, once. -/
def Charged (db : Database) : Prop :=
  ∀ userGuid, (userUsage userGuid db).totalBytes = storedBytes userGuid db

/-- No part of an upload in progress in the bucket takes up space. -/
def NothingPending (bucketGuid : Guid) (db : Database) : Prop :=
  ∀ p ∈ db.multipartParts, (p.uploadGuid, bucketGuid) ∈ uploadRefs db → p.size = 0

instance (bucketGuid : Guid) (db : Database) : Decidable (NothingPending bucketGuid db) :=
  inferInstanceAs (Decidable (∀ p ∈ db.multipartParts, _))

/-- A request to delete a bucket finds none with a part that takes up space. -/
def LeavesNothingPending (w : World) : AccountRequest → Prop
  | .deleteBucket name => ∀ b ∈ BucketsService.findBucket name w.db,
      BucketsService.countObjects b.guid w.db = 0 → NothingPending b.guid w.db
  | _ => True

/-! ## Sums over what is charged -/

section Sums

variable {w : World} (hw : Integrity w) (userGuid : UserGuid)
include hw

theorem chargedBuckets_nodup : ((chargedBuckets userGuid w.db).map (·.guid)).Nodup :=
  hw.bucket_guid.sublist (List.filter_sublist.map _)

/-- **The usage of a user** is the sum over the versions and the parts of all charged buckets. -/
theorem userUsage_eq : (userUsage userGuid w.db).totalBytes =
    ((w.db.objectVersions.filter fun v => (chargedBuckets userGuid w.db).any fun b =>
      (v.objectGuid, b.guid) ∈ objectRefs w.db && v.storagePath.isSome).map (·.size)).sum +
    ((w.db.multipartParts.filter fun p => (chargedBuckets userGuid w.db).any fun b =>
      (p.uploadGuid, b.guid) ∈ uploadRefs w.db).map (·.size)).sum := by
  have hnodup := (chargedBuckets_nodup hw userGuid).of_map
  have hguid : ∀ b ∈ chargedBuckets userGuid w.db, ∀ b' ∈ chargedBuckets userGuid w.db,
      b.guid = b'.guid → b = b' :=
    fun b hb b' hb' => List.inj_on_of_nodup_map (chargedBuckets_nodup hw userGuid) hb hb'
  have hbucket : ∀ b : BucketRow, (bucketUsage b.guid w.db).totalBytes =
      ((w.db.objectVersions.filter fun v =>
        (v.objectGuid, b.guid) ∈ objectRefs w.db && v.storagePath.isSome).map (·.size)).sum +
      ((w.db.multipartParts.filter fun p => (p.uploadGuid, b.guid) ∈ uploadRefs w.db).map (·.size)).sum := by
    intro b
    rw [← storedVersions_eq hw, ← pendingParts_eq hw]
    rfl
  rw [userUsage_totalBytes]
  simp only [hbucket]
  rw [List.sum_map_add, Join.sum_partition hnodup, Join.sum_partition hnodup]
  · intro p b hb b' hb' h h'
    exact hguid b hb b' hb' (uploadRefs_unique hw (of_decide_eq_true h) (of_decide_eq_true h'))
  · intro v b hb b' hb' h h'
    rw [Bool.and_eq_true, decide_eq_true_iff] at h h'
    exact hguid b hb b' hb' (objectRefs_unique hw h.1 h'.1)

omit hw in
/-- A charged version is one of the user's. -/
theorem versionOf_of_charged {v : ObjectVersionRow}
    (h : ((chargedBuckets userGuid w.db).any fun b =>
      (v.objectGuid, b.guid) ∈ objectRefs w.db && v.storagePath.isSome) = true) :
    VersionOf userGuid w.db v := by
  obtain ⟨b, hb, hcharged⟩ := List.any_eq_true.mp h
  rw [Bool.and_eq_true, decide_eq_true_iff] at hcharged
  obtain ⟨o, ho, href⟩ := List.mem_map.mp hcharged.1
  obtain ⟨hmem, howner⟩ := List.mem_filter.mp hb
  rw [Bool.and_eq_true, decide_eq_true_iff] at howner
  exact ⟨hcharged.2, o, ho, congrArg Prod.fst href, b, hmem, (congrArg Prod.snd href).symm, howner.1⟩

omit hw in
/-- A charged part is one of the user's. -/
theorem partOf_of_charged {p : MultipartPartRow}
    (h : ((chargedBuckets userGuid w.db).any fun b => (p.uploadGuid, b.guid) ∈ uploadRefs w.db) = true) :
    PartOf userGuid w.db p := by
  obtain ⟨b, hb, hcharged⟩ := List.any_eq_true.mp h
  obtain ⟨u, hu, href⟩ := List.mem_map.mp (of_decide_eq_true hcharged)
  obtain ⟨hmem, howner⟩ := List.mem_filter.mp hb
  rw [Bool.and_eq_true, decide_eq_true_iff] at howner
  exact ⟨u, (List.mem_filter.mp hu).1, congrArg Prod.fst href, b, hmem, (congrArg Prod.snd href).symm,
    howner.1⟩

/-- **A part of the user's that takes up space and is not charged** spoils the account. -/
theorem not_charged {p : MultipartPartRow} (hp : p ∈ w.db.multipartParts) (hsize : p.size ≠ 0)
    (hpart : PartOf userGuid w.db p)
    (hnot : ∀ b ∈ chargedBuckets userGuid w.db, (p.uploadGuid, b.guid) ∉ uploadRefs w.db) :
    ¬ Charged w.db := by
  intro hcharged
  have htotal := hcharged userGuid
  rw [userUsage_eq hw, storedBytes, Join.sum_filter, Join.sum_filter, Join.sum_filter, Join.sum_filter]
    at htotal
  refine htotal.not_lt (Nat.add_lt_add_of_le_of_lt (List.sum_le_sum fun v _ => ?_)
    (List.sum_lt_sum _ _ (fun q _ => ?_) ⟨p, hp, ?_⟩))
  · split_ifs with h h'
    · exact le_rfl
    · exact absurd (decide_eq_true (versionOf_of_charged userGuid h)) h'
    · exact Nat.zero_le _
    · exact le_rfl
  · split_ifs with h h'
    · exact le_rfl
    · exact absurd (decide_eq_true (partOf_of_charged userGuid h)) h'
    · exact Nat.zero_le _
    · exact le_rfl
  · rw [if_pos (decide_eq_true hpart), if_neg]
    · exact Nat.pos_of_ne_zero hsize
    · rw [List.any_eq_true]
      rintro ⟨b, hb, h⟩
      exact hnot b hb (of_decide_eq_true h)

end Sums

/-! ## The invariant -/

/-- The bucket is there and not deleted. -/
def LiveBucket (bucketGuid : Guid) (db : Database) : Prop :=
  ∃ b ∈ db.buckets, b.guid = bucketGuid ∧ b.deletedAt = none

/-- **Nothing is left behind** in a deleted bucket or by a retired upload. -/
structure Settled (w : World) : Prop where
  integrity : Integrity w
  bucket_lt : ∀ b ∈ w.db.buckets, b.guid < w.calls
  object_bucket : ∀ o ∈ w.db.objects, LiveBucket o.bucketGuid w.db
  part_upload : ∀ p ∈ w.db.multipartParts, p.size ≠ 0 →
    ∃ bucketGuid, (p.uploadGuid, bucketGuid) ∈ uploadRefs w.db ∧ LiveBucket bucketGuid w.db

/-- A bucket of the user that is live is charged. -/
theorem charged_of_live {w : World} (hw : Integrity w) {userGuid : UserGuid} {bucketGuid : Guid}
    (howned : OwnedBy userGuid bucketGuid w.db) (hlive : LiveBucket bucketGuid w.db) :
    ∃ b ∈ chargedBuckets userGuid w.db, b.guid = bucketGuid := by
  obtain ⟨b, hb, hguid, howner⟩ := howned
  obtain ⟨b', hb', hguid', hdeleted⟩ := hlive
  obtain rfl := List.inj_on_of_nodup_map hw.bucket_guid hb hb' (hguid.trans hguid'.symm)
  refine ⟨b, List.mem_filter.mpr ⟨hb, ?_⟩, hguid⟩
  rw [Bool.and_eq_true, decide_eq_true_iff, Option.isNone_iff_eq_none]
  exact ⟨howner, hdeleted⟩

/-- **Where nothing is left behind, every stored byte is charged.** -/
theorem Settled.charged {w : World} (hw : Settled w) : Charged w.db := by
  intro userGuid
  rw [userUsage_eq hw.integrity, storedBytes]
  congr 1
  · congr 2
    refine List.filter_congr fun v _ => ?_
    rw [Bool.eq_iff_iff, decide_eq_true_iff]
    refine ⟨versionOf_of_charged userGuid, ?_⟩
    rintro ⟨hpath, o, ho, hguid, howned⟩
    obtain ⟨b, hb, hbucket⟩ := charged_of_live hw.integrity howned (hw.object_bucket o ho)
    refine List.any_eq_true.mpr ⟨b, hb, ?_⟩
    rw [Bool.and_eq_true, decide_eq_true_iff]
    exact ⟨List.mem_map.mpr ⟨o, ho, Prod.ext hguid hbucket.symm⟩, hpath⟩
  · rw [Join.sum_filter, Join.sum_filter]
    congr 1
    refine List.map_congr_left fun p hp => ?_
    by_cases hsize : p.size = 0
    · rw [hsize, ite_self, ite_self]
    · refine if_congr ?_ rfl rfl
      rw [decide_eq_true_iff]
      refine ⟨partOf_of_charged userGuid, ?_⟩
      rintro ⟨u, hu, hguid, howned⟩
      obtain ⟨bucketGuid, href, hlive⟩ := hw.part_upload p hp hsize
      obtain ⟨u', hu', heq⟩ := List.mem_map.mp href
      obtain rfl := List.inj_on_of_nodup_map hw.integrity.upload_guid hu (List.mem_filter.mp hu').1
        (hguid.trans (congrArg Prod.fst heq).symm)
      obtain rfl : u.bucketGuid = bucketGuid := congrArg Prod.snd heq
      obtain ⟨b, hb, hbucket⟩ := charged_of_live hw.integrity howned hlive
      exact List.any_eq_true.mpr ⟨b, hb, decide_eq_true (hbucket ▸ href)⟩

/-! ## Operations keep the invariant -/

variable {N : Node} {w : World}

/-- What every operation on objects keeps. -/
structure Kept (w w' : World) : Prop where
  integrity : Integrity w'
  buckets : w'.db.buckets = w.db.buckets
  calls : w.calls ≤ w'.calls

theorem atomic_kept {α : Type} {x : Service α} (hx : x.Every (Atomic N)) (hw : Integrity w) :
    wp x (fun _ => Kept w) (fun _ => Kept w) w :=
  hx.wp_keeps (fun _ _ h s (hs : Kept w s) => ⟨h.integrity hs.integrity, (h.buckets s).trans hs.buckets,
    hs.calls.trans (h.calls_le s)⟩) ⟨hw, rfl, le_rfl⟩

theorem LiveBucket.congr {bucketGuid : Guid} {db db' : Database} (h : LiveBucket bucketGuid db)
    (hbuckets : db'.buckets = db.buckets) : LiveBucket bucketGuid db' := by
  rw [LiveBucket, hbuckets]
  exact h

/-- After an operation only its new keys and parts need looking at. -/
theorem Settled.of_kept {w' : World} (hw : Settled w) (hkept : Kept w w')
    (hobjects : ∀ o ∈ w'.db.objects, LiveBucket o.bucketGuid w.db)
    (hparts : ∀ p ∈ w'.db.multipartParts, p.size ≠ 0 →
      ∃ bucketGuid, (p.uploadGuid, bucketGuid) ∈ uploadRefs w'.db ∧ LiveBucket bucketGuid w.db) :
    Settled w' where
  integrity := hkept.integrity
  bucket_lt := fun b hb => (hw.bucket_lt b (hkept.buckets ▸ hb)).trans_le hkept.calls
  object_bucket := fun o ho => (hobjects o ho).congr hkept.buckets
  part_upload := fun p hp hsize => by
    obtain ⟨bucketGuid, href, hlive⟩ := hparts p hp hsize
    exact ⟨bucketGuid, href, hlive.congr hkept.buckets⟩

theorem Settled.of_same {w' : World} (hw : Settled w) (hkept : Kept w w') (hdb : w'.db = w.db) :
    Settled w' :=
  hw.of_kept hkept (hdb ▸ hw.object_bucket) (hdb ▸ hw.part_upload)

/-- The keys' rows after a commit to a live bucket. -/
theorem objects_of_commits (hw : Settled w) {bucket : BucketContext} (hlive : LiveBucket bucket.guid w.db)
    {key : Text} {path : Option Text} {db' : Database}
    (h : CommitsVersion (N := N) w bucket key path db') :
    (∀ o ∈ db'.objects, LiveBucket o.bucketGuid w.db) ∧ db'.multipartParts = w.db.multipartParts ∧
      db'.multipartUploads = w.db.multipartUploads := by
  obtain ⟨call, versionId, values, -, -, -, rfl⟩ := h
  obtain ⟨objects, objectVersions, hframe⟩ :=
    commitVersion_others call (N.now call) bucket.guid key versionId values w.db
  refine ⟨fun o ho => ?_, by rw [hframe], by rw [hframe]⟩
  rcases row_commitVersion ho with ⟨p, hp, -, hbucket, -⟩ | ⟨-, hbucket, -⟩
  · exact hbucket ▸ hw.object_bucket p hp
  · exact hbucket ▸ hlive

theorem Settled.commits {w' : World} (hw : Settled w) (hkept : Kept w w') {bucket : BucketContext}
    (hlive : LiveBucket bucket.guid w.db) {key : Text} {path : Option Text}
    (h : CommitsVersion (N := N) w bucket key path w'.db) : Settled w' := by
  obtain ⟨hobjects, hparts, huploads⟩ := objects_of_commits hw hlive h
  refine hw.of_kept hkept hobjects fun p hp hsize => ?_
  rw [uploadRefs, huploads]
  exact hw.part_upload p (hparts ▸ hp) hsize

theorem Settled.deletes {w' : World} (hw : Settled w) (hkept : Kept w w') {bucket : BucketContext}
    (hlive : LiveBucket bucket.guid w.db) {key : Text} {versionId : Option Text}
    (h : DeletesFrom (N := N) w bucket key versionId w'.db) : Settled w' := by
  generalize hdb : w'.db = db' at h
  cases h with
  | absent => exact hw.of_same hkept hdb
  | version hid ho hv =>
    rename_i o v i
    obtain ⟨objects, objectVersions, hframe⟩ : ∃ objects objectVersions,
        removeVersion o.guid v.guid w.db = { w.db with objects, objectVersions } :=
      removeVersion_frame o.guid v.guid
    refine hw.of_kept hkept (fun o' ho' => ?_) ?_
    · rw [hdb] at ho'
      obtain ⟨p, hp, -, hbucket, -⟩ := row_removeVersion ho'
      exact hbucket ▸ hw.object_bucket p hp
    · rw [hdb, hframe]
      exact hw.part_upload
  | purged hid hversioning ho =>
    refine hw.of_kept hkept (fun o' ho' => ?_) ?_
    · rw [hdb] at ho'
      exact hw.object_bucket o' (List.mem_filter.mp ho').1
    · rw [hdb]
      exact hw.part_upload
  | marked hid hversioning h => exact hw.commits hkept hlive (hdb ▸ h)

theorem Settled.storesPart {w' : World} (hw : Settled w) (hkept : Kept w w') {bucketGuid : Guid}
    (hlive : LiveBucket bucketGuid w.db) {uploadId : Text} {u : MultipartUploadRow}
    (hu : findUpload bucketGuid uploadId w.db = some u) {part : MultipartPartRow}
    (hpart : part.uploadGuid = u.guid) (hdb : w'.db = upsertPart part w.db) : Settled w' := by
  refine hw.of_kept hkept (hdb ▸ hw.object_bucket) fun p hp hsize => ?_
  rw [hdb] at hp ⊢
  rcases (mem_upsertPart hw.integrity.part_number).mp hp with rfl | ⟨hp, -⟩
  · obtain ⟨createdAt, hupserted⟩ := upsertedPart_eq part w.db
    rw [hupserted, hpart]
    exact ⟨bucketGuid, uploadRefs_of_found hu, hlive⟩
  · exact hw.part_upload p hp hsize

theorem Settled.closesUpload {w' : World} (hw : Settled w) (hkept : Kept w w') {db : Database}
    (hobjects : ∀ o ∈ db.objects, LiveBucket o.bucketGuid w.db)
    (hparts : db.multipartParts = w.db.multipartParts)
    (huploads : db.multipartUploads = w.db.multipartUploads) {uploadGuid : Guid}
    {status : MultipartUploadStatus} (hdb : w'.db = closeUpload uploadGuid status db) : Settled w' := by
  refine hw.of_kept hkept (hdb ▸ hobjects) fun p hp hsize => ?_
  rw [hdb] at hp ⊢
  obtain ⟨hp, hne⟩ := mem_closeUpload_parts.mp hp
  obtain ⟨bucketGuid, href, hlive⟩ := hw.part_upload p (hparts ▸ hp) hsize
  refine ⟨bucketGuid, mem_uploadRefs_closeUpload hne ?_, hlive⟩
  rw [uploadRefs, huploads]
  exact href

/-! ## Requests keep the invariant -/

/-- An operation by what it does to the tables. -/
theorem operation_settled {α : Type} {x : Service α} (hx : x.Every (Atomic N)) (hw : Settled w)
    {post : World → Prop} (hpost : wp x (fun _ => post) (fun _ w' => w'.db = w.db) w)
    (h : ∀ w', Kept w w' → post w' → Settled w') :
    wp (x >>= fun _ => (pure () : Service Unit)) (fun _ => Settled) (fun _ => Settled) w := by
  rw [wp_bind]
  exact wp_mono (wp_and (atomic_kept hx hw.integrity) hpost) (fun _ w' h' => h w' h'.1 h'.2)
    fun _ _ h' => hw.of_same h'.1 h'.2

theorem liveBucket_of_found {name : Text} {row : BucketRow}
    (h : BucketsService.findBucket name w.db = some row) : LiveBucket row.guid w.db := by
  obtain ⟨hmem, -, hlive⟩ := BucketsService.findBucket_eq_some h
  exact ⟨row, hmem, rfl, hlive⟩

theorem create_settled (hw : Settled w) (name : Text) (ownerUserGuid : UserGuid) :
    wp (BucketsService.create name ownerUserGuid) (fun _ => Settled) (fun _ => Settled) w := by
  rw [BucketsService.create, wp_bind, BucketsService.assertValidName, wp_require]
  refine ⟨fun _ => ?_, fun _ => hw⟩
  have hlater := Nat.le_succ w.calls
  have hsettled : Settled { w with
      db := (BucketsService.insertBucket { guid := w.calls, name, ownerUserGuid } w.db).2
      calls := w.calls + 1 } := by
    rw [BucketsService.insertBucket]
    split_ifs
    · exact hw.of_same ⟨hw.integrity.congr rfl hlater, rfl, hlater⟩ rfl
    have hlive : ∀ guid, LiveBucket guid w.db → LiveBucket guid { w.db with
        buckets := w.db.buckets ++ [{ guid := w.calls, name, ownerUserGuid }] } := by
      rintro guid ⟨b, hb, hguid, hdeleted⟩
      exact ⟨b, List.mem_append_left _ hb, hguid, hdeleted⟩
    have hold : Integrity { w with calls := w.calls + 1 } := hw.integrity.congr rfl hlater
    refine ⟨{ hold with bucket_guid := ?_ }, fun b hb => ?_, fun o ho => hlive _ (hw.object_bucket o ho),
      fun p hp hsize => ?_⟩
    · exact nodup_map_append_singleton hw.integrity.bucket_guid fun b hb => (hw.bucket_lt b hb).ne
    · rcases List.mem_append.mp hb with hb | hb
      · exact (hw.bucket_lt b hb).trans (Nat.lt_succ_self _)
      · rw [List.mem_singleton.mp hb]
        exact Nat.lt_succ_self w.calls
    · obtain ⟨bucketGuid, href, hpart⟩ := hw.part_upload p hp hsize
      exact ⟨bucketGuid, href, hlive _ hpart⟩
  rw [wp_bind, World.insertFor, wp_perform, wp_bind, wp_orThrow]
  exact ⟨fun _ _ => hsettled, fun _ => hsettled⟩

/-! ## Deleting a bucket -/

section DeleteBucket

variable (hw : Settled w) {row : BucketRow} (hrow : row ∈ w.db.buckets) (deletedAt : Timestamp)

/-- The deployment after a bucket was marked as deleted. -/
def deletedBucket (w : World) (guid : Guid) (deletedAt : Timestamp) : World where
  db := BucketsService.updateBucket guid (fun b => { b with deletedAt := some deletedAt }) w.db
  disk := w.disk
  encryption := w.encryption
  calls := w.calls + 1

include hw in
theorem integrity_deletedBucket (guid : Guid) : Integrity (deletedBucket w guid deletedAt) := by
  have hold : Integrity { w with calls := w.calls + 1 } := hw.integrity.congr rfl (Nat.le_succ _)
  refine { hold with bucket_guid := ?_ }
  have hguids : (deletedBucket w guid deletedAt).db.buckets.map (·.guid) = w.db.buckets.map (·.guid) := by
    rw [deletedBucket, BucketsService.updateBucket, List.map_map]
    refine List.map_congr_left fun b _ => ?_
    rw [Function.comp_apply]
    split_ifs <;> rfl
  exact hguids ▸ hw.integrity.bucket_guid

include hw in
/-- **Deleting a bucket leaves nothing behind** if it has no keys and nothing pending. -/
theorem Settled.deletesBucket {guid : Guid} (hcount : BucketsService.countObjects guid w.db = 0)
    (hpending : NothingPending guid w.db) : Settled (deletedBucket w guid deletedAt) := by
  have hlive : ∀ other, other ≠ guid → LiveBucket other w.db →
      LiveBucket other (deletedBucket w guid deletedAt).db := by
    rintro other hne ⟨b, hb, rfl, hdeleted⟩
    exact ⟨b, List.mem_map.mpr ⟨b, hb, if_neg hne⟩, rfl, hdeleted⟩
  refine ⟨integrity_deletedBucket hw deletedAt guid, fun b hb => ?_, fun o ho => ?_, fun p hp hsize => ?_⟩
  · obtain ⟨b', hb', rfl⟩ := List.mem_map.mp hb
    have hlt := (hw.bucket_lt b' hb').trans (Nat.lt_succ_self _)
    split_ifs
    · exact hlt
    · exact hlt
  · refine hlive _ (fun h => ?_) (hw.object_bucket o ho)
    exact List.filter_eq_nil_iff.mp (List.length_eq_zero_iff.mp hcount) o ho (decide_eq_true h)
  · obtain ⟨bucketGuid, href, hpart⟩ := hw.part_upload p hp hsize
    refine ⟨bucketGuid, href, hlive _ ?_ hpart⟩
    rintro rfl
    exact hsize (hpending p hp href)

include hw hrow in
/-- **Deleting a bucket with something pending** spoils the account of its owner. -/
theorem not_charged_deletedBucket (hpending : ¬ NothingPending row.guid w.db) :
    ¬ Charged (deletedBucket w row.guid deletedAt).db := by
  simp only [NothingPending, not_forall] at hpending
  obtain ⟨p, hp, href, hsize⟩ := hpending
  obtain ⟨u, hu, heq⟩ := List.mem_map.mp href
  have howned : OwnedBy row.ownerUserGuid row.guid (deletedBucket w row.guid deletedAt).db :=
    ⟨{ row with deletedAt := some deletedAt }, List.mem_map.mpr ⟨row, hrow, if_pos rfl⟩, rfl, rfl⟩
  have hbucket : u.bucketGuid = row.guid := congrArg Prod.snd heq
  refine not_charged (integrity_deletedBucket hw deletedAt row.guid) row.ownerUserGuid hp hsize
    ⟨u, (List.mem_filter.mp hu).1, congrArg Prod.fst heq, hbucket ▸ howned⟩ fun b hb href' => ?_
  obtain ⟨hb, hcharged⟩ := List.mem_filter.mp hb
  obtain ⟨b', hb', rfl⟩ := List.mem_map.mp hb
  have hguid := uploadRefs_unique hw.integrity href href'
  rw [Bool.and_eq_true, Option.isNone_iff_eq_none] at hcharged
  split_ifs at hguid hcharged with h
  · cases hcharged.2
  · exact h hguid.symm

end DeleteBucket

/-! ## Runs -/

/-- A bucket is marked as deleted if it has no keys. -/
theorem delete_spec (guid : Guid) (w : World) :
    wp (BucketsService.delete N guid)
      (fun _ w' => BucketsService.countObjects guid w.db = 0 ∧ w' = deletedBucket w guid (N.now w.calls))
      (fun _ w' => BucketsService.countObjects guid w.db ≠ 0 ∧ w' = w) w := by
  rw [BucketsService.delete, wp_bind, World.selectFor, wp_observe, wp_bind, wp_require]
  refine ⟨fun hcount => ?_, fun hcount => ⟨(Nat.pos_of_ne_zero fun h => hcount h.not_gt).ne', rfl⟩⟩
  rw [World.insertFor, wp_perform]
  exact ⟨Nat.eq_zero_of_not_pos hcount, rfl⟩

/-- **Every request keeps the invariant**, unless it deletes a bucket with something pending. -/
theorem request_settled (hw : Settled w) {r : AccountRequest} (h : LeavesNothingPending w r) :
    Settled (stateAfter (r.program N) w) := by
  refine stateAfter_of_wp ?_
  cases r with
  | createBucket name ownerUserGuid =>
    rw [AccountRequest.program, wp_bind]
    exact wp_mono (create_settled hw name ownerUserGuid) (fun _ _ h => h) fun _ _ h => h
  | deleteBucket name =>
    refine BucketsService.wp_getByName hw fun row hrow => wp_mono (delete_spec row.guid w) ?_ ?_
    · rintro _ _ ⟨hcount, rfl⟩
      exact hw.deletesBucket _ hcount (h row hrow hcount)
    · rintro _ _ ⟨-, rfl⟩
      exact hw
  | put bucket params =>
    refine BucketsService.wp_getByName hw fun row hrow => ?_
    exact operation_settled (put_atomic _) hw (put_tables _ w) fun w' hkept h =>
      hw.commits hkept (liveBucket_of_found hrow) h
  | delete bucket key versionId accessKeyId =>
    refine BucketsService.wp_getByName hw fun row hrow => ?_
    refine operation_settled (delete_atomic _ _ _ _) hw (wp_mono (delete_tables _ _ _ _ w)
      (fun _ _ h => h) fun _ _ h => congrArg World.db h) fun w' hkept h => ?_
    exact hw.deletes hkept (liveBucket_of_found hrow) h
  | createMultipartUpload bucket key accessKeyId headers =>
    refine BucketsService.wp_getByName hw fun row hrow => ?_
    refine operation_settled (createMultipartUpload_atomic (N := N) _ _ _ _) hw
      (wp_mono (createMultipartUpload_tables _ _ _ _ w)
        (fun _ w' h => show ∃ u, w'.db = insertUpload u w.db by
          obtain ⟨u, -, -, -, -, hdb⟩ := h
          exact ⟨u, hdb⟩) fun _ _ h => h.elim) fun w' hkept h => ?_
    obtain ⟨u, hdb⟩ := h
    refine hw.of_kept hkept (hdb ▸ hw.object_bucket) fun p hp hsize => ?_
    rw [hdb] at hp ⊢
    obtain ⟨bucketGuid, href, hlive⟩ := hw.part_upload p hp hsize
    refine ⟨bucketGuid, ?_, hlive⟩
    rw [uploadRefs, insertUpload, List.filter_append, List.map_append]
    exact List.mem_append_left _ href
  | uploadPart bucket uploadId partNumber stream contentMd5 declaredLength maxBytes =>
    refine BucketsService.wp_getByName hw fun row hrow => ?_
    refine operation_settled (uploadPart_atomic _ _ _ _ _ _ _) hw (uploadPart_tables _ _ _ _ _ _ _ w)
      fun w' hkept h => ?_
    obtain ⟨u, part, hu, hpart, -, -, hdb⟩ := h
    exact hw.storesPart hkept (liveBucket_of_found hrow) hu hpart hdb
  | completeMultipartUpload bucket uploadId parts =>
    refine BucketsService.wp_getByName hw fun row hrow => ?_
    refine operation_settled (completeMultipartUpload_atomic _ _ _) hw
      (completeMultipartUpload_tables _ _ _ w) fun w' hkept h => ?_
    obtain ⟨u, db, -, hcommits, hdb⟩ := h
    obtain ⟨hobjects, hparts, huploads⟩ := objects_of_commits hw (liveBucket_of_found hrow) hcommits
    exact hw.closesUpload hkept hobjects hparts huploads hdb
  | abortMultipartUpload bucket uploadId =>
    refine BucketsService.wp_getByName hw fun row hrow => ?_
    refine wp_mono (wp_and (atomic_kept (abortMultipartUpload_atomic (N := N) row.guid uploadId)
      hw.integrity) (abortMultipartUpload_tables row.guid uploadId w)) ?_ ?_
    · rintro _ w' ⟨hkept, u, -, hdb⟩
      exact hw.closesUpload hkept hw.object_bucket rfl rfl hdb
    · rintro _ w' ⟨hkept, hsame⟩
      exact hw.of_same hkept (congrArg World.db hsame)

/-- A request after which every stored byte is charged deletes no bucket with something pending. -/
theorem leavesNothingPending_of_charged (hw : Settled w) {r : AccountRequest}
    (h : Charged (stateAfter (r.program N) w).db) : LeavesNothingPending w r := by
  cases r with
  | deleteBucket name =>
    intro row hrow hcount
    by_contra hpending
    have hstate : stateAfter ((AccountRequest.deleteBucket name).program N) w =
        deletedBucket w row.guid (N.now w.calls) := by
      refine stateAfter_of_wp (p := fun w' => w' = deletedBucket w row.guid (N.now w.calls)) ?_
      rw [AccountRequest.program, wp_bind, BucketsService.getByName, wp_bind, World.select, wp_query,
        wp_bind, hrow, wp_orThrow_some, wp_pure]
      exact wp_mono (delete_spec row.guid w) (fun _ _ h => h.2) fun _ _ h => absurd hcount h.1
    rw [hstate] at h
    exact not_charged_deletedBucket hw (BucketsService.findBucket_eq_some hrow).1 _ hpending h
  | _ => trivial

/-- **Every stored byte is charged to its owner in every state of a run**, exactly if no bucket is
deleted while a part that takes up space is pending in it. -/
theorem charged_iff (hw : Settled w) (requests : List AccountRequest) :
    (∀ past, past <+: requests → Charged (runAll (AccountRequest.program N) past w).db) ↔
      ∀ past r, past ++ [r] <+: requests →
        LeavesNothingPending (runAll (AccountRequest.program N) past w) r := by
  have hkeep : ∀ (w : World) (r : AccountRequest), Settled w → LeavesNothingPending w r →
      Settled (stateAfter (r.program N) w) := fun _ _ hw h => request_settled hw h
  have hproper : ∀ (w : World) (r : AccountRequest), Settled w →
      Charged (stateAfter (r.program N) w).db → LeavesNothingPending w r :=
    fun _ _ hw h => leavesNothingPending_of_charged hw h
  have hgood : ∀ w : World, Settled w → Charged w.db := fun _ hw => hw.charged
  exact runAll_good_iff (AccountRequest.program N) hgood hkeep hproper hw
    requests

/-! ## A part that escapes -/

def newDeployment : World := { db := {}, encryption := ⟨false, []⟩ }

theorem settled_newDeployment : Settled newDeployment :=
  ⟨⟨by decide, by decide, by decide, by decide, List.forall_mem_nil _, List.forall_mem_nil _,
    List.forall_mem_nil _⟩, List.forall_mem_nil _, List.forall_mem_nil _, List.forall_mem_nil _⟩

/-- A part is stored in a new bucket. -/
def storePart : List AccountRequest :=
  let uploadId := Codec.base64url.encode (Node.counting.randomBytes 1 24)
  [.createBucket "photos".toList "user-1".toList, .createMultipartUpload "photos".toList ['a'] none {},
    .uploadPart "photos".toList uploadId 1 ⟨[[1, 2]], false⟩ none none none]

/-- **A part escapes the account of its owner** when the bucket is deleted. -/
theorem pending_part_escapes : ¬ ∀ past,
    past <+: storePart ++ [.deleteBucket "photos".toList] →
      Charged (runAll (AccountRequest.program Node.counting) past newDeployment).db := by
  intro h
  have howner := h _ (List.prefix_refl _) "user-1".toList
  revert howner
  decide

/-- As long as the bucket stays, the part is charged. -/
theorem charged_iff_storePart :
    Charged (runAll (AccountRequest.program Node.counting) storePart newDeployment).db := by
  refine (charged_iff settled_newDeployment storePart).mpr (fun past r hr => ?_) _ List.prefix_rfl
  have hmem : r ∈ storePart := hr.subset (List.mem_append_right _ (List.mem_singleton_self r))
  simp only [storePart, List.mem_cons, List.not_mem_nil, or_false] at hmem
  rcases hmem with rfl | rfl | rfl <;> exact trivial

end UsageService
end SimpleStorage
