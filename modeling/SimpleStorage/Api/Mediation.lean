import SimpleStorage.Api.Permissions
import SimpleStorage.Library.Delegation
import SimpleStorage.Objects.StoreRuns

/-!
# Every change to a bucket is authorised

What a bucket holds are its row, its grants, its policy, the versions of its keys with their
payloads, and the uploads in progress: `Holdings`.

* `Touches`: what a request leaves alone that only does something to some of the buckets.
* `request_touches`: a request does something only to buckets on which it is authorised.
* `changed_authorised`: in a run of requests to both endpoints, a bucket changes only by a
  request that is authorised on it when it comes.
-/

namespace SimpleStorage
namespace Access

open BucketsService ObjectsService ObjectsTypes Program Statements

variable {N : Node}

/-! ## What a bucket holds -/

structure Holdings where
  rows : List BucketRow
  grants : List BucketAccessRow
  policies : List BucketPolicyRow
  versions : Text → List StoredVersion
  uploads : Text → Option PendingUpload

variable (N) in
/-- **All that belongs to a bucket**, as a client can see it. -/
def holdings (w : World) (bucketGuid : Guid) : Holdings where
  rows := w.db.buckets.filter (·.guid = bucketGuid)
  grants := grantsOf bucketGuid w.db
  policies := w.db.bucketPolicies.filter (·.bucketGuid = bucketGuid)
  versions := fun key => versions N w (bucketGuid, key)
  uploads := fun uploadId => pending N w (bucketGuid, uploadId)

/-- Guids are unique, references are good, and so are the keys of the bucket tables. -/
structure Tables (w : World) : Prop extends Integrity w, BucketKeys w

variable (N) in
/-- **What something leaves alone that is done to some buckets and grants some rights**: the
invariants, who owns which bucket, all that the other buckets hold, and who else may do what. -/
structure Touches (S : Set Guid) (G : Set (Guid × UserGuid × BucketPermission)) (w w' : World) : Prop where
  calls_le : w.calls ≤ w'.calls
  tables : Tables w → Tables w'
  inv : N.Distinct (w'.calls + callsPerRequest) → Inv N w → Inv N w'
  owners : ∀ row ∈ w.db.buckets, ∃ row' ∈ w'.db.buckets,
    row'.guid = row.guid ∧ row'.ownerUserGuid = row.ownerUserGuid
  elsewhere : N.Distinct (w'.calls + callsPerRequest) → Tables w → Inv N w →
    ∀ b ∉ S, b < w.calls → holdings N w' b = holdings N w b
  granted : ∀ b userGuid permission, Granted w'.db b userGuid permission →
    Granted w.db b userGuid permission ∨ (b, userGuid, permission) ∈ G

section Touches

variable {S : Set Guid} {G : Set (Guid × UserGuid × BucketPermission)} {w w' w'' : World}

theorem Touches.refl (w : World) : Touches N S G w w :=
  ⟨le_rfl, id, fun _ => id, fun row hrow => ⟨row, hrow, rfl, rfl⟩, fun _ _ _ _ _ _ => rfl,
    fun _ _ _ => .inl⟩

theorem Touches.trans (h : Touches N S G w w') (h' : Touches N S G w' w'') : Touches N S G w w'' where
  calls_le := h.calls_le.trans h'.calls_le
  tables := h'.tables ∘ h.tables
  inv := fun hdistinct hw =>
    h'.inv hdistinct (h.inv (hdistinct.mono (Nat.add_le_add_right h'.calls_le _)) hw)
  owners := by
    intro row hrow
    obtain ⟨row', hrow', hguid, howner⟩ := h.owners row hrow
    obtain ⟨row'', hrow'', hguid', howner'⟩ := h'.owners row' hrow'
    exact ⟨row'', hrow'', hguid'.trans hguid, howner'.trans howner⟩
  elsewhere := by
    intro hdistinct htables hw b hb hlt
    have hbefore := hdistinct.mono (Nat.add_le_add_right h'.calls_le callsPerRequest)
    rw [h'.elsewhere hdistinct (h.tables htables) (h.inv hbefore hw) b hb (hlt.trans_le h.calls_le),
      h.elsewhere hbefore htables hw b hb hlt]
  granted := fun b userGuid permission hgranted =>
    (h'.granted b userGuid permission hgranted).elim (h.granted b userGuid permission) .inr

/-- What is done step by step. -/
theorem keeps_touches {α : Type} {x : Service α}
    (hstep : ∀ w, wp x (fun _ w' => Touches N S G w w') (fun _ w' => Touches N S G w w') w) (w₀ : World) :
    Keeps (Touches N S G w₀) x := fun w h =>
  wp_mono (hstep w) (fun _ _ h' => h.trans h') fun _ _ h' => h.trans h'

end Touches

/-! ## Operations on objects -/

/-- The tables that say who may do what are left alone. -/
structure SameAccess (w w' : World) : Prop where
  buckets : w'.db.buckets = w.db.buckets
  bucketPolicies : w'.db.bucketPolicies = w.db.bucketPolicies
  bucketAccess : w'.db.bucketAccess = w.db.bucketAccess

theorem SameAccess.trans {w w' w'' : World} (h : SameAccess w w') (h' : SameAccess w' w'') :
    SameAccess w w'' :=
  ⟨h'.buckets.trans h.buckets, h'.bucketPolicies.trans h.bucketPolicies,
    h'.bucketAccess.trans h.bucketAccess⟩

/-- No step of an operation on objects changes them. -/
theorem sameAccess_of_atomic {event : World → Option Event} {effect : World → World}
    (h : Atomic N event effect) (w : World) : SameAccess w (effect w) := by
  cases h with
  | offTables h => exact ⟨by rw [h.db], by rw [h.db], by rw [h.db]⟩
  | commit bucketGuid key versionId values =>
    obtain ⟨objects, objectVersions, hframe⟩ :=
      commitVersion_others w.calls (N.now w.calls) bucketGuid key versionId values w.db
    exact ⟨(congrArg Database.buckets hframe).trans rfl,
      (congrArg Database.bucketPolicies hframe).trans rfl,
      (congrArg Database.bucketAccess hframe).trans rfl⟩
  | removeVersion objectGuid versionGuid =>
    obtain ⟨objects, objectVersions, hframe⟩ : ∃ objects objectVersions,
        Statements.removeVersion objectGuid versionGuid w.db = { w.db with objects, objectVersions } :=
      removeVersion_frame objectGuid versionGuid
    exact ⟨(congrArg Database.buckets hframe).trans rfl,
      (congrArg Database.bucketPolicies hframe).trans rfl,
      (congrArg Database.bucketAccess hframe).trans rfl⟩
  | _ => exact ⟨rfl, rfl, rfl⟩

section Objects

variable {S : Set Guid} {G : Set (Guid × UserGuid × BucketPermission)}

variable (N) in
/-- Versions and uploads of other buckets are what they were. -/
def SameElsewhere (S : Set Guid) (w w' : World) : Prop :=
  ∀ k : Guid × Text, k.1 ∉ S → versions N w' k = versions N w k ∧ pending N w' k = pending N w k

theorem sameElsewhere_of_effect {w w' : World} {vs : VersionedMap BucketKey StoredVersion}
    {uploads : BucketUpload → Option PendingUpload} (h : Effect N w w' vs uploads)
    (hversions : ∀ k : Guid × Text, k.1 ∉ S → vs k = versions N w k)
    (huploads : ∀ k : Guid × Text, k.1 ∉ S → uploads k = pending N w k) : SameElsewhere N S w w' := by
  intro k hk
  rw [h.versions, h.pending]
  exact ⟨hversions k hk, huploads k hk⟩

theorem sameElsewhere_of_unchanged {w w' : World} (h : Unchanged N w w') : SameElsewhere N S w w' :=
  sameElsewhere_of_effect h (fun _ _ => rfl) fun _ _ => rfl

theorem fst_ne {k : Guid × Text} (hk : k.1 ∉ S) {guid : Guid} (hguid : guid ∈ S) (x : Text) :
    k ≠ (guid, x) := by
  rintro rfl
  exact hk hguid

/-- **An operation on objects touches the buckets whose keys and uploads it changes.** -/
theorem objects_touch {α : Type} {x : Service α} (hatomic : x.Every (Atomic N))
    (hkept : ∀ w₀, Keeps (KeptInv N w₀) x)
    (hspec : ∀ w, Inv N w → N.Distinct (w.calls + callsPerRequest) →
      wp x (fun _ w' => SameElsewhere N S w w') (fun _ w' => SameElsewhere N S w w') w) (w₀ : World) :
    Keeps (Touches N S G w₀) x := by
  refine keeps_touches (fun w => ?_) w₀
  have hsame : Keeps (SameAccess w) x := fun w₁ h₁ =>
    hatomic.wp_keeps (fun _ _ hp w' hw' => hw'.trans (sameAccess_of_atomic hp w')) h₁
  have hboth := wp_and (hkept w w (KeptInv.refl w)) (hsame w ⟨rfl, rfl, rfl⟩)
  have htouches : ∀ w', KeptInv N w w' → SameAccess w w' →
      (N.Distinct (w.calls + callsPerRequest) → Inv N w → SameElsewhere N S w w') → Touches N S G w w' := by
    intro w' hkept haccess helsewhere
    refine ⟨hkept.calls_le, fun hw => ⟨hkept.integrity hw.toIntegrity, ?_⟩, hkept.inv,
      fun row hrow => ⟨row, haccess.buckets ▸ hrow, rfl, rfl⟩, fun hdistinct hw hinv b hb _ => ?_,
      fun _ _ _ hgranted => .inl ((Granted.congr haccess.bucketAccess).mp hgranted)⟩
    · exact ⟨haccess.buckets ▸ hw.guid, fun row hrow =>
        (hw.guid_lt row (haccess.buckets ▸ hrow)).trans_le hkept.calls_le, haccess.buckets ▸ hw.name,
        haccess.bucketAccess ▸ hw.grant⟩
    · have hobjects := helsewhere (hdistinct.mono (Nat.add_le_add_right hkept.calls_le _)) hinv
      rw [holdings, holdings, grantsOf, grantsOf, haccess.buckets, haccess.bucketPolicies,
        haccess.bucketAccess, funext fun key => (hobjects (b, key) hb).1,
        funext fun uploadId => (hobjects (b, uploadId) hb).2]
  by_cases hready : Inv N w ∧ N.Distinct (w.calls + callsPerRequest)
  · exact wp_mono (wp_and hboth (hspec w hready.1 hready.2))
      (fun _ w' h => htouches w' h.1.1 h.1.2 fun _ _ => h.2)
      fun _ w' h => htouches w' h.1.1 h.1.2 fun _ _ => h.2
  · have hnot : ∀ w', KeptInv N w w' ∧ SameAccess w w' → Touches N S G w w' := fun w' h =>
      htouches w' h.1 h.2 fun hdistinct hinv => absurd ⟨hinv, hdistinct⟩ hready
    exact wp_mono hboth (fun _ w' => hnot w') fun _ w' => hnot w'

section Operations

variable {bucket : BucketContext} (hbucket : bucket.guid ∈ S) (w₀ : World)
include hbucket

theorem put_touches {params : PutObjectParams} (hparams : params.bucket = bucket) :
    Keeps (Touches N S G w₀) (put N params) := by
  subst hparams
  refine objects_touch (put_atomic params) (fun w => put_keeps_inv w params) (fun w hw hdistinct => ?_) w₀
  refine wp_mono (put_spec params hw (hdistinct.mono (by simp [callsPerRequest]))) ?_
    fun _ _ h => sameElsewhere_of_unchanged h.1
  intro _ w' h
  exact sameElsewhere_of_effect h.1 (fun k hk => VersionedMap.write_of_ne (fst_ne hk hbucket _))
    fun _ _ => rfl

theorem delete_touches (key : Text) (versionId accessKeyId : Option Text) :
    Keeps (Touches N S G w₀) (ObjectsService.delete N bucket key versionId accessKeyId) := by
  refine objects_touch (delete_atomic _ _ _ _) (fun w => delete_keeps_inv w _ _ _ _)
    (fun w hw hdistinct => ?_) w₀
  refine wp_mono (delete_spec hw (hdistinct.mono (by simp [callsPerRequest])) _ _ _ _) ?_ ?_
  · intro _ w' h
    cases h with
    | absent _ h => exact sameElsewhere_of_unchanged h
    | version _ _ h =>
      exact sameElsewhere_of_effect h (fun k hk => VersionedMap.remove_of_ne (fst_ne hk hbucket _))
        fun _ _ => rfl
    | purged _ _ _ h =>
      exact sameElsewhere_of_effect h (fun k hk => VersionedMap.purge_of_ne (fst_ne hk hbucket _))
        fun _ _ => rfl
    | marked _ _ _ _ h =>
      exact sameElsewhere_of_effect h (fun k hk => VersionedMap.write_of_ne (fst_ne hk hbucket _))
        fun _ _ => rfl
  · rintro _ _ ⟨rfl, -⟩
    exact fun _ _ => ⟨rfl, rfl⟩

theorem createMultipartUpload_touches (key : Text) (accessKeyId : Option Text) (headers : ObjectHeaders) :
    Keeps (Touches N S G w₀) (createMultipartUpload N bucket key accessKeyId headers) := by
  refine objects_touch (createMultipartUpload_atomic _ _ _ _)
    (fun w => createMultipartUpload_keeps_inv w _ _ _ _) (fun w hw hdistinct => ?_) w₀
  refine wp_mono (createMultipartUpload_spec hw (hdistinct.mono (by simp [callsPerRequest])) _ _ _ _) ?_
    fun _ _ h => h.elim
  intro _ w' h
  exact sameElsewhere_of_effect h.2 (fun _ _ => rfl)
    fun k hk => Function.update_of_ne (fst_ne hk hbucket _) _ _

theorem uploadPart_touches (uploadId : Text) (partNumber : ℤ) (stream : Readable)
    (contentMd5 : Option Text) (declaredLength maxBytes : Option ℕ) :
    Keeps (Touches N S G w₀)
      (uploadPart N bucket uploadId partNumber stream contentMd5 declaredLength maxBytes) := by
  refine objects_touch (uploadPart_atomic _ _ _ _ _ _ _) (fun w => uploadPart_keeps_inv w _ _ _ _ _ _ _)
    (fun w hw hdistinct => ?_) w₀
  refine wp_mono (uploadPart_spec hw (hdistinct.mono (by simp [callsPerRequest])) _ _ _ _ _ _ _) ?_
    fun _ _ h => sameElsewhere_of_unchanged h.1
  rintro _ w' ⟨u, -, -, -, -, -, h⟩
  exact sameElsewhere_of_effect h (fun _ _ => rfl)
    fun k hk => Function.update_of_ne (fst_ne hk hbucket _) _ _

theorem completeMultipartUpload_touches (uploadId : Text) (parts : List CompletePart) :
    Keeps (Touches N S G w₀) (completeMultipartUpload N bucket uploadId parts) := by
  refine objects_touch (completeMultipartUpload_atomic _ _ _)
    (fun w => completeMultipartUpload_keeps_inv w _ _ _) (fun w hw hdistinct => ?_) w₀
  refine wp_mono (completeMultipartUpload_spec hw (hdistinct.mono (by simp [callsPerRequest])) _ _ _) ?_
    fun _ _ h => sameElsewhere_of_unchanged h.1
  rintro _ w' ⟨u, contents, -, -, -, -, -, -, -, h⟩
  exact sameElsewhere_of_effect h (fun k hk => VersionedMap.write_of_ne (fst_ne hk hbucket _))
    fun k hk => Function.update_of_ne (fst_ne hk hbucket _) _ _

theorem abortMultipartUpload_touches (uploadId : Text) :
    Keeps (Touches N S G w₀) (abortMultipartUpload bucket.guid uploadId) := by
  refine objects_touch (abortMultipartUpload_atomic _ _) (fun w => abortMultipartUpload_keeps_inv w _ _)
    (fun w hw _ => ?_) w₀
  refine wp_mono (abortMultipartUpload_spec hw _ _) ?_ fun _ _ h => sameElsewhere_of_unchanged h.1
  intro _ w' h
  exact sameElsewhere_of_effect h.2 (fun _ _ => rfl)
    fun k hk => Function.update_of_ne (fst_ne hk hbucket _) _ _

end Operations

/-- Drawing a number touches nothing. -/
theorem Touches.draw {w₀ w : World} (h : Touches N S G w₀ w) :
    Touches N S G w₀ { w with calls := w.calls + 1 } := by
  have hkept : KeptInv N w { w with calls := w.calls + 1 } := (KeptInv.refl w).draw
  refine h.trans ⟨hkept.calls_le, fun hw => ⟨hkept.integrity hw.toIntegrity, hw.guid, fun row hrow =>
    (hw.guid_lt row hrow).trans_le hkept.calls_le, hw.name, hw.grant⟩, hkept.inv,
    fun row hrow => ⟨row, hrow, rfl, rfl⟩, fun _ _ _ _ _ _ => rfl, fun _ _ _ => .inl⟩

/-- Only a move takes anything away from the bucket that is copied from. -/
theorem copyKeys_touches {source target : BucketContext} (htarget : target.guid ∈ S) {move : Bool}
    (hsource : move = true → source.guid ∈ S) (w₀ : World) (sourceKey targetKey : Text)
    (accessKeyId : Option Text) :
    Keeps (Touches N S G w₀) (copyKeys N source target sourceKey targetKey move accessKeyId) := by
  have hcopyEach : ∀ (destination : Text → Text) (keys : List Text),
      Keeps (Touches N S G w₀) (copyEach N source target accessKeyId destination keys) := fun destination =>
    .forM fun _ => .bind ((getVersion_readOnly _ _ _).keeps _) fun _ =>
      .ite (.pure ()) (.bind (copy_keeps (fun _ h => h.draw) _
        (fun _ hparams _ => put_touches htarget w₀ hparams) _ _ _) fun _ => .pure ())
  have hend : ∀ keys : List Text, Keeps (Touches N S G w₀) (if move = true then do
      let _ ← deleteMany N source accessKeyId (keys.map fun key => { key })
      pure keys.length
      else pure keys.length) := by
    intro keys
    cases move with
    | true =>
      exact .bind (deleteKeys_keeps (fun key => delete_touches (hsource rfl) w₀ key _ _) keys)
        fun _ => .pure _
    | false => exact .pure _
  refine .bind (.require _ _) fun _ => .bind (.require _ _) fun _ => .bind (.require _ _) fun _ => ?_
  refine .ite (.bind ((World.select_readOnly _).keeps _) ?_) (.bind (.pure _) ?_)
  · exact fun keys => .bind (.require _ _) fun _ => .bind (hcopyEach _ _) fun _ => hend keys
  · exact fun keys => .bind (.require _ _) fun _ => .bind (hcopyEach _ _) fun _ => hend keys

end Objects

/-! ## Configuring buckets -/

section Configuring

variable {S : Set Guid} {G : Set (Guid × UserGuid × BucketPermission)} {w w' : World}

/-- Keys, versions, uploads and files are left alone. -/
structure SameObjects (w w' : World) : Prop where
  objects : w'.db.objects = w.db.objects
  objectVersions : w'.db.objectVersions = w.db.objectVersions
  multipartUploads : w'.db.multipartUploads = w.db.multipartUploads
  multipartParts : w'.db.multipartParts = w.db.multipartParts
  disk : w'.disk = w.disk
  encryption : w'.encryption = w.encryption
  calls_le : w.calls ≤ w'.calls

theorem SameObjects.inv (h : SameObjects w w') (hw : Inv N w) : Inv N w' := by
  have hinv : Inv N { w' with calls := w.calls } :=
    hw.shrunk (hw.tables.congr h.objects h.objectVersions) (fun o ho => ⟨o, h.objects ▸ ho, rfl⟩)
      (fun v hv => h.objectVersions ▸ hv) h.multipartUploads h.multipartParts h.disk h.encryption rfl
  exact (Quiet.of_calls (w := { w' with calls := w.calls }) h.calls_le).inv hinv

theorem SameObjects.payloadOf_eq (h : SameObjects w w') (path : Option Text) (sse : EncryptionColumns) :
    payloadOf N w' path sse = payloadOf N w path sse := by
  rw [payloadOf, payloadOf, h.disk, h.encryption]

theorem SameObjects.versions_eq (h : SameObjects w w') : versions N w' = versions N w := by
  rw [versions, versions, history_congr h.objects h.objectVersions]
  congr 1
  funext v
  rw [storedVersion, storedVersion, h.payloadOf_eq]

theorem SameObjects.integrity (h : SameObjects w w') (hguid : (w'.db.buckets.map (·.guid)).Nodup)
    (hw : Integrity w) : Integrity w' where
  bucket_guid := hguid
  object_guid := h.objects ▸ hw.object_guid
  upload_guid := h.multipartUploads ▸ hw.upload_guid
  part_number := h.multipartParts ▸ hw.part_number
  version_object := by rw [h.objects, h.objectVersions]; exact hw.version_object
  object_lt := fun o ho => (hw.object_lt o (h.objects ▸ ho)).trans_le h.calls_le
  upload_lt := fun u hu => (hw.upload_lt u (h.multipartUploads ▸ hu)).trans_le h.calls_le

/-- The tables that say who may do what are changed, and nothing else. -/
theorem SameObjects.touches (h : SameObjects w w') (hkeys : BucketKeys w → BucketKeys w')
    (howners : ∀ row ∈ w.db.buckets, ∃ row' ∈ w'.db.buckets,
      row'.guid = row.guid ∧ row'.ownerUserGuid = row.ownerUserGuid)
    (hsame : ∀ b ∉ S, b < w.calls →
      w'.db.buckets.filter (·.guid = b) = w.db.buckets.filter (·.guid = b) ∧
      w'.db.bucketPolicies.filter (·.bucketGuid = b) = w.db.bucketPolicies.filter (·.bucketGuid = b) ∧
      grantsOf b w'.db = grantsOf b w.db)
    (hgranted : ∀ b userGuid permission, Granted w'.db b userGuid permission →
      Granted w.db b userGuid permission ∨ (b, userGuid, permission) ∈ G) :
    Touches N S G w w' where
  calls_le := h.calls_le
  tables := fun hw => ⟨h.integrity (hkeys hw.toBucketKeys).guid hw.toIntegrity, hkeys hw.toBucketKeys⟩
  inv := fun _ hw => h.inv hw
  owners := howners
  elsewhere := by
    intro _ _ _ b hb hlt
    obtain ⟨hrows, hpolicies, hgrants⟩ := hsame b hb hlt
    have hpending : pending N w' = pending N w :=
      pending_congr h.multipartUploads h.multipartParts fun p _ => h.payloadOf_eq _ _
    simp only [holdings, hrows, hpolicies, hgrants, h.versions_eq, hpending]
  granted := hgranted

/-- A bucket is changed, but for its guid, name and owner. -/
theorem update_touches {f : BucketRow → BucketRow} (hguid : ∀ b, (f b).guid = b.guid)
    (hname : ∀ b, (f b).name = b.name) (howner : ∀ b, (f b).ownerUserGuid = b.ownerUserGuid)
    {n : ℕ} (hn : w.calls ≤ n) {guid : Guid} (hS : ∀ b ∉ S, b < w.calls → b ≠ guid) :
    Touches N S G w { w with db := updateBucket guid f w.db, calls := n } := by
  have hmap : ∀ {β : Type} (g : BucketRow → β), (∀ b, g (f b) = g b) →
      (updateBucket guid f w.db).buckets.map g = w.db.buckets.map g := by
    intro β g hg
    rw [updateBucket, List.map_map]
    refine List.map_congr_left fun b _ => ?_
    rw [Function.comp_apply]
    split_ifs
    · exact hg b
    · rfl
  refine SameObjects.touches ⟨rfl, rfl, rfl, rfl, rfl, rfl, hn⟩
    (fun hw => ⟨?_, fun row hrow => ?_, ?_, hw.grant⟩) (fun row hrow => ?_)
    (fun b hb hlt => ⟨?_, rfl, rfl⟩) fun _ _ _ => .inl
  · exact (hmap (·.guid) hguid).symm ▸ hw.guid
  · obtain ⟨b, hb, rfl⟩ := List.mem_map.mp hrow
    have hlt := (hw.guid_lt b hb).trans_le hn
    split_ifs
    · rwa [hguid]
    · exact hlt
  · exact (hmap (·.name) hname).symm ▸ hw.name
  · refine ⟨_, List.mem_map_of_mem hrow, ?_⟩
    split_ifs
    · exact ⟨hguid row, howner row⟩
    · exact ⟨rfl, rfl⟩
  · have hne := hS b hb hlt
    have hother : ∀ x : BucketRow, decide (x.guid = guid) = true →
        decide (x.guid = b) = false ∧ decide ((f x).guid = b) = false := by
      intro x hx
      rw [hguid, of_decide_eq_true hx]
      simpa using hne.symm
    simpa [updateBucket] using Join.filter_update_other hother w.db.buckets

/-- A new bucket gets a guid that none had. -/
theorem insertBucket_touches {row : BucketRow} (hguid : row.guid = w.calls) :
    Touches N S G w { w with db := (insertBucket row w.db).2, calls := w.calls + 1 } := by
  rw [insertBucket]
  split_ifs with htaken
  · exact (Touches.refl w).draw
  · refine SameObjects.touches ⟨rfl, rfl, rfl, rfl, rfl, rfl, Nat.le_succ _⟩
      (fun hw => ⟨?_, fun b hb => ?_, ?_, hw.grant⟩)
      (fun b hb => ⟨b, List.mem_append_left _ hb, rfl, rfl⟩) (fun b _ hlt => ⟨?_, rfl, rfl⟩) fun _ _ _ => .inl
    · exact nodup_map_append_singleton hw.guid fun b hb => hguid ▸ (hw.guid_lt b hb).ne
    · rcases List.mem_append.mp hb with hb | hb
      · exact (hw.guid_lt b hb).trans (Nat.lt_succ_self _)
      · rw [List.mem_singleton.mp hb, hguid]
        exact Nat.lt_succ_self w.calls
    · exact nodup_map_append_singleton hw.name fun b hb hname =>
        htaken (List.any_eq_true.mpr ⟨b, hb, decide_eq_true hname⟩)
    · have hne : decide (row.guid = b) = false := by
        rw [hguid]
        exact decide_eq_false hlt.ne'
      rw [List.filter_append, List.filter_singleton, hne]
      exact List.append_nil _

theorem upsertPolicy_touches {bucketGuid : Guid} (hbucket : bucketGuid ∈ S)
    (document : PoliciesTypes.PolicyDocument) :
    Touches N S G w { w with db := PoliciesService.upsertPolicy bucketGuid document w.db } := by
  refine SameObjects.touches ⟨rfl, rfl, rfl, rfl, rfl, rfl, le_rfl⟩
    (fun hw => ⟨hw.guid, hw.guid_lt, hw.name, hw.grant⟩)
    (fun row hrow => ⟨row, hrow, rfl, rfl⟩) (fun b hb _ => ⟨rfl, ?_, rfl⟩) fun _ _ _ => .inl
  have hne : bucketGuid ≠ b := fun h => hb (h ▸ hbucket)
  have hother : ∀ x : BucketPolicyRow, decide (x.bucketGuid = bucketGuid) = true →
      decide (x.bucketGuid = b) = false ∧ decide (x.bucketGuid = b) = false := by
    intro x hx
    rw [of_decide_eq_true hx]
    simpa using hne
  rw [PoliciesService.upsertPolicy]
  dsimp only
  split_ifs
  · simpa using Join.filter_update_other (f := fun x : BucketPolicyRow => { x with document }) hother
      w.db.bucketPolicies
  · rw [List.filter_append, List.filter_singleton, decide_eq_false hne]
    exact List.append_nil _

theorem removePolicy_touches {bucketGuid : Guid} (hbucket : bucketGuid ∈ S) :
    Touches N S G w { w with db := PoliciesService.removePolicy bucketGuid w.db } := by
  refine SameObjects.touches ⟨rfl, rfl, rfl, rfl, rfl, rfl, le_rfl⟩
    (fun hw => ⟨hw.guid, hw.guid_lt, hw.name, hw.grant⟩)
    (fun row hrow => ⟨row, hrow, rfl, rfl⟩) (fun b hb _ => ⟨rfl, ?_, rfl⟩) fun _ _ _ => .inl
  rw [PoliciesService.removePolicy, List.filter_filter]
  refine List.filter_congr fun p _ => ?_
  by_cases hp : p.bucketGuid = b
  · have hne : b ≠ bucketGuid := fun h => hb (h ▸ hbucket)
    simp [hp, hne]
  · simp [hp]

theorem upsertGrant_touches {grant : BucketAccessRow} (hbucket : grant.bucketGuid ∈ S)
    (hG : ∀ permission ∈ grant.permissions, (grant.bucketGuid, grant.userGuid, permission) ∈ G) :
    Touches N S G w { w with db := (upsertGrant grant w.db).2 } := by
  have hgranted : ∀ b userGuid permission, Granted (upsertGrant grant w.db).2 b userGuid permission →
      Granted w.db b userGuid permission ∨ (b, userGuid, permission) ∈ G := by
    intro b userGuid permission h
    refine h.of_upsertGrant.imp_right ?_
    rintro ⟨rfl, rfl, hmem⟩
    exact hG permission hmem
  by_cases hrefers : (w.db.buckets.any (·.guid = grant.bucketGuid) &&
      w.db.users.any (·.guid = grant.userGuid)) = true
  swap
  · rw [upsertGrant, if_neg hrefers]
    exact Touches.refl w
  rw [upsertGrant, if_pos hrefers] at hgranted ⊢
  refine SameObjects.touches ⟨rfl, rfl, rfl, rfl, rfl, rfl, le_rfl⟩
    (fun hw => ⟨hw.guid, hw.guid_lt, hw.name, ?_⟩)
    (fun row hrow => ⟨row, hrow, rfl, rfl⟩) (fun b hb _ => ⟨rfl, rfl, ?_⟩) hgranted
  · dsimp only
    split_ifs with hthere
    · rw [List.map_map]
      refine (List.map_congr_left fun a _ => ?_) ▸ hw.grant
      rw [Function.comp_apply]
      split_ifs <;> rfl
    · refine nodup_map_append_singleton hw.grant fun a ha heq => hthere (List.any_eq_true.mpr ⟨a, ha, ?_⟩)
      exact isGrant_iff.mpr ⟨congrArg Prod.fst heq, congrArg Prod.snd heq⟩
  · have hne : grant.bucketGuid ≠ b := fun h => hb (h ▸ hbucket)
    rw [grantsOf, grantsOf]
    dsimp only
    split_ifs
    · refine Join.filter_update_other (f := fun a : BucketAccessRow =>
        { a with permissions := grant.permissions }) (fun a ha => ?_) _
      rw [isGrant_iff] at ha
      simpa [ha.1] using hne
    · rw [List.filter_append, List.filter_singleton, decide_eq_false hne]
      exact List.append_nil _

theorem removeGrants_touches {bucketGuid : Guid} (hbucket : bucketGuid ∈ S) (userGuid : UserGuid) :
    Touches N S G w { w with db := removeGrants bucketGuid userGuid w.db } := by
  refine SameObjects.touches ⟨rfl, rfl, rfl, rfl, rfl, rfl, le_rfl⟩ (fun hw => ⟨hw.guid, hw.guid_lt, hw.name,
    (List.filter_sublist.map _).nodup hw.grant⟩)
    (fun row hrow => ⟨row, hrow, rfl, rfl⟩) (fun b hb _ => ⟨rfl, rfl, ?_⟩)
    fun _ _ _ hgranted => .inl hgranted.of_removeGrants
  rw [grantsOf, grantsOf, removeGrants, List.filter_filter]
  refine List.filter_congr fun a _ => ?_
  by_cases ha : a.bucketGuid = b
  · have hne : b ≠ bucketGuid := fun h => hb (h ▸ hbucket)
    simp [ha, isGrant, hne]
  · simp [ha]

section Operations

variable {guid : Guid} (hguid : guid ∈ S) (w₀ : World)

theorem execute_touches {α : Type} {f : Database → α × Database}
    (h : ∀ w : World, Touches N S G w { w with db := (f w.db).2 }) :
    Keeps (Touches N S G w₀) (World.execute f) := fun w hw => hw.trans (h w)

include hguid

theorem updateBucket_touches {f : BucketRow → BucketRow} (hf : ∀ b, (f b).guid = b.guid)
    (hname : ∀ b, (f b).name = b.name) (howner : ∀ b, (f b).ownerUserGuid = b.ownerUserGuid) :
    Keeps (Touches N S G w₀) (World.execute fun db => ((), updateBucket guid f db)) :=
  execute_touches w₀ fun _ => update_touches hf hname howner le_rfl fun _ hb _ h => hb (h ▸ hguid)

theorem setVersioning_touches (versioning : BucketVersioning) :
    Keeps (Touches N S G w₀) (BucketsService.setVersioning guid versioning) :=
  updateBucket_touches hguid w₀ (fun _ => rfl) (fun _ => rfl) fun _ => rfl

theorem setAcl_touches (acl : BucketAcl) : Keeps (Touches N S G w₀) (BucketsService.setAcl guid acl) :=
  updateBucket_touches hguid w₀ (fun _ => rfl) (fun _ => rfl) fun _ => rfl

theorem setQuota_touches (quotaBytes : Option ℤ) :
    Keeps (Touches N S G w₀) (BucketsService.setQuota guid quotaBytes) :=
  updateBucket_touches hguid w₀ (fun _ => rfl) (fun _ => rfl) fun _ => rfl

theorem deleteCors_touches : Keeps (Touches N S G w₀) (BucketsService.deleteCors guid) :=
  updateBucket_touches hguid w₀ (fun _ => rfl) (fun _ => rfl) fun _ => rfl

theorem setCors_touches (configuration : S3Types.CorsConfiguration) :
    Keeps (Touches N S G w₀) (setCors guid configuration) :=
  .bind (.require _ _) fun _ => updateBucket_touches hguid w₀ (fun _ => rfl) (fun _ => rfl) fun _ => rfl

theorem deleteBucket_touches : Keeps (Touches N S G w₀) (BucketsService.delete N guid) :=
  .bind (fun _ h => h) fun _ => .bind (.require _ _) fun _ => fun w hw =>
    hw.trans (update_touches (f := fun b => { b with deletedAt := some (N.now w.calls) }) (fun _ => rfl)
      (fun _ => rfl) (fun _ => rfl) (Nat.le_succ _) fun _ hb _ h => hb (h ▸ hguid))

theorem setPolicy_touches (document : PoliciesTypes.PolicyDocument) :
    Keeps (Touches N S G w₀) (PoliciesService.set guid document) :=
  .bind (.require _ _) fun _ => execute_touches w₀ fun _ => upsertPolicy_touches hguid document

theorem deletePolicy_touches : Keeps (Touches N S G w₀) (PoliciesService.delete guid) :=
  execute_touches w₀ fun _ => removePolicy_touches hguid

theorem setGrant_touches {userGuid : UserGuid} {permissions : List BucketPermission}
    (hG : ∀ permission ∈ permissions, (guid, userGuid, permission) ∈ G) :
    Keeps (Touches N S G w₀) (setGrant ⟨guid, userGuid, permissions⟩) :=
  .bind (execute_touches w₀ fun _ => upsertGrant_touches hguid hG) fun _ => .orThrow _ _

theorem removeGrant_touches (userGuid : UserGuid) : Keeps (Touches N S G w₀) (removeGrant guid userGuid) :=
  execute_touches w₀ fun _ => removeGrants_touches hguid userGuid

end Operations

/-- **What is done only to buckets that are new, no bucket notices.** -/
theorem Touches.of_new {w w' : World} (h : Touches N {b | w.calls ≤ b} G w w') : Touches N S G w w' where
  calls_le := h.calls_le
  tables := h.tables
  inv := h.inv
  owners := h.owners
  elsewhere := fun hdistinct hw hinv b _ hlt => h.elsewhere hdistinct hw hinv b (not_le.mpr hlt) hlt
  granted := h.granted

/-- A bucket that is created is new. -/
theorem create_touches (name : Text) (ownerUserGuid : UserGuid) (w : World) :
    wp (BucketsService.create name ownerUserGuid)
      (fun bucket w' => Touches N {b | w.calls ≤ b} G w w' ∧ w.calls ≤ bucket.guid)
      (fun _ w' => Touches N {b | w.calls ≤ b} G w w') w := by
  rw [BucketsService.create, wp_bind, assertValidName, wp_require]
  refine ⟨fun _ => ?_, fun _ => Touches.refl w⟩
  rw [wp_bind, World.insertFor, wp_perform, wp_bind, wp_orThrow]
  have htouches : Touches N {b | w.calls ≤ b} G w
      { w with db := (insertBucket { guid := w.calls, name, ownerUserGuid } w.db).2
               calls := w.calls + 1 } := insertBucket_touches rfl
  refine ⟨fun row hrow => ⟨htouches, ?_⟩, fun _ => htouches⟩
  rw [insertBucket] at hrow
  split_ifs at hrow
  rw [← Option.some.inj hrow]
  exact le_rfl

end Configuring

/-! ## Requests -/

section Requests

variable (D : Retention.Deployment) {w : World}

/-- **The buckets on which a request is authorised.** -/
def authorisedOn (w : World) (r : Request) : Set Guid :=
  {b | ∃ row, findBucketByGuid b w.db = some row ∧ Authorised D.strings row w r}

/-- **The rights a request grants**: it is a grant, made by somebody who may manage the bucket. -/
def granting (w : World) (r : Request) : Set (Guid × UserGuid × BucketPermission) :=
  {x | ∃ bucketName permissions user row, r = .setGrant bucketName x.2.1 permissions user ∧
    x.2.2 ∈ permissions ∧ findBucketByGuid x.1 w.db = some row ∧ SignedIn row w bucketName user .manage}

/-- The program does no more than the request may. -/
def Mediated (w : World) (r : Request) {α : Type} (x : Service α) : Prop :=
  wp x (fun _ => Touches D.node (authorisedOn D w r) (granting w r) w)
    (fun _ => Touches D.node (authorisedOn D w r) (granting w r) w) w

theorem Mediated.of_keeps {r : Request} {α : Type} {x : Service α}
    (h : Keeps (Touches D.node (authorisedOn D w r) (granting w r) w) x) : Mediated D w r x := h w (Touches.refl w)

theorem Mediated.discard {r : Request} {α : Type} {x : Service α} (h : Mediated D w r x) :
    Mediated D w r (do let _ ← x) := by
  rw [Mediated, wp_bind]
  exact h

/-- What a handler of the S3 endpoint does with the bucket it has resolved. -/
theorem mediated_signed (hw : Tables w) {r : Request} {req : S3Types.ConditionValues} {name : Text}
    {identity : S3Types.RequestIdentity} {action : S3Types.Action} {key : Option Text} {α : Type}
    {f : BucketsTypes.BucketItem → Service α}
    (hr : ∀ row, Signed D.strings row w req name identity action key → Authorised D.strings row w r)
    (hf : ∀ row, row.guid ∈ authorisedOn D w r → Mediated D w r (f (toItem row))) :
    Mediated D w r (S3AuthorizationService.resolveBucket D.strings req name identity action key >>= f) := by
  rw [Mediated, wp_bind]
  refine wp_mono (S3AuthorizationService.resolveBucket_spec D.strings hw.guid req name identity action key)
    ?_ ?_
  · rintro _ _ ⟨rfl, row, hrow, rfl, hallowed⟩
    exact hf row ⟨row, findBucketByGuid_of_found hw.guid hrow,
      hr row ⟨(findBucket_eq_some hrow).2.1.symm, hallowed⟩⟩
  · rintro _ _ ⟨rfl, -⟩
    exact Touches.refl _

/-- What a handler of the management API does with the bucket it has opened. -/
theorem mediated_opened (hw : Tables w) {r : Request} {name : Text} {user : AuthTypes.Identity}
    {permission : BucketPermission} {α : Type} {f : BucketsTypes.BucketItem → Service α}
    (hf : ∀ row, findBucketByGuid row.guid w.db = some row → SignedIn row w name user permission →
      Mediated D w r (f (toItem row))) :
    Mediated D w r (getForUser name user.guid user.role permission >>= f) := by
  rw [Mediated, wp_bind]
  refine wp_mono (getForUser_permitted hw.guid name user.guid user.role permission) ?_ ?_
  · rintro _ _ ⟨rfl, row, hrow, rfl, hallowed⟩
    exact hf row (findBucketByGuid_of_found hw.guid hrow) ⟨(findBucket_eq_some hrow).2.1.symm, hallowed⟩
  · rintro _ _ ⟨rfl, -⟩
    exact Touches.refl _

theorem mediated_signedIn (hw : Tables w) {r : Request} {name : Text} {user : AuthTypes.Identity}
    {permission : BucketPermission} {α : Type} {f : BucketsTypes.BucketItem → Service α}
    (hr : ∀ row, SignedIn row w name user permission → Authorised D.strings row w r)
    (hf : ∀ row, row.guid ∈ authorisedOn D w r → Mediated D w r (f (toItem row))) :
    Mediated D w r (getForUser name user.guid user.role permission >>= f) :=
  mediated_opened D hw fun row hrow h => hf row ⟨row, hrow, hr row h⟩

theorem readRequest_keeps {inv : World → Prop} {α : Type} (x : Except Fault α) :
    Keeps inv (readRequest x) := (readRequest_readOnly x).keeps _

/-- **A request to the S3 endpoint does something only to buckets on which it is authorised.** -/
theorem s3_mediated (hw : Tables w) (r : Retention.S3Request) : Mediated D w (.s3 r) (r.program D) := by
  cases r with
  | put req identity =>
    refine Mediated.discard D (mediated_signed D hw (fun row h => h) fun row hrow => .of_keeps D ?_)
    split
    · exact .bind ((S3AuthorizationService.resolveCopySource_readOnly _ _ _ _).keeps _) fun source =>
        .bind (readRequest_keeps _) fun range => .bind
          (uploadPartCopy_keeps (fun _ => uploadPart_touches hrow w _ _ _ _ _ _) _ _) fun _ => .pure _
    · exact .bind (uploadPart_touches hrow w _ _ _ _ _ _) fun _ => .pure _
    · exact .bind ((S3AuthorizationService.resolveCopySource_readOnly _ _ _ _).keeps _) fun source =>
        .bind (copy_keeps (fun _ h => h.draw) _ (fun _ hparams _ => put_touches hrow w hparams) _ _ _)
          fun _ => .pure _
    · exact .bind (put_touches hrow w rfl) fun _ => .pure _
  | delete req identity =>
    refine Mediated.discard D ?_
    rw [S3ObjectController.delete]
    cases hupload : Query.present req.uploadId with
    | some uploadId =>
      refine mediated_signed D hw (fun row h => ?_) fun row hrow => .of_keeps D
        (.bind (abortMultipartUpload_touches hrow w _) fun _ => .pure _)
      rw [Authorised, hupload]
      exact h
    | none =>
      refine mediated_signed D hw (fun row h => ?_) fun row hrow => .of_keeps D
        (.bind (delete_touches hrow w _ _ _) fun _ => .pure _)
      rw [Authorised, hupload]
      exact h
  | post req identity =>
    refine Mediated.discard D (mediated_signed D hw (fun row h => h) fun row hrow => .of_keeps D
      (.ite ?_ ?_))
    · exact .bind (createMultipartUpload_touches hrow w _ _ _) fun _ => .pure _
    · exact .bind (.orThrow _ _) fun _ => .bind (readRequest_keeps _) fun _ =>
        .bind (completeMultipartUpload_touches hrow w _ _) fun _ => .pure _
  | createBucket req identity cannedAcl =>
    refine Mediated.discard D ?_
    rw [Mediated, S3BucketController.createBucket, wp_bind, wp_require]
    refine ⟨fun _ => ?_, fun _ => Touches.refl w⟩
    rw [wp_bind]
    refine wp_mono (ReadOnly.wp_same (.bind (World.select_readOnly _) fun _ => .pure _) w) ?_ ?_
    · intro existing w' hsame
      rw [hsame]
      cases existing with
      | some existing => exact Touches.refl w
      | none =>
        rw [wp_bind]
        refine wp_mono (create_touches _ _ _) ?_ fun _ _ h => h.of_new
        rintro created w₁ ⟨hcreated, hnew⟩
        cases cannedAcl with
        | none => exact hcreated.of_new
        | some acl =>
          rw [wp_bind]
          exact wp_mono (setAcl_touches hnew w acl w₁ hcreated) (fun _ _ h => h.of_new)
            fun _ _ h => h.of_new
    · intro _ w' hsame
      rw [hsame]
      exact Touches.refl w
  | putVersioning req identity status =>
    exact Mediated.discard D (mediated_signed D hw (fun row h => h) fun row hrow => .of_keeps D
      (.bind (readRequest_keeps _) fun _ => .bind (setVersioning_touches hrow w _) fun _ => .pure _))
  | deleteBucket req identity =>
    exact Mediated.discard D (mediated_signed D hw (fun row h => h) fun row hrow => .of_keeps D
      (.bind (deleteBucket_touches hrow w) fun _ => .pure _))
  | deleteObjects req identity objects =>
    exact Mediated.discard D (mediated_signed D hw (fun row h => h) fun row hrow => .of_keeps D
      (.bind (readRequest_keeps _) fun _ => .bind
        (deleteMany_keeps fun _ _ => delete_touches hrow w _ _ _) fun _ => .pure _))

/-- … and so does a request to the management API. -/
theorem api_mediated (hw : Tables w) (r : Retention.ApiRequest) : Mediated D w (.api r) (r.program D) := by
  cases r with
  | createBucket name user =>
    refine Mediated.discard D ?_
    exact wp_mono (create_touches _ _ _) (fun _ _ h => h.1.of_new) fun _ _ h => h.of_new
  | deleteBucket bucketName user =>
    exact mediated_signedIn D hw (fun _ h => h) fun row hrow => .of_keeps D (deleteBucket_touches hrow w)
  | setAcl bucketName acl user =>
    exact mediated_signedIn D hw (fun _ h => h) fun row hrow => .of_keeps D (setAcl_touches hrow w acl)
  | setVersioning bucketName versioning user =>
    change Mediated D w _ (BucketsController.setVersioning bucketName versioning user)
    rw [Mediated, BucketsController.setVersioning, wp_bind, wp_require]
    refine ⟨fun _ => ?_, fun _ => Touches.refl w⟩
    exact mediated_signedIn D hw (fun _ h => h) fun row hrow => .of_keeps D
      (setVersioning_touches hrow w versioning)
  | upload req user =>
    exact Mediated.discard D (mediated_signedIn D hw (fun _ h => h) fun row hrow => .of_keeps D
      (put_touches hrow w rfl))
  | delete bucketName key pre versionId user =>
    refine Mediated.discard D ?_
    rw [Mediated, ObjectsController.delete, wp_bind, wp_require]
    refine ⟨fun _ => ?_, fun _ => Touches.refl w⟩
    refine mediated_signedIn D hw (fun _ h => h) fun row hrow => .of_keeps D ?_
    cases Query.present pre with
    | some pre =>
      exact .bind (deleteByPrefix_keeps (fun key => delete_touches hrow w _ _ _) _) fun _ => .pure _
    | none => exact .bind (delete_touches hrow w _ _ _) fun _ => .pure _
  | createFolder bucketName key user =>
    exact Mediated.discard D (mediated_signedIn D hw (fun _ h => h) fun row hrow => .of_keeps D
      (createFolder_keeps (fun _ hparams => put_touches hrow w hparams) _ _))
  | copy req user =>
    refine Mediated.discard D (mediated_opened D hw fun source hsource hread =>
      mediated_signedIn D hw (fun _ h => .inl h) fun target htarget => .of_keeps D ?_)
    have hmoved : req.move = true → source.guid ∈ authorisedOn D w (.api (.copy req user)) := by
      intro hmove
      rw [hmove] at hread
      exact ⟨source, hsource, .inr ⟨hmove, hread⟩⟩
    exact copyKeys_touches htarget hmoved w _ _ _

/-- **A request does something only to buckets on which it is authorised.** -/
theorem request_mediated (hw : Tables w) (r : Request) : Mediated D w r (r.program D) := by
  cases r with
  | s3 r => exact s3_mediated D hw r
  | api r => exact api_mediated D hw r
  | putAcl req identity cannedAcl acl =>
    refine Mediated.discard D (mediated_signed D hw (fun row h => h) fun row hrow => .of_keeps D
      (.bind (readRequest_keeps _) fun cannedAcl => ?_))
    cases cannedAcl with
    | some acl => exact .bind (.pure acl) fun _ => .bind (setAcl_touches hrow w _) fun _ => .pure _
    | none =>
      exact .bind (readRequest_keeps _) fun _ => .bind (setAcl_touches hrow w _) fun _ => .pure _
  | putPolicy req identity document =>
    exact Mediated.discard D (mediated_signed D hw (fun row h => h) fun row hrow => .of_keeps D
      (.bind (readRequest_keeps _) fun _ => .bind (setPolicy_touches hrow w _) fun _ => .pure _))
  | deletePolicy req identity =>
    exact Mediated.discard D (mediated_signed D hw (fun row h => h) fun row hrow => .of_keeps D
      (.bind (deletePolicy_touches hrow w) fun _ => .pure _))
  | putCors req identity configuration =>
    exact Mediated.discard D (mediated_signed D hw (fun row h => h) fun row hrow => .of_keeps D
      (.bind (readRequest_keeps _) fun _ => .bind (setCors_touches hrow w _) fun _ => .pure _))
  | deleteCors req identity =>
    exact Mediated.discard D (mediated_signed D hw (fun row h => h) fun row hrow => .of_keeps D
      (.bind (deleteCors_touches hrow w) fun _ => .pure _))
  | setQuota bucketName quotaBytes user =>
    rw [Mediated, Request.program, wp_ite]
    split_ifs with hadmin
    · refine wp_getByName (Touches.refl w) fun row hrow => ?_
      have htouched : row.guid ∈ authorisedOn D w (.setQuota bucketName quotaBytes user) :=
        ⟨row, findBucketByGuid_of_found hw.guid hrow, (findBucket_eq_some hrow).2.1.symm, hadmin⟩
      exact setQuota_touches htouched w quotaBytes w (Touches.refl w)
    · exact Touches.refl w
  | setGrant bucketName userGuid permissions user =>
    refine mediated_opened D hw fun row hrow h => .of_keeps D ?_
    have htouched : row.guid ∈ authorisedOn D w (.setGrant bucketName userGuid permissions user) :=
      ⟨row, hrow, h⟩
    exact setGrant_touches htouched w fun permission hmem =>
      ⟨bucketName, permissions, user, row, rfl, hmem, hrow, h⟩
  | removeGrant bucketName userGuid user =>
    exact mediated_signedIn D hw (fun _ h => h) fun row hrow => .of_keeps D
      (removeGrant_touches hrow w userGuid)
  | setPolicy bucketName document user =>
    exact mediated_signedIn D hw (fun _ h => h) fun row hrow => .of_keeps D
      (setPolicy_touches hrow w document)
  | removePolicy bucketName user =>
    exact mediated_signedIn D hw (fun _ h => h) fun row hrow => .of_keeps D (deletePolicy_touches hrow w)

theorem request_touches (hw : Tables w) (r : Request) :
    Touches D.node (authorisedOn D w r) (granting w r) w (stateAfter (r.program D) w) :=
  stateAfter_of_wp (request_mediated D hw r)

end Requests

/-! ## Runs -/

/-- A deployment without buckets and grants. -/
structure Pristine (w : World) : Prop where
  empty : Empty w.db
  buckets : w.db.buckets = []
  bucketAccess : w.db.bucketAccess = []

theorem Pristine.tables {w : World} (h : Pristine w) : Tables w where
  toIntegrity := Integrity.of_empty h.empty (by simp [h.buckets])
  toBucketKeys := by constructor <;> simp [h.buckets, h.bucketAccess]

section Runs

variable (D : Retention.Deployment) {w : World}

theorem runAll_tables (hw : Tables w) (requests : List Request) :
    Tables (runAll (Request.program D) requests w) :=
  runAll_keeps _ (fun r _ s (hs : Tables s) => (request_touches D hs r).tables hs) hw

theorem runAll_calls_le (hw : Tables w) (requests : List Request) :
    w.calls ≤ (runAll (Request.program D) requests w).calls := by
  have hkept : Tables (runAll (Request.program D) requests w) ∧
      w.calls ≤ (runAll (Request.program D) requests w).calls :=
    runAll_keeps _ (fun r _ s (hs : Tables s ∧ w.calls ≤ s.calls) =>
      have htouches := request_touches D hs.1 r
      ⟨htouches.tables hs.1, hs.2.trans htouches.calls_le⟩) ⟨hw, le_rfl⟩
  exact hkept.2

theorem runAll_inv_of_distinct (hw : Tables w) (hinv : Inv D.node w) (requests : List Request)
    (hdistinct : D.node.Distinct ((runAll (Request.program D) requests w).calls + callsPerRequest)) :
    Inv D.node (runAll (Request.program D) requests w) := by
  induction requests generalizing w with
  | nil => exact hinv
  | cons r requests ih =>
    have htouches := request_touches D hw r
    have hcalls := runAll_calls_le D (htouches.tables hw) requests
    refine ih (htouches.tables hw) (htouches.inv (hdistinct.mono ?_) hinv) hdistinct
    exact Nat.add_le_add_right hcalls _

end Runs

/-! ## A bucket somebody else would open up -/

def nobody : World := { db := {}, encryption := ⟨false, []⟩ }

def someone : AuthTypes.Identity := ⟨"user-2".toList, [], .user⟩

/-- A bucket is created. -/
def diaryKept : List Request := [.api (.createBucket Retention.diary.name Retention.writer)]

/-- Somebody else tries to open it to the public, and then its owner does. -/
def openedUp : List Request :=
  [.api (.setAcl Retention.diary.name .publicReadWrite someone),
    .api (.setAcl Retention.diary.name .publicRead Retention.writer)]

end Access
end SimpleStorage
