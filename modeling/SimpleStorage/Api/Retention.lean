import SimpleStorage.Api.Controllers
import SimpleStorage.Gc.GcService
import SimpleStorage.Objects.Retention

/-!
# Versioned data is kept

`disabled` is where the versioning of a bucket starts and what no request can ask for, so it is
left once and for all.  Together with what the operations keep this says what becomes of the
versions in a deployment that answers requests of both endpoints and sweeps in between.

* `Configured` is what the requests about buckets keep, `collect_retains` what a sweep keeps.
* `request_outcome`: every request does only what it may.
* `retained`: what holds in a run of requests that begins with new buckets.
-/

namespace SimpleStorage
namespace Retention

open ObjectsService ObjectsTypes Program Statements

variable {N : Node}

/-! ## Configuring buckets -/

/-- **What becomes of buckets that are created and configured**: their objects and versions stay, and
no bucket goes back to `disabled`. -/
structure Configured (w w' : World) : Prop where
  sound : Sound w'
  objects : w'.db.objects = w.db.objects
  objectVersions : w'.db.objectVersions = w.db.objectVersions
  versioning : ∀ b ∈ w.db.buckets, b.versioning ≠ .disabled →
    ∃ b' ∈ w'.db.buckets, b'.guid = b.guid ∧ b'.versioning ≠ .disabled

theorem Configured.refl {w : World} (hw : Sound w) : Configured w w :=
  ⟨hw, rfl, rfl, fun b hb h => ⟨b, hb, rfl, h⟩⟩

section Configuring

variable {w₀ : World}

theorem Configured.tick {w : World} (hw : Configured w₀ w) :
    Configured w₀ { w with calls := w.calls + 1 } where
  sound := ⟨hw.sound.toIntegrity.congr rfl (Nat.le_succ _),
    hw.sound.versions.congr (List.Sublist.refl _) (Nat.le_succ _),
    fun b hb => (hw.sound.bucket_lt b hb).trans (Nat.lt_succ_self _), hw.sound.object_bucket,
    hw.sound.unversioned⟩
  objects := hw.objects
  objectVersions := hw.objectVersions
  versioning := hw.versioning

/-- A bucket may be changed, as long as it does not go back to `disabled`. -/
theorem Configured.update {w : World} (hw : Configured w₀ w) {f : BucketRow → BucketRow}
    (hguid : ∀ b, (f b).guid = b.guid)
    (hversioning : ∀ b, (f b).versioning = .disabled → b.versioning = .disabled) (guid : Guid) :
    Configured w₀ { w with db := BucketsService.updateBucket guid f w.db } := by
  have hback : ∀ b' ∈ (BucketsService.updateBucket guid f w.db).buckets, ∃ b ∈ w.db.buckets,
      b.guid = b'.guid ∧ (b'.versioning = .disabled → b.versioning = .disabled) := by
    intro b' hb'
    obtain ⟨b, hb, rfl⟩ := List.mem_map.mp hb'
    refine ⟨b, hb, ?_⟩
    split_ifs
    · exact ⟨(hguid b).symm, hversioning b⟩
    · exact ⟨rfl, id⟩
  have hforth : ∀ b ∈ w.db.buckets, ∃ b' ∈ (BucketsService.updateBucket guid f w.db).buckets,
      b'.guid = b.guid ∧ (b'.versioning = .disabled → b.versioning = .disabled) := by
    intro b hb
    refine ⟨_, List.mem_map_of_mem hb, ?_⟩
    split_ifs
    · exact ⟨hguid b, hversioning b⟩
    · exact ⟨rfl, id⟩
  have hguids : (BucketsService.updateBucket guid f w.db).buckets.map (·.guid) =
      w.db.buckets.map (·.guid) := by
    rw [BucketsService.updateBucket, List.map_map]
    refine List.map_congr_left fun b _ => ?_
    rw [Function.comp_apply]
    split_ifs
    · exact hguid b
    · rfl
  refine ⟨?_, hw.objects, hw.objectVersions, fun b hb hne => ?_⟩
  · refine ⟨⟨?_, hw.sound.object_guid, hw.sound.upload_guid, hw.sound.part_number,
      hw.sound.version_object, hw.sound.object_lt, hw.sound.upload_lt⟩,
      hw.sound.versions.congr (List.Sublist.refl _) le_rfl,
      fun b' hb' => ?_, fun o ho => ?_, fun b' hb' hdisabled o ho hbucket => ?_⟩
    · change ((BucketsService.updateBucket guid f w.db).buckets.map (·.guid)).Nodup
      rw [hguids]
      exact hw.sound.bucket_guid
    · obtain ⟨b, hb, hsame, -⟩ := hback b' hb'
      exact hsame ▸ hw.sound.bucket_lt b hb
    · obtain ⟨b, hb, hsame⟩ := hw.sound.object_bucket o ho
      obtain ⟨b', hb', hguid', -⟩ := hforth b hb
      exact ⟨b', hb', hguid'.trans hsame⟩
    · obtain ⟨b, hb, hsame, hwas⟩ := hback b' hb'
      exact hw.sound.unversioned b hb (hwas hdisabled) o ho (hbucket.trans hsame.symm)
  · obtain ⟨b₁, hb₁, hguid₁, hne₁⟩ := hw.versioning b hb hne
    obtain ⟨b', hb', hguid', hwas⟩ := hforth b₁ hb₁
    exact ⟨b', hb', hguid'.trans hguid₁, fun h => hne₁ (hwas h)⟩

/-- **A new bucket is empty.** -/
theorem Configured.insert {w : World} (hw : Configured w₀ w) {row : BucketRow}
    (hguid : row.guid = w.calls) :
    Configured w₀ { w with db := (BucketsService.insertBucket row w.db).2, calls := w.calls + 1 } := by
  rw [BucketsService.insertBucket]
  split_ifs
  · exact hw.tick
  · refine ⟨?_, hw.objects, hw.objectVersions, fun b hb hne => ?_⟩
    · refine ⟨⟨?_, hw.sound.object_guid, hw.sound.upload_guid, hw.sound.part_number,
        hw.sound.version_object, fun o ho => (hw.sound.object_lt o ho).trans (Nat.lt_succ_self _),
        fun u hu => (hw.sound.upload_lt u hu).trans (Nat.lt_succ_self _)⟩,
        hw.sound.versions.congr (List.Sublist.refl _) (Nat.le_succ _), fun b hb => ?_,
        fun o ho => ?_, fun b hb hdisabled o ho hbucket => ?_⟩
      · exact nodup_map_append_singleton hw.sound.bucket_guid
          fun b hb => hguid ▸ (hw.sound.bucket_lt b hb).ne
      · rcases List.mem_append.mp hb with hb | hb
        · exact (hw.sound.bucket_lt b hb).trans (Nat.lt_succ_self _)
        · rw [List.mem_singleton.mp hb, hguid]
          exact Nat.lt_succ_self w.calls
      · obtain ⟨b, hb, hsame⟩ := hw.sound.object_bucket o ho
        exact ⟨b, List.mem_append_left _ hb, hsame⟩
      · rcases List.mem_append.mp hb with hb | hb
        · exact hw.sound.unversioned b hb hdisabled o ho hbucket
        · -- No key belongs to a bucket that was not there.
          obtain ⟨b', hb', hsame⟩ := hw.sound.object_bucket o ho
          rw [List.mem_singleton.mp hb, hguid, ← hsame] at hbucket
          exact absurd hbucket (hw.sound.bucket_lt b' hb').ne
    · obtain ⟨b', hb', hguid', hne'⟩ := hw.versioning b hb hne
      exact ⟨b', List.mem_append_left _ hb', hguid', hne'⟩

theorem setVersioning_configured (guid : Guid) {versioning : BucketVersioning}
    (h : versioning ≠ .disabled) :
    Keeps (Configured w₀) (BucketsService.setVersioning guid versioning) := fun _ hw =>
  hw.update (f := fun b => { b with versioning }) (fun _ => rfl) (fun _ hback => absurd hback h) guid

theorem setAcl_configured (guid : Guid) (acl : BucketAcl) :
    Keeps (Configured w₀) (BucketsService.setAcl guid acl) := fun _ hw =>
  hw.update (f := fun b => { b with acl }) (fun _ => rfl) (fun _ hdisabled => hdisabled) guid

theorem create_configured (name : Text) (ownerUserGuid : UserGuid) :
    Keeps (Configured w₀) (BucketsService.create name ownerUserGuid) :=
  .bind (.require _ _) fun _ => .bind (fun _ hw => hw.insert rfl) fun _ =>
    .bind (.orThrow _ _) fun _ => .pure _

/-- A bucket that is deleted keeps its row. -/
theorem delete_configured (guid : Guid) : Keeps (Configured w₀) (BucketsService.delete N guid) :=
  .bind (fun _ hw => hw) fun _ => .bind (.require _ _) fun _ => fun w hw =>
    (hw.update (f := fun b => { b with deletedAt := some (N.now w.calls) }) (fun _ => rfl)
      (fun _ hdisabled => hdisabled) guid).tick

end Configuring

/-! ## The collector -/

section Collector

variable {named : Guid → Text → Text → Prop} {w₀ : World} {config : GcTypes.Config}

theorem sweepBlob_retains (referenced : List Text) (youngerThan : ℤ) (result : GcTypes.Sweep)
    (blob : StorageTypes.BlobEntry) :
    Retains named w₀ (GcService.sweepBlob referenced youngerThan result blob) :=
  .ite (.pure _) (.ite (.pure _) (.bind (fun _ hw => hw.quiet rfl le_rfl) fun _ => .pure _))

theorem listBlobs_retains {γ : Type} {f : γ → StorageTypes.BlobEntry → Service γ}
    (hf : ∀ acc blob, Retains named w₀ (f acc blob)) (acc : γ) :
    Retains named w₀ (StorageService.listBlobs f acc) := by
  have hvisit : ∀ acc storagePath, Retains named w₀ (StorageService.visitBlob f acc storagePath) := by
    intro acc storagePath
    refine .bind ((ReadOnly.query _).keeps _) fun stat => ?_
    cases stat with
    | none => exact .pure _
    | some blob => exact hf _ _
  refine .bind ((ReadOnly.query _).keeps _) fun firsts => .foldlM (fun acc first => ?_) acc firsts
  refine .bind ((ReadOnly.query _).keeps _) fun seconds => .foldlM (fun acc second => ?_) acc seconds
  exact .bind ((ReadOnly.query _).keeps _) fun names => .foldlM (fun acc name => hvisit _ _) acc names

/-- **The collector drops no version.** -/
theorem collect_retains : Retains named w₀ (GcService.collect N config) := by
  have habort : Retains named w₀ (GcService.abortAbandonedUploads N config) :=
    .bind (fun _ hw => draw_retained hw) fun _ => .bind ((World.select_readOnly _).keeps _) fun _ =>
      .foldlM (fun _ _ => .tryCatch (.bind (abortMultipartUpload_retains _ _) fun _ => .pure _)
        fun _ => .pure _) _ _
  refine .bind (fun _ hw => draw_retained hw) fun _ => .bind habort fun _ => .bind ?_ fun _ =>
    .bind (fun _ hw => draw_retained hw) fun _ => .pure _
  refine .bind (.bind ((ReadOnly.observe _ _).keeps _) fun _ =>
    .bind ((World.select_readOnly _).keeps _) fun _ => .pure _) fun _ => ?_
  exact .bind (fun _ hw => draw_retained hw) fun _ => listBlobs_retains (sweepBlob_retains _ _) _

end Collector

/-! ## Requests -/

/-- What a deployment is configured with. -/
structure Deployment where
  strings : Strings
  node : Node
  maxSingleUploadBytes : ℕ
  maxUploadBytes : ℕ
  gc : GcTypes.Config

/-- A request to the S3 endpoint that may write. -/
inductive S3Request where
  | put (req : S3Types.ObjectRequest) (identity : S3Types.RequestIdentity)
  | delete (req : S3Types.ObjectRequest) (identity : S3Types.RequestIdentity)
  | post (req : S3Types.ObjectRequest) (identity : S3Types.RequestIdentity)
  | createBucket (req : S3Types.BucketRequest) (identity : S3Types.RequestIdentity)
      (cannedAcl : Option BucketAcl)
  | putVersioning (req : S3Types.BucketRequest) (identity : S3Types.RequestIdentity)
      (status : Except Fault S3BucketController.VersioningStatus)
  | deleteBucket (req : S3Types.BucketRequest) (identity : S3Types.RequestIdentity)
  | deleteObjects (req : S3Types.BucketRequest) (identity : S3Types.RequestIdentity)
      (objects : Except Fault (List DeleteEntry))

/-- A request to the management API that may write. -/
inductive ApiRequest where
  | createBucket (name : Text) (user : AuthTypes.Identity)
  | deleteBucket (bucketName : Text) (user : AuthTypes.Identity)
  | setAcl (bucketName : Text) (acl : BucketAcl) (user : AuthTypes.Identity)
  | setVersioning (bucketName : Text) (versioning : BucketVersioning) (user : AuthTypes.Identity)
  | upload (req : ObjectsController.UploadRequest) (user : AuthTypes.Identity)
  | delete (bucketName : Text) (key pre versionId : Option Text) (user : AuthTypes.Identity)
  | createFolder (bucketName key : Text) (user : AuthTypes.Identity)
  | copy (req : ObjectsController.CopyRequest) (user : AuthTypes.Identity)

inductive Request where
  | s3 (r : S3Request)
  | api (r : ApiRequest)
  | collect

section Programs

variable (D : Deployment)

def S3Request.program : S3Request → Service Unit
  | .put req identity => do
      let _ ← S3ObjectController.put D.strings D.node D.maxSingleUploadBytes req identity
  | .delete req identity => do let _ ← S3ObjectController.delete D.strings D.node req identity
  | .post req identity => do let _ ← S3ObjectController.post D.strings D.node req identity
  | .createBucket req identity cannedAcl => do
      let _ ← S3BucketController.createBucket req identity cannedAcl
  | .putVersioning req identity status => do
      let _ ← S3BucketController.putVersioning D.strings req identity status
  | .deleteBucket req identity => do let _ ← S3BucketController.delete D.strings D.node req identity
  | .deleteObjects req identity objects => do
      let _ ← S3BucketController.post D.strings D.node req identity objects

def ApiRequest.program : ApiRequest → Service Unit
  | .createBucket name user => do let _ ← BucketsController.create name user
  | .deleteBucket bucketName user => BucketsController.delete D.node bucketName user
  | .setAcl bucketName acl user => BucketsController.setAcl bucketName acl user
  | .setVersioning bucketName versioning user =>
      BucketsController.setVersioning bucketName versioning user
  | .upload req user => do let _ ← ObjectsController.upload D.node D.maxUploadBytes req user
  | .delete bucketName key pre versionId user => do
      let _ ← ObjectsController.delete D.node bucketName key pre versionId user
  | .createFolder bucketName key user => do
      let _ ← ObjectsController.createFolder D.node bucketName key user
  | .copy req user => do let _ ← ObjectsController.copy D.node req user

def Request.program : Request → Service Unit
  | .s3 r => r.program D
  | .api r => r.program D
  | .collect => do let _ ← GcService.collect D.node D.gc

end Programs

/-- **The deletes a request asks for**: the bucket, and each key with the version id, if one is
named. -/
def Request.deletes : Request → Option (Text × List DeleteEntry)
  | .s3 (.delete req _) =>
      if (Query.present req.uploadId).isSome then none
      else some (req.bucket, [⟨req.key, req.versionId⟩])
  | .s3 (.deleteObjects req _ (.ok entries)) => some (req.bucket, entries)
  | .api (.delete bucketName key pre versionId _) =>
      if (Query.present pre).isSome then none
      else some (bucketName, [⟨key.getD [], versionId⟩])
  | _ => none

/-- The request asks for the delete of that version of that key. -/
def Names (w : World) (r : Request) (bucketGuid : Guid) (key versionId : Text) : Prop :=
  ∃ bucketName entries row, r.deletes = some (bucketName, entries) ∧
    BucketsService.findBucket bucketName w.db = some row ∧ row.guid = bucketGuid ∧
    ⟨key, some versionId⟩ ∈ entries

section Handlers

variable {w₀ : World} {r : Request} {α : Type}

/-- **What a handler does with the bucket it has resolved**: the bucket is the one that has the name,
and nothing changes it meanwhile. -/
theorem resolved_retains {name : Text} {x : Service BucketsTypes.BucketItem}
    (hx : ∀ w, Sound w → wp x (fun bucket w' => w' = w ∧ ∃ row,
      BucketsService.findBucket name w.db = some row ∧ bucket = BucketsService.toItem row)
      (fun _ w' => w' = w) w)
    {named : Guid → Text → Text → Prop} {f : BucketsTypes.BucketItem → Service α}
    (hf : ∀ row, BucketsService.findBucket name w₀.db = some row →
      Listed w₀ (BucketsService.toItem row).toBucketContext →
        Retains named w₀ (f (BucketsService.toItem row))) : Retains named w₀ (x >>= f) := by
  intro w hw
  rw [wp_bind]
  refine wp_mono (hx w hw.sound) ?_ ?_
  · rintro _ _ ⟨rfl, row, hrow, rfl⟩
    rw [BucketsService.findBucket, hw.since.buckets] at hrow
    exact hf row hrow ⟨row, List.mem_of_find?_eq_some hrow, rfl, rfl⟩ _ hw
  · rintro _ _ rfl
    exact hw

theorem resolveBucket_resolves (J : Strings) (req : Option S3Types.ConditionValues) (name : Text)
    (identity : S3Types.RequestIdentity) (action : S3Types.Action) (key : Option Text) (w : World)
    (hw : Sound w) :
    wp (S3AuthorizationService.resolveBucket J req name identity action key)
      (fun bucket w' => w' = w ∧ ∃ row, BucketsService.findBucket name w.db = some row ∧
        bucket = BucketsService.toItem row) (fun _ w' => w' = w) w :=
  wp_mono (S3AuthorizationService.resolveBucket_spec J hw.bucket_guid req name identity action key)
    (fun _ _ ⟨hsame, row, hrow, hbucket, _⟩ => ⟨hsame, row, hrow, hbucket⟩) fun _ _ h => h.1

theorem readRequest_retains {β : Type} {named : Guid → Text → Text → Prop} {x : Except Fault β}
    {f : β → Service α} (hf : ∀ b, x = .ok b → Retains named w₀ (f b)) :
    Retains named w₀ (readRequest x >>= f) := by
  intro w hw
  rw [wp_bind]
  cases x with
  | ok b => exact hf b rfl w hw
  | error e => exact hw

variable (D : Deployment)

theorem s3Put_retains {named : Guid → Text → Text → Prop} (req : S3Types.ObjectRequest)
    (identity : S3Types.RequestIdentity) :
    Retains named w₀ (S3ObjectController.put D.strings D.node D.maxSingleUploadBytes req identity) := by
  refine resolved_retains (resolveBucket_resolves _ _ _ _ _ _) fun row hrow hlisted => ?_
  split
  · refine .bind ((S3AuthorizationService.resolveCopySource_readOnly _ _ _ _).keeps _) fun source =>
      readRequest_retains fun range _ => .bind ?_ fun _ => .pure _
    exact uploadPartCopy_keeps (fun _ => uploadPart_retains _ _ _ _ _ _ _) _ _
  · exact .bind (uploadPart_retains _ _ _ _ _ _ _) fun _ => .pure _
  · refine .bind ((S3AuthorizationService.resolveCopySource_readOnly _ _ _ _).keeps _) fun source =>
      .bind ?_ fun _ => .pure _
    exact copy_keeps (fun _ hw => draw_retained hw) _
      (fun params hbucket _ => put_retains (hbucket ▸ hlisted)) _ _ _
  · exact .bind (put_retains hlisted) fun _ => .pure _

theorem s3Delete_retains (req : S3Types.ObjectRequest) (identity : S3Types.RequestIdentity) :
    Retains (Names w₀ (.s3 (.delete req identity))) w₀
      (S3ObjectController.delete D.strings D.node req identity) := by
  rw [S3ObjectController.delete]
  cases hupload : Query.present req.uploadId with
  | some uploadId =>
    exact resolved_retains (resolveBucket_resolves _ _ _ _ _ _) fun row hrow hlisted =>
      .bind (abortMultipartUpload_retains _ _) fun _ => .pure _
  | none =>
    refine resolved_retains (resolveBucket_resolves _ _ _ _ _ _) fun row hrow hlisted =>
      .bind (delete_retains hlisted req.key (fun i hi => ?_) _) fun _ => .pure _
    refine ⟨req.bucket, [⟨req.key, req.versionId⟩], row, ?_, hrow, rfl, ?_⟩
    · rw [Request.deletes, hupload]
      rfl
    · rw [(Query.present_eq_some_iff.mp hi).1]
      exact List.mem_singleton_self _

theorem s3Post_retains {named : Guid → Text → Text → Prop} (req : S3Types.ObjectRequest)
    (identity : S3Types.RequestIdentity) :
    Retains named w₀ (S3ObjectController.post D.strings D.node req identity) := by
  refine resolved_retains (resolveBucket_resolves _ _ _ _ _ _) fun row hrow hlisted => .ite ?_ ?_
  · exact .bind (createMultipartUpload_retains _ _ _ _) fun _ => .pure _
  · exact .bind (.orThrow _ _) fun _ => readRequest_retains fun _ _ =>
      .bind (complete_retains hlisted _ _) fun _ => .pure _

theorem s3DeleteObjects_retains (req : S3Types.BucketRequest) (identity : S3Types.RequestIdentity)
    (objects : Except Fault (List DeleteEntry)) :
    Retains (Names w₀ (.s3 (.deleteObjects req identity objects))) w₀
      (S3BucketController.post D.strings D.node req identity objects) := by
  refine resolved_retains (resolveBucket_resolves _ _ _ _ _ _) fun row hrow hlisted =>
    readRequest_retains fun entries hentries => .bind (deleteMany_keeps fun entry hentry => ?_)
      fun _ => .pure _
  refine delete_retains hlisted entry.key (fun i hi => ?_) _
  refine ⟨req.bucket, entries, row, by rw [hentries]; rfl, hrow, rfl, ?_⟩
  rw [← (Query.present_eq_some_iff.mp hi).1]
  exact hentry

theorem getForUser_resolves (name : Text) (user : AuthTypes.Identity) (permission : BucketPermission)
    (w : World) (_hw : Sound w) :
    wp (BucketsService.getForUser name user.guid user.role permission)
      (fun bucket w' => w' = w ∧ ∃ row, BucketsService.findBucket name w.db = some row ∧
        bucket = BucketsService.toItem row) (fun _ w' => w' = w) w :=
  BucketsService.getForUser_spec name user.guid user.role permission w

theorem apiUpload_retains {named : Guid → Text → Text → Prop} (req : ObjectsController.UploadRequest)
    (user : AuthTypes.Identity) :
    Retains named w₀ (ObjectsController.upload D.node D.maxUploadBytes req user) :=
  resolved_retains (getForUser_resolves _ _ _) fun _ _ hlisted => put_retains hlisted

theorem apiDelete_retains (bucketName : Text) (key pre versionId : Option Text)
    (user : AuthTypes.Identity) :
    Retains (Names w₀ (.api (.delete bucketName key pre versionId user))) w₀
      (ObjectsController.delete D.node bucketName key pre versionId user) := by
  refine .bind (.require _ _) fun _ =>
    resolved_retains (getForUser_resolves _ _ _) fun row hrow hlisted => ?_
  cases hpre : Query.present pre with
  | some pre =>
    exact .bind (deleteByPrefix_keeps (fun key => delete_retains hlisted key nofun _) _)
      fun _ => .pure _
  | none =>
    refine .bind (delete_retains hlisted _ (fun i hi => ?_) _) fun _ => .pure _
    refine ⟨bucketName, [⟨key.getD [], versionId⟩], row, ?_, hrow, rfl, ?_⟩
    · rw [Request.deletes, hpre]
      rfl
    · rw [(Query.present_eq_some_iff.mp hi).1]
      exact List.mem_singleton_self _

theorem apiCreateFolder_retains {named : Guid → Text → Text → Prop} (bucketName key : Text)
    (user : AuthTypes.Identity) :
    Retains named w₀ (ObjectsController.createFolder D.node bucketName key user) :=
  resolved_retains (getForUser_resolves _ _ _) fun _ _ hlisted =>
    createFolder_keeps (fun _ hbucket => put_retains (hbucket ▸ hlisted)) _ _

theorem apiCopy_retains {named : Guid → Text → Text → Prop} (req : ObjectsController.CopyRequest)
    (user : AuthTypes.Identity) : Retains named w₀ (ObjectsController.copy D.node req user) :=
  resolved_retains (getForUser_resolves _ _ _) fun _ _ hsource =>
    resolved_retains (getForUser_resolves _ _ _) fun _ _ htarget =>
      copyKeys_keeps (fun _ hw => draw_retained hw)
        (fun _ hbucket => put_retains (hbucket ▸ htarget))
        (fun key => delete_retains hsource key nofun _) _ _ _

end Handlers

/-! ## Runs -/

/-- **What a request may do**: no bucket goes back to `disabled`, and of the versions with an id of
their own only those are gone that it asks to delete. -/
structure Outcome (r : Request) (w w' : World) : Prop where
  sound : Sound w'
  versioning : ∀ b ∈ w.db.buckets, b.versioning ≠ .disabled →
    ∃ b' ∈ w'.db.buckets, b'.guid = b.guid ∧ b'.versioning ≠ .disabled
  kept : ∀ v ∈ w.db.objectVersions, v.versionId ≠ nullVersionId → v ∈ w'.db.objectVersions ∨
    ∃ o ∈ w.db.objects, o.guid = v.objectGuid ∧ Names w r o.bucketGuid o.key v.versionId

theorem Retained.outcome {r : Request} {w w' : World} (h : Retained (Names w r) w w') :
    Outcome r w w' where
  sound := h.sound
  versioning := fun b hb hne => ⟨b, h.since.buckets ▸ hb, rfl, hne⟩
  kept := h.since.kept

theorem Configured.outcome {r : Request} {w w' : World} (h : Configured w w') : Outcome r w w' where
  sound := h.sound
  versioning := h.versioning
  kept := fun _ hv _ => Or.inl (h.objectVersions ▸ hv)

section Runs

variable (D : Deployment)

theorem retains_outcome {r : Request} {w : World} (hw : Sound w)
    (h : Retains (Names w r) w (r.program D)) : Outcome r w (stateAfter (r.program D) w) :=
  (h.stateAfter (Retained.refl _ hw)).outcome

theorem configured_outcome {r : Request} {w : World} (hw : Sound w)
    (h : Keeps (Configured w) (r.program D)) : Outcome r w (stateAfter (r.program D) w) :=
  (h.stateAfter (Configured.refl hw)).outcome

/-- **Every request does only what it may.** -/
theorem request_outcome (r : Request) {w : World} (hw : Sound w) :
    Outcome r w (stateAfter (r.program D) w) := by
  cases r with
  | s3 r =>
    cases r with
    | put req identity => exact retains_outcome D hw (.bind (s3Put_retains D _ _) fun _ => .pure _)
    | delete req identity => exact retains_outcome D hw (.bind (s3Delete_retains D _ _) fun _ => .pure _)
    | post req identity => exact retains_outcome D hw (.bind (s3Post_retains D _ _) fun _ => .pure _)
    | createBucket req identity cannedAcl =>
      refine configured_outcome D hw (.bind (.bind (.require _ _) fun _ => .bind ?_ fun existing => ?_)
        fun _ => .pure _)
      · exact .bind ((World.select_readOnly _).keeps _) fun _ => .pure _
      · cases existing with
        | some existing => exact .throw _
        | none =>
          refine .bind (create_configured _ _) fun created => ?_
          cases cannedAcl with
          | some acl => exact .bind (setAcl_configured _ _) fun _ => .pure _
          | none => exact .bind (.pure _) fun _ => .pure _
    | putVersioning req identity status =>
      refine configured_outcome D hw (.bind (.bind
        ((S3AuthorizationService.resolveBucket_readOnly _ _ _ _ _ _).keeps _) fun _ => .bind ?_
          fun status => .bind (setVersioning_configured _ ?_) fun _ => .pure _) fun _ => .pure _)
      · cases status with
        | ok status => exact .pure _
        | error e => exact .throw _
      · cases status <;> nofun
    | deleteBucket req identity =>
      exact configured_outcome D hw (.bind (.bind
        ((S3AuthorizationService.resolveBucket_readOnly _ _ _ _ _ _).keeps _) fun _ =>
          .bind (delete_configured _) fun _ => .pure _) fun _ => .pure _)
    | deleteObjects req identity objects =>
      exact retains_outcome D hw (.bind (s3DeleteObjects_retains D _ _ _) fun _ => .pure _)
  | api r =>
    have hget : ∀ name (user : AuthTypes.Identity) permission, Keeps (Configured w)
        (BucketsService.getForUser name user.guid user.role permission) := fun name user permission =>
      .bind (.bind ((World.select_readOnly _).keeps _) fun _ => .bind (.orThrow _ _) fun _ => .pure _)
        fun _ => .bind ((BucketsService.hasPermission_readOnly _ _ _ _).keeps _) fun _ =>
          .bind (.require _ _) fun _ => .pure _
    cases r with
    | createBucket name user =>
      exact configured_outcome D hw (.bind (create_configured _ _) fun _ => .pure _)
    | deleteBucket bucketName user =>
      exact configured_outcome D hw (.bind (hget _ _ _) fun _ => delete_configured _)
    | setAcl bucketName acl user =>
      exact configured_outcome D hw (.bind (hget _ _ _) fun _ => setAcl_configured _ _)
    | setVersioning bucketName versioning user =>
      refine configured_outcome D hw fun w' hw' => ?_
      change wp (BucketsController.setVersioning bucketName versioning user) _ _ w'
      rw [BucketsController.setVersioning, wp_bind, wp_require]
      exact ⟨fun h => Keeps.bind (hget _ _ _) (fun _ => setVersioning_configured _ h) w' hw',
        fun _ => hw'⟩
    | upload req user => exact retains_outcome D hw (.bind (apiUpload_retains D _ _) fun _ => .pure _)
    | delete bucketName key pre versionId user =>
      exact retains_outcome D hw (.bind (apiDelete_retains D _ _ _ _ _) fun _ => .pure _)
    | createFolder bucketName key user =>
      exact retains_outcome D hw (.bind (apiCreateFolder_retains D _ _ _) fun _ => .pure _)
    | copy req user => exact retains_outcome D hw (.bind (apiCopy_retains D _ _) fun _ => .pure _)
  | collect => exact retains_outcome D hw (.bind collect_retains fun _ => .pure _)

/-- Nothing is there but buckets that were just created. -/
structure NewlyCreated (w : World) : Prop where
  bucket_guid : (w.db.buckets.map (·.guid)).Nodup
  bucket_lt : ∀ b ∈ w.db.buckets, b.guid < w.calls
  versioning : ∀ b ∈ w.db.buckets, b.versioning = .disabled
  objects : w.db.objects = []
  objectVersions : w.db.objectVersions = []
  multipartUploads : w.db.multipartUploads = []
  multipartParts : w.db.multipartParts = []

theorem NewlyCreated.sound {w : World} (h : NewlyCreated w) : Sound w where
  bucket_guid := h.bucket_guid
  object_guid := by rw [h.objects]; exact List.nodup_nil
  upload_guid := by rw [h.multipartUploads]; exact List.nodup_nil
  part_number := by rw [h.multipartParts]; exact List.nodup_nil
  version_object := by rw [h.objectVersions]; exact List.forall_mem_nil _
  object_lt := by rw [h.objects]; exact List.forall_mem_nil _
  upload_lt := by rw [h.multipartUploads]; exact List.forall_mem_nil _
  versions := ⟨by rw [h.objectVersions]; exact List.nodup_nil,
    by rw [h.objectVersions]; exact List.forall_mem_nil _⟩
  bucket_lt := h.bucket_lt
  object_bucket := by rw [h.objects]; exact List.forall_mem_nil _
  unversioned := by rw [h.objects]; exact fun _ _ _ _ ho => nomatch ho

theorem runAll_sound {w : World} (hw : Sound w) (requests : List Request) :
    Sound (runAll (Request.program D) requests w) := by
  have hstep : ∀ r ∈ requests, ∀ s, Sound s → Sound (stateAfter (Request.program D r) s) :=
    fun r _ _ hs => (request_outcome D r hs).sound
  exact runAll_keeps _ hstep hw

/-- A bucket that has left `disabled` never returns. -/
theorem runAll_versioning {w : World} (hw : Sound w) (requests : List Request) {b : BucketRow}
    (hb : b ∈ w.db.buckets) (hne : b.versioning ≠ .disabled) :
    ∃ b' ∈ (runAll (Request.program D) requests w).db.buckets,
      b'.guid = b.guid ∧ b'.versioning ≠ .disabled := by
  induction requests generalizing w b with
  | nil => exact ⟨b, hb, rfl, hne⟩
  | cons r requests ih =>
    have hr := request_outcome D r hw
    obtain ⟨b₁, hb₁, hguid₁, hne₁⟩ := hr.versioning b hb hne
    obtain ⟨b', hb', hguid', hne'⟩ := ih hr.sound hb₁ hne₁
    exact ⟨b', hb', hguid'.trans hguid₁, hne'⟩

/-- **Versioned data is only destroyed on explicit request.**  In every run of requests that begins
with new buckets: a bucket whose versioning has left `disabled` has left it for good; while it is
`disabled` all versions in it are `null` versions; and a version with an id of its own is gone
after a request only if that asks to delete it, by its key and its id. -/
theorem retained {w₀ : World} (h₀ : NewlyCreated w₀) (past : List Request) :
    let w := runAll (Request.program D) past w₀
    (∀ later, ∀ b ∈ w.db.buckets, b.versioning ≠ .disabled →
      ∀ b' ∈ (runAll (Request.program D) (past ++ later) w₀).db.buckets, b'.guid = b.guid →
        b'.versioning ≠ .disabled) ∧
    (∀ b ∈ w.db.buckets, b.versioning = .disabled → ∀ o ∈ w.db.objects, o.bucketGuid = b.guid →
      ∀ v ∈ w.db.objectVersions, v.objectGuid = o.guid → v.versionId = nullVersionId) ∧
    ∀ r, ∀ v ∈ w.db.objectVersions, v.versionId ≠ nullVersionId →
      v ∉ (stateAfter (r.program D) w).db.objectVersions →
        ∃ o ∈ w.db.objects, o.guid = v.objectGuid ∧ Names w r o.bucketGuid o.key v.versionId := by
  intro w
  have hw : Sound w := runAll_sound D h₀.sound past
  refine ⟨fun later b hb hne b' hb' hguid => ?_, hw.unversioned, fun r v hv hid hgone => ?_⟩
  · rw [runAll_append] at hb'
    obtain ⟨b₁, hb₁, hguid₁, hne₁⟩ := runAll_versioning D hw later hb hne
    have hnodup := (runAll_sound D hw later).bucket_guid
    rw [List.inj_on_of_nodup_map hnodup hb' hb₁ (hguid.trans hguid₁.symm)]
    exact hne₁
  · exact ((request_outcome D r hw).kept v hv hid).resolve_left hgone

end Runs

/-! ## A key deleted without naming a version -/

def diary : BucketRow := { guid := 0, name := "diary".toList, ownerUserGuid := "user-1".toList }

def newDiary : World := { db := { buckets := [diary] }, encryption := ⟨false, []⟩, calls := 1 }

def writer : AuthTypes.Identity := ⟨"user-1".toList, [], .user⟩

def smallDeployment : Deployment := ⟨Strings.ascii, Node.counting, 100, 100, ⟨24, 24⟩⟩

/-- Versioning is switched on, and a key written. -/
def firstEntry : List Request :=
  [.api (.setVersioning diary.name .enabled writer),
    .api (.upload { bucketName := diary.name, key := ['a'], stream := ⟨[[1]], false⟩ } writer)]

/-- **The version that was written is still there** after its key has been deleted. -/
theorem retained_firstEntry :
    let w := runAll (Request.program smallDeployment) firstEntry newDiary
    (∃ v ∈ w.db.objectVersions, v.versionId ≠ nullVersionId) ∧
    ∀ v ∈ w.db.objectVersions, v.versionId ≠ nullVersionId →
      v ∈ (stateAfter (Request.program smallDeployment
        (.api (.delete diary.name (some ['a']) none none writer))) w).db.objectVersions := by
  refine ⟨by decide +kernel, fun v hv hid => ?_⟩
  by_contra hgone
  have hnew : NewlyCreated newDiary :=
    ⟨by decide, by decide, by decide, rfl, rfl, rfl, rfl⟩
  obtain ⟨o, -, -, bucketName, entries, row, hdeletes, -, -, hentry⟩ :=
    (retained smallDeployment hnew firstEntry).2.2 _ v hv hid hgone
  obtain ⟨-, rfl⟩ := Prod.mk.inj (Option.some.inj hdeletes)
  cases congrArg DeleteEntry.versionId (List.mem_singleton.mp hentry)

end Retention
end SimpleStorage
