import SimpleStorage.Objects.TableEffects
import SimpleStorage.S3.Controllers

/-!
# Requests on an upload

`UploadPart`, `UploadPartCopy`, `CompleteMultipartUpload` and `AbortMultipartUpload` name a key
in their URL and an upload in their query.  They are authorised for the key; what they work
on is the upload, which has a key of its own, and nothing compares the two.

`changesOnlyAuthorised_iff` says what follows: a request that succeeds keeps to the key it
was authorised for if and only if the upload it names was started for that key.
-/

namespace SimpleStorage
namespace S3ObjectController

open ObjectsService ObjectsTypes Program S3AuthorizationService S3Types Statements StorageService

/-- The methods of an object's URL. -/
inductive Method where
  | put | post | delete
  deriving DecidableEq, Repr

/-- The handler of a method. -/
def handle (J : Strings) (N : Node) (maxSingleUploadBytes : ℕ) (method : Method)
    (req : S3Types.ObjectRequest) (identity : RequestIdentity) : Service S3Types.Response :=
  match method with
  | .put => put J N maxSingleUploadBytes req identity
  | .post => post J N req identity
  | .delete => delete J N req identity

/-- **The request works on an upload.** -/
structure OnUpload (method : Method) (req : S3Types.ObjectRequest) (uploadId : Text) : Prop where
  uploadId : Query.present req.uploadId = some uploadId
  part : method = .put → req.partNumber.isSome
  complete : method = .post → req.uploads = false

/-- What a request on an upload is authorised for. -/
def uploadAction : Method → Action
  | .put | .post => .putObject
  | .delete => .abortMultipartUpload

variable {J : Strings} {N : Node}

/-! ## What becomes of the upload that is named -/

/-- A part is stored, or the upload is aborted, or completed as a version of its own key. -/
inductive UploadChange (N : Node) (w : World) (u : MultipartUploadRow) : Database → Prop
  | stored {part : MultipartPartRow} (hguid : part.uploadGuid = u.guid)
      (hpath : part.storagePath = pathAt N w.calls) : UploadChange N w u (upsertPart part w.db)
  | aborted : UploadChange N w u (closeUpload u.guid .aborted w.db)
  | completed {bucket : BucketContext} {db : Database} (hbucket : bucket.guid = u.bucketGuid)
      (h : CommitsVersion (N := N) w bucket u.key (some (pathAt N w.calls)) db) :
      UploadChange N w u (closeUpload u.guid .completed db)

/-- **A request on an upload is authorised for the key of its URL, and changes the upload that has
the id.** -/
theorem handle_spec {w : World} (hw : Inv N w) (hguids : (w.db.buckets.map (·.guid)).Nodup)
    (maxSingleUploadBytes : ℕ) {method : Method} {req : S3Types.ObjectRequest} {uploadId : Text}
    (hreq : OnUpload method req uploadId) (identity : RequestIdentity) :
    wp (handle J N maxSingleUploadBytes method req identity)
      (fun _ w' => ∃ row, BucketsService.findBucket req.bucket w.db = some row ∧
        ¬ Refuses J (some req.values) identity row (uploadAction method) (some req.key) w ∧
        ∃ u, findUpload row.guid uploadId w.db = some u ∧ UploadChange N w u w'.db)
      (fun _ _ => True) w := by
  have hstored : ∀ {row : BucketRow} {n : ℤ} {db : Database},
      (∃ u part, findUpload row.guid uploadId w.db = some u ∧ part.uploadGuid = u.guid ∧
        part.partNumber = n ∧ part.storagePath = pathAt N w.calls ∧ db = upsertPart part w.db) →
      ∃ u, findUpload row.guid uploadId w.db = some u ∧ UploadChange N w u db := by
    rintro row n db ⟨u, part, hu, hguid, -, hpath, rfl⟩
    exact ⟨u, hu, .stored hguid hpath⟩
  cases method with
  | put =>
    obtain ⟨n, hn⟩ := Option.isSome_iff_exists.mp (hreq.part rfl)
    rw [handle, put, wp_bind]
    refine wp_mono (resolveBucket_spec J hguids _ _ _ _ _) ?_ fun _ _ _ => trivial
    rintro bucket w₀ ⟨hsame, row, hrow, rfl, hallowed⟩
    rw [hsame, hreq.uploadId, hn]
    cases req.copySource with
    | none =>
      dsimp only
      rw [wp_bind]
      refine wp_mono (uploadPart_tables _ _ _ _ _ _ _ w) ?_ fun _ _ _ => trivial
      intro _ w' h
      exact ⟨row, hrow, hallowed, hstored h⟩
    | some source =>
      dsimp only
      rw [wp_bind]
      refine wp_mono ((resolveCopySource_readOnly J _ _ _).wp_same w) ?_ fun _ _ _ => trivial
      rintro source w₁ rfl
      rw [wp_bind]
      refine wp_mono ((readRequest_readOnly _).wp_same w₁) ?_ fun _ _ _ => trivial
      rintro range w rfl
      rw [wp_bind]
      refine wp_mono (uploadPartCopy_tables _ _ _ _ _ w) ?_ fun _ _ _ => trivial
      intro _ w' h
      exact ⟨row, hrow, hallowed, hstored h⟩
  | post =>
    rw [handle, post, wp_bind]
    refine wp_mono (resolveBucket_spec J hguids _ _ _ _ _) ?_ fun _ _ _ => trivial
    rintro bucket w₀ ⟨hsame, row, hrow, rfl, hallowed⟩
    rw [hsame, hreq.complete rfl, if_neg Bool.false_ne_true, hreq.uploadId, wp_bind, orThrow, wp_pure,
      wp_bind]
    cases req.parts with
    | error e => exact trivial
    | ok parts =>
      rw [readRequest, wp_pure, wp_bind]
      refine wp_mono (completeMultipartUpload_tables _ _ _ w) ?_ fun _ _ _ => trivial
      rintro _ w' ⟨u, db, hu, hcommits, hdb⟩
      rw [wp_pure, hdb]
      exact ⟨row, hrow, hallowed, u, hu, .completed
        ((findUpload_eq_some (k := (row.guid, uploadId)) hw.upload_id).mp hu).2.2.1.symm hcommits⟩
  | delete =>
    rw [handle, delete, hreq.uploadId]
    dsimp only
    rw [wp_bind]
    refine wp_mono (resolveBucket_spec J hguids _ _ _ _ _) ?_ fun _ _ _ => trivial
    rintro bucket w₀ ⟨hsame, row, hrow, rfl, hallowed⟩
    rw [hsame, wp_bind]
    refine wp_mono (abortMultipartUpload_tables _ _ w) ?_ fun _ _ _ => trivial
    rintro _ w' ⟨u, hu, hdb⟩
    rw [wp_pure, hdb]
    exact ⟨row, hrow, hallowed, u, hu, .aborted⟩

/-! ## What a change touches -/

/-- The row of an upload, or its parts, are not what they were. -/
def Touched (db db' : Database) (u : MultipartUploadRow) : Prop :=
  u ∉ db'.multipartUploads ∨ partsOf u.guid db' ≠ partsOf u.guid db

/-- Closing an upload takes its row out of progress … -/
theorem not_mem_closeUpload {db : Database} {u : MultipartUploadRow} {status : MultipartUploadStatus}
    (hu : u.status = .inProgress) (hstatus : status ≠ .inProgress) :
    u ∉ (closeUpload u.guid status db).multipartUploads := by
  intro h
  obtain ⟨v, -, hv⟩ := List.mem_map.mp h
  split_ifs at hv with hguid
  · exact hstatus ((congrArg MultipartUploadRow.status hv).trans hu)
  · exact hguid (congrArg MultipartUploadRow.guid hv)

/-- … and touches no other upload. -/
theorem not_touched_closeUpload {db db' : Database} {u v : MultipartUploadRow}
    {status : MultipartUploadStatus} (huploads : db'.multipartUploads = db.multipartUploads)
    (hparts : db'.multipartParts = db.multipartParts) (hv : v ∈ db.multipartUploads)
    (hguid : v.guid ≠ u.guid) : ¬ Touched db (closeUpload u.guid status db') v := by
  refine not_or.mpr ⟨not_not.mpr (List.mem_map.mpr ⟨v, huploads ▸ hv, if_neg hguid⟩), not_not.mpr ?_⟩
  rw [partsOf, closeUpload, deleteParts, List.filter_filter, partsOf]
  change db'.multipartParts.filter _ = _
  rw [hparts]
  refine List.filter_congr fun p _ => ?_
  by_cases h : p.uploadGuid = v.guid
  · simp [h, hguid]
  · simp [h]

/-- Storing a part touches no other upload than its own. -/
theorem not_touched_upsertPart {db : Database} {part : MultipartPartRow} {v : MultipartUploadRow}
    (hv : v ∈ db.multipartUploads) (hne : v.guid ≠ part.uploadGuid) :
    ¬ Touched db (upsertPart part db) v := by
  refine not_or.mpr ⟨not_not.mpr hv, not_not.mpr ?_⟩
  have hother : ∀ p : MultipartPartRow,
      p.uploadGuid = part.uploadGuid → decide (p.uploadGuid = v.guid) = false := by
    intro p hp
    exact decide_eq_false fun h => hne (h.symm.trans hp)
  rw [partsOf, partsOf, upsertPart]
  cases findPart part.uploadGuid part.partNumber db with
  | none =>
    change (db.multipartParts ++ [part]).filter _ = _
    rw [List.filter_append, List.filter_cons_of_neg (by simp [hother part rfl]), List.filter_nil,
      List.append_nil]
  | some old =>
    change (db.multipartParts.map _).filter _ = _
    induction db.multipartParts with
    | nil => rfl
    | cons p ps ih =>
      rw [List.map_cons]
      by_cases hp : p.uploadGuid = part.uploadGuid ∧ p.partNumber = part.partNumber
      · rw [if_pos hp, List.filter_cons_of_neg (by simp [hother _ hp.1]),
          List.filter_cons_of_neg (by simp [hother p hp.1]), ih]
      · rw [if_neg hp, List.filter_cons, List.filter_cons, ih]

section Change

variable {w : World} (hw : Inv N w) (hdistinct : N.Distinct (w.calls + 1)) {u : MultipartUploadRow}
  (hu : u ∈ w.db.multipartUploads) (hprogress : u.status = .inProgress)
include hw hdistinct

/-- A stored part touches its upload. -/
theorem touched_upsertPart {part : MultipartPartRow} (hguid : part.uploadGuid = u.guid)
    (hpath : part.storagePath = pathAt N w.calls) : Touched w.db (upsertPart part w.db) u := by
  refine Or.inr fun hsame => ?_
  have hnew : upsertedPart part w.db ∈ partsOf u.guid (upsertPart part w.db) := by
    obtain ⟨createdAt, h⟩ := upsertedPart_eq part w.db
    refine List.mem_filter.mpr ⟨(mem_upsertPart hw.part_number).mpr (Or.inl rfl), ?_⟩
    rw [h]
    exact decide_eq_true hguid
  rw [hsame] at hnew
  have hold := (List.mem_filter.mp hnew).1
  have hpath' : (upsertedPart part w.db).storagePath = pathAt N w.calls := by
    obtain ⟨createdAt, h⟩ := upsertedPart_eq part w.db
    rw [h]
    exact hpath
  have hnext : N.Distinct { w with calls := w.calls + 1 }.calls := hdistinct
  exact (hw.parts _ hold).generated.ne_pathAt hnext le_rfl (Nat.lt_succ_self _) hpath'

include hu hprogress

/-- **A change touches the upload it is about and no other.** -/
theorem UploadChange.touched_iff {db' : Database} (h : UploadChange N w u db') {v : MultipartUploadRow}
    (hv : v ∈ w.db.multipartUploads) : Touched w.db db' v ↔ v = u := by
  have hsame : v.guid = u.guid → v = u := List.inj_on_of_nodup_map hw.upload_guid hv hu
  cases h with
  | stored hguid hpath =>
    refine ⟨fun h => hsame (by_contra fun hne => not_touched_upsertPart hv (hguid ▸ hne) h), ?_⟩
    rintro rfl
    exact touched_upsertPart hw hdistinct hguid hpath
  | aborted =>
    refine ⟨fun h => hsame (by_contra fun hne => not_touched_closeUpload rfl rfl hv hne h), ?_⟩
    rintro rfl
    exact Or.inl (not_mem_closeUpload hprogress nofun)
  | @completed bucket db hbucket hcommits =>
    obtain ⟨call, versionId, values, -, -, -, rfl⟩ := hcommits
    obtain ⟨objects, objectVersions, hframe⟩ :=
      commitVersion_others call (N.now call) bucket.guid u.key versionId values w.db
    rw [hframe]
    refine ⟨fun h => hsame (by_contra fun hne => not_touched_closeUpload rfl rfl hv hne h), ?_⟩
    rintro rfl
    exact Or.inl (not_mem_closeUpload hprogress nofun)

omit hdistinct hu hprogress in
/-- **No key gets another version but the upload's.** -/
theorem UploadChange.history_of_ne {db' : Database} (h : UploadChange N w u db') {k : BucketKey}
    (hk : k ≠ (u.bucketGuid, u.key)) : history db' k = history w.db k := by
  cases h with
  | stored => exact congrFun (history_congr rfl rfl) k
  | aborted => exact congrFun (history_congr rfl rfl) k
  | completed hbucket hcommits =>
    obtain ⟨call, versionId, values, hcall, -, -, rfl⟩ := hcommits
    have hfresh : ∀ o ∈ w.db.objects, o.guid ≠ call := fun o ho => ((hw.objects o ho).trans_le hcall).ne
    have hcommit : history (Statements.commitVersion call (N.now call) u.bucketGuid u.key versionId
        values w.db).2 = _ :=
      history_commitVersion (k := (u.bucketGuid, u.key)) hw.tables.toConstraints hfresh
    refine (congrFun (history_congr rfl rfl) k).trans ?_
    rw [hbucket]
    exact (congrFun hcommit k).trans (VersionedMap.write_of_ne hk)

end Change

/-! ## What the authorisation covers -/

/-- **Only the key that was authorised is changed**: the request was not refused for the key of its
URL, the uploads whose status or parts change are uploads of that key, and so is the key whose
versions change. -/
structure ChangesOnlyAuthorised (J : Strings) (req : S3Types.ObjectRequest) (identity : RequestIdentity)
    (method : Method) (row : BucketRow) (w w' : World) : Prop where
  authorised : ¬ Refuses J (some req.values) identity row (uploadAction method) (some req.key) w
  uploads : ∀ u ∈ w.db.multipartUploads, Touched w.db w'.db u →
    u.bucketGuid = row.guid ∧ u.key = req.key
  versions : ∀ k, history w'.db k ≠ history w.db k → k = (row.guid, req.key)

/-- **A request on an upload that succeeds keeps to the key it was authorised for if and only if
the upload was started for that key.** -/
theorem changesOnlyAuthorised_iff {w w' : World} {row : BucketRow} {response : S3Types.Response}
    (hw : Inv N w) (hguids : (w.db.buckets.map (·.guid)).Nodup)
    (hdistinct : N.Distinct (w.calls + callsPerRequest)) (maxSingleUploadBytes : ℕ) {method : Method}
    {req : S3Types.ObjectRequest} {uploadId : Text} (hreq : OnUpload method req uploadId)
    {identity : RequestIdentity} (hrow : BucketsService.findBucket req.bucket w.db = some row)
    (hrun : handle J N maxSingleUploadBytes method req identity w = .ok response w') :
    ChangesOnlyAuthorised J req identity method row w w' ↔
      ∀ u, findUpload row.guid uploadId w.db = some u → u.key = req.key := by
  obtain ⟨row', hrow', hallowed, u, hu, hchange⟩ :=
    wp_of_ok hrun (handle_spec hw hguids maxSingleUploadBytes hreq identity)
  obtain rfl := Option.some.inj (hrow.symm.trans hrow')
  obtain ⟨hmem, -, hbucket, hprogress⟩ :=
    (findUpload_eq_some (k := (row.guid, uploadId)) hw.upload_id).mp hu
  have hdistinct' : N.Distinct (w.calls + 1) := hdistinct.mono (by rw [callsPerRequest]; omega)
  have htouched := fun v hv => hchange.touched_iff (v := v) hw hdistinct' hmem hprogress hv
  constructor
  · intro h v hv
    obtain rfl := Option.some.inj (hu.symm.trans hv)
    exact (h.uploads u hmem ((htouched u hmem).mpr rfl)).2
  · intro hkey
    refine ⟨hallowed, fun v hv h => ?_, fun k hk => ?_⟩
    · rw [(htouched v hv).mp h]
      exact ⟨hbucket, hkey u hu⟩
    · by_contra hne
      refine hk (hchange.history_of_ne hw ?_)
      rw [show u.bucketGuid = row.guid from hbucket, hkey u hu]
      exact hne

/-! ## An upload completed through another key's URL -/

/-- Nobody writes the key `a`. -/
def readOnlyA : PoliciesTypes.PolicyDocument where
  statement := [{
    effect := .deny
    action := .one "s3:PutObject".toList
    resource := .one "arn:aws:s3:::photos/a".toList }]

def albumWorld : World where
  db := { buckets := [photos], bucketPolicies := [⟨photos.guid, readOnlyA⟩] }
  encryption := ⟨false, []⟩
  calls := 2

/-- An upload of `a` was started when nobody minded. -/
def startedWorld : World :=
  stateAfter (createMultipartUpload Node.counting (BucketsService.toItem photos).toBucketContext ['a']
    none {}) albumWorld

/-- A request with the id of that upload. -/
def uploadRequest (key : Text) (parts : List CompletePart) : S3Types.ObjectRequest where
  bucket := photos.name
  key
  uploadId := some (Codec.base64url.encode (Node.counting.randomBytes 2 24))
  partNumber := some 1
  payload := ⟨[[1]], false⟩
  parts := .ok parts

/-- A part was stored through the URL of `b`. -/
def storedWorld : World :=
  stateAfter (handle Strings.ascii Node.counting 100 .put (uploadRequest ['b'] []) user1) startedWorld

/-- **Completing the upload of `a` through the URL of `b` gives `a` a version**, by the request of
someone who may not write `a`. -/
theorem completes_other_key : ∃ response w',
    let req := uploadRequest ['b'] [⟨1, Codec.hex (List.replicate 16 0)⟩]
    handle Strings.ascii Node.counting 100 .post req user1 storedWorld = .ok response w' ∧
    Refuses Strings.ascii (some req.values) user1 photos .putObject (some ['a']) storedWorld ∧
    ¬ ChangesOnlyAuthorised Strings.ascii req user1 .post photos storedWorld w' := by
  refine ⟨_, _, rfl, ⟨_, _, rfl⟩, fun h => ?_⟩
  have hkey := h.versions (1, ['a']) (by decide)
  cases hkey

/-- Aborting it through its own URL is in order. -/
theorem changesOnlyAuthorised_abort : ∃ response w',
    handle Strings.ascii Node.counting 100 .delete (uploadRequest ['a'] []) user1 startedWorld =
      .ok response w' ∧
    ChangesOnlyAuthorised Strings.ascii (uploadRequest ['a'] []) user1 .delete photos startedWorld w' := by
  have hreq : OnUpload .delete (uploadRequest ['a'] [])
      (Codec.base64url.encode (Node.counting.randomBytes 2 24)) := ⟨rfl, nofun, nofun⟩
  have hinv : Inv Node.counting startedWorld := stateAfter_of_wp
    (wp_mono (createMultipartUpload_spec (Inv.of_empty ⟨rfl, rfl, rfl, rfl⟩)
      (Node.distinct_counting.mono (by decide)) _ _ _ _) (fun _ _ h => h.2.inv) fun _ _ h => h.elim)
  refine ⟨_, _, rfl, (changesOnlyAuthorised_iff hinv (by decide)
    (Node.distinct_counting.mono (by decide)) 100 hreq rfl rfl).mpr ?_⟩
  rintro u ⟨⟩
  rfl

end S3ObjectController
end SimpleStorage
