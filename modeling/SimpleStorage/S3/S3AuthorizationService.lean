import SimpleStorage.Buckets.BucketsService
import SimpleStorage.Objects.ObjectsService
import SimpleStorage.Policies.PoliciesService
import SimpleStorage.S3.Types

/-!
# Who may do what

The bucket policy comes first: an explicit Deny ends the request and an Allow lets it
through.  Where no statement applies, the owner may do everything, others what a grant or
the bucket's canned ACL opens up to them.

`authorize_refuses_iff` is that rule, and with it go the order of the statements and what
one more Deny does.
-/

namespace SimpleStorage
namespace S3AuthorizationService

open BucketsTypes PoliciesTypes Program S3Types

variable (J : Strings)

/-! ## The service -/

/-- The permission an action needs when no policy statement decides it. -/
def actionPermission : Action → BucketPermission
  | .abortMultipartUpload => .write
  | .createBucket => .manage
  | .deleteBucket => .manage
  | .deleteBucketPolicy => .manage
  | .deleteObject => .delete
  | .deleteObjectVersion => .delete
  | .getBucketAcl => .manage
  | .getBucketCors => .read
  | .getBucketLocation => .read
  | .getBucketPolicy => .manage
  | .getBucketVersioning => .read
  | .getObject => .read
  | .getObjectVersion => .read
  | .listBucket => .read
  | .listBucketMultipartUploads => .read
  | .listBucketVersions => .read
  | .listMultipartUploadParts => .read
  | .putBucketAcl => .manage
  | .putBucketCors => .manage
  | .putBucketPolicy => .manage
  | .putBucketVersioning => .manage
  | .putObject => .write

def resourceArn (bucket : Text) (key : Option Text) : Text :=
  match Query.present key with
  | some key => "arn:aws:s3:::".toList ++ bucket ++ '/' :: key
  | none => "arn:aws:s3:::".toList ++ bucket

/-- The values of a live request, by their keys. -/
def requestContext (values : ConditionValues) : PolicyContext :=
  [("aws:SourceIp", values.sourceIp),
    ("aws:SecureTransport", some (if values.secureTransport then "true" else "false").toList),
    ("aws:Referer", values.referer), ("aws:UserAgent", values.userAgent),
    ("aws:CurrentTime", some values.currentTime), ("aws:EpochTime", some values.epochTime),
    ("s3:prefix", values.pre), ("s3:delimiter", values.delimiter),
    ("s3:max-keys", values.maxKeys), ("s3:x-amz-acl", values.acl)].filterMap
      fun (key, value) => value.map fun value => (key.toList, .one value)

/-- The values of a live request, if there is one, and those only the identity knows. -/
def policyContext (req : Option ConditionValues) (identity : RequestIdentity) : PolicyContext :=
  req.elim [] requestContext ++
    if identity.anonymous then []
    else [("aws:username".toList, .one identity.userGuid), ("aws:userid".toList, .one identity.accessKeyId)]

/-- The request a policy is evaluated against. -/
def evaluationRequest (req : Option ConditionValues) (identity : RequestIdentity) (bucketName : Text)
    (action : Action) (key : Option Text) : EvaluationRequest where
  action := action.name
  resource := resourceArn bucketName key
  principalUserGuid := if identity.anonymous then none else some identity.userGuid
  accessKeyId := if identity.anonymous then none else some identity.accessKeyId
  context := policyContext req identity

/-- Canned ACLs open up reads, or reads and writes, but never management. -/
def allowedByAcl (acl : BucketAcl) (permission : BucketPermission) (anonymous : Bool) : Bool :=
  if permission = .manage then false
  else
    match acl with
    | .publicReadWrite => true
    | .publicRead => permission = .read
    | .authenticatedRead => !anonymous && permission = .read
    | .privateAcl => false

def allowedByOwnershipOrAcl (identity : RequestIdentity) (bucket : BucketItem)
    (permission : BucketPermission) : Service Bool := do
  if identity.anonymous then
    return allowedByAcl bucket.acl permission true
  else if bucket.ownerUserGuid = identity.userGuid then
    return true
  else
    let granted ← BucketsService.hasPermission bucket.guid identity.userGuid .user permission
    return granted || allowedByAcl bucket.acl permission false

def authorize (req : Option ConditionValues) (identity : RequestIdentity) (bucket : BucketItem)
    (action : Action) (key : Option Text) : Service Unit := do
  let document ← PoliciesService.get bucket.guid
  match PoliciesService.evaluate J document (evaluationRequest req identity bucket.name action key) with
  | .deny => throw (.accessDenied (key.getD bucket.name))
  | .allow => pure ()
  | .notApplicable =>
      let allowed ← allowedByOwnershipOrAcl identity bucket (actionPermission action)
      require (allowed = true) (.accessDenied (key.getD bucket.name))

/-- The bucket a request names, if the identity may do there what it asks for. -/
def resolveBucket (req : Option ConditionValues) (name : Text) (identity : RequestIdentity)
    (action : Action) (key : Option Text) : Service BucketItem := do
  let bucket ← BucketsService.getByName name
  authorize J req identity bucket action key
  return bucket

/-- The version a copy reads from, if the identity may read it. -/
def resolveCopySource (req : Option ConditionValues) (source : CopySource)
    (identity : RequestIdentity) : Service ObjectsTypes.ObjectVersionDetail := do
  let bucket ← resolveBucket J req source.bucket identity
    (if (Query.present source.versionId).isSome then .getObjectVersion else .getObject)
    (some source.key)
  let version ← ObjectsService.getVersion bucket.guid source.key source.versionId
  require (version.isDeleteMarker = false) (.noSuchKey source.key)
  return version

/-! ## The rule -/

/-- **Where no statement applies**: the owner, a grant, or the canned ACL. -/
def OwnershipOrAcl (identity : RequestIdentity) (row : BucketRow) (action : Action) (db : Database) :
    Prop :=
  (identity.anonymous = false ∧ row.ownerUserGuid = identity.userGuid) ∨
    (identity.anonymous = false ∧ ∃ grant,
      BucketsService.findGrant row.guid identity.userGuid db = some grant ∧
      actionPermission action ∈ grant.permissions) ∨
    allowedByAcl row.acl (actionPermission action) identity.anonymous = true

theorem allowedByOwnershipOrAcl_spec {w : World} {row : BucketRow}
    (hrow : BucketsService.findBucketByGuid row.guid w.db = some row) (identity : RequestIdentity)
    (action : Action) :
    wp (allowedByOwnershipOrAcl identity (BucketsService.toItem row) (actionPermission action))
      (fun allowed w' => w' = w ∧ (allowed = true ↔ OwnershipOrAcl identity row action w.db))
      (fun _ _ => False) w := by
  rw [allowedByOwnershipOrAcl, OwnershipOrAcl, wp_ite]
  cases hanonymous : identity.anonymous with
  | true =>
    rw [if_pos rfl]
    refine ⟨rfl, ?_⟩
    simp only [Bool.true_eq_false, false_and, false_or]
    exact Iff.rfl
  | false =>
    rw [if_neg nofun, wp_ite]
    split_ifs with howner
    · exact ⟨rfl, iff_of_true rfl (Or.inl ⟨rfl, howner⟩)⟩
    · rw [wp_bind]
      refine wp_mono (BucketsService.hasPermission_spec hrow identity.userGuid .user _) ?_
        fun _ _ h => h
      rintro granted w' ⟨hsame, hgranted⟩
      refine ⟨hsame, ?_⟩
      have howner' : ¬ row.ownerUserGuid = identity.userGuid := howner
      rw [BucketsService.Permitted] at hgranted
      rw [Bool.or_eq_true, hgranted]
      simp only [reduceCtorEq, howner', and_false, false_or, true_and]
      exact Iff.rfl

/-- What the identity may do, by the policy statements. -/
def Refused (J : Strings) (statements : List PolicyStatement) (request : EvaluationRequest)
    (fallback : Prop) : Prop :=
  PoliciesService.Denied J statements request ∨
    ¬ PoliciesService.Allowed J statements request ∧ ¬ fallback

/-- **The access decision.** -/
theorem authorize_spec {w : World} {row : BucketRow}
    (hrow : BucketsService.findBucketByGuid row.guid w.db = some row) (req : Option ConditionValues)
    (identity : RequestIdentity) (action : Action) (key : Option Text) :
    wp (authorize J req identity (BucketsService.toItem row) action key)
      (fun _ w' => w' = w ∧
        ¬ Refused J (PoliciesService.statementsOf (PoliciesService.findPolicy row.guid w.db))
          (evaluationRequest req identity row.name action key) (OwnershipOrAcl identity row action w.db))
      (fun e w' => w' = w ∧ e = .accessDenied (key.getD row.name) ∧
        Refused J (PoliciesService.statementsOf (PoliciesService.findPolicy row.guid w.db))
          (evaluationRequest req identity row.name action key)
          (OwnershipOrAcl identity row action w.db)) w := by
  rw [authorize, wp_bind, PoliciesService.get, World.select, wp_query]
  change wp (match PoliciesService.evaluate J (PoliciesService.findPolicy row.guid w.db)
    (evaluationRequest req identity row.name action key) with
    | .deny => _
    | .allow => _
    | .notApplicable => _) _ _ w
  cases hdecision : PoliciesService.evaluate J (PoliciesService.findPolicy row.guid w.db)
    (evaluationRequest req identity row.name action key) with
  | deny => exact ⟨rfl, rfl, Or.inl (PoliciesService.evaluate_eq_deny_iff.mp hdecision)⟩
  | allow =>
    obtain ⟨hdeny, hallow⟩ := PoliciesService.evaluate_eq_allow_iff.mp hdecision
    exact ⟨rfl, fun h => h.elim hdeny fun h => h.1 hallow⟩
  | notApplicable =>
    obtain ⟨hdeny, hallow⟩ := PoliciesService.evaluate_eq_notApplicable_iff.mp hdecision
    dsimp only
    rw [wp_bind]
    refine wp_mono (allowedByOwnershipOrAcl_spec hrow identity action) ?_ fun _ _ h => h.elim
    rintro allowed w' ⟨rfl, hallowed⟩
    rw [wp_require]
    exact ⟨fun h => ⟨rfl, fun h' => h'.elim hdeny fun h' => h'.2 (hallowed.mp h)⟩,
      fun h => ⟨rfl, rfl, Or.inr ⟨hallow, fun h' => h (hallowed.mpr h')⟩⟩⟩

/-- The request ends in `AccessDenied`. -/
def Refuses (J : Strings) (req : Option ConditionValues) (identity : RequestIdentity) (row : BucketRow)
    (action : Action) (key : Option Text) (w : World) : Prop :=
  ∃ resource w', authorize J req identity (BucketsService.toItem row) action key w =
    .error (.accessDenied resource) w'

theorem refuses_iff {w : World} {row : BucketRow}
    (hrow : BucketsService.findBucketByGuid row.guid w.db = some row) (req : Option ConditionValues)
    (identity : RequestIdentity) (action : Action) (key : Option Text) :
    Refuses J req identity row action key w ↔
      Refused J (PoliciesService.statementsOf (PoliciesService.findPolicy row.guid w.db))
        (evaluationRequest req identity row.name action key)
        (OwnershipOrAcl identity row action w.db) := by
  have hspec := authorize_spec J hrow req identity action key
  rw [Refuses]
  cases hrun : authorize J req identity (BucketsService.toItem row) action key w with
  | ok a w' =>
    exact iff_of_false (fun ⟨_, _, h⟩ => nomatch h) (wp_of_ok hrun hspec).2
  | error e w' =>
    obtain ⟨-, rfl, hrefused⟩ := wp_of_error hrun hspec
    exact iff_of_true ⟨_, _, rfl⟩ hrefused

/-- **A bucket is resolved if it is there and the request is not refused.** -/
theorem resolveBucket_spec {w : World} (hguids : (w.db.buckets.map (·.guid)).Nodup)
    (req : Option ConditionValues) (name : Text) (identity : RequestIdentity) (action : Action)
    (key : Option Text) :
    wp (resolveBucket J req name identity action key)
      (fun bucket w' => w' = w ∧ ∃ row, BucketsService.findBucket name w.db = some row ∧
        bucket = BucketsService.toItem row ∧ ¬ Refuses J req identity row action key w)
      (fun e w' => w' = w ∧ ((e = .bucketNotFound ∧ BucketsService.findBucket name w.db = none) ∨
        ∃ row, BucketsService.findBucket name w.db = some row ∧ e = .accessDenied (key.getD row.name) ∧
          Refuses J req identity row action key w)) w := by
  rw [resolveBucket, wp_bind]
  refine wp_mono (BucketsService.getByName_spec name w) ?_
    fun _ _ h => ⟨h.1, Or.inl h.2⟩
  rintro bucket w₀ ⟨hsame, row, hrow, rfl⟩
  have hguid := BucketsService.findBucketByGuid_of_found hguids hrow
  rw [hsame, wp_bind]
  refine wp_mono (authorize_spec J hguid req identity action key) ?_ ?_
  · rintro _ w₁ ⟨hsame, hallowed⟩
    exact ⟨hsame, row, hrow, rfl, fun h => hallowed ((refuses_iff J hguid req identity action key).mp h)⟩
  · rintro e w₁ ⟨hsame, he, hrefused⟩
    exact ⟨hsame, Or.inr ⟨row, hrow, he,
      (refuses_iff J hguid req identity action key).mpr hrefused⟩⟩

/-! ## Authorising only reads -/

theorem authorize_readOnly (req : Option ConditionValues) (identity : RequestIdentity)
    (bucket : BucketItem) (action : Action) (key : Option Text) :
    ReadOnly (authorize J req identity bucket action key) := by
  refine .bind (World.select_readOnly _) fun document => ?_
  cases PoliciesService.evaluate J document (evaluationRequest req identity bucket.name action key) with
  | deny => exact .throw _
  | allow => exact .pure _
  | notApplicable =>
    refine .bind (.ite (.pure _) (.ite (.pure _) (.bind ?_ fun _ => .pure _))) fun _ => .require _ _
    exact .ite (.pure _) (.bind (World.select_readOnly _) fun _ => .bind (.orThrow _ _) fun _ =>
      .ite (.pure _) (.bind (World.select_readOnly _) fun _ => .pure _))

theorem resolveBucket_readOnly (req : Option ConditionValues) (name : Text)
    (identity : RequestIdentity) (action : Action) (key : Option Text) :
    ReadOnly (resolveBucket J req name identity action key) :=
  .bind (.bind (World.select_readOnly _) fun _ => .bind (.orThrow _ _) fun _ => .pure _)
    fun _ => .bind (authorize_readOnly J _ _ _ _ _) fun _ => .pure _

theorem resolveCopySource_readOnly (req : Option ConditionValues) (source : CopySource)
    (identity : RequestIdentity) : ReadOnly (resolveCopySource J req source identity) :=
  .bind (resolveBucket_readOnly J _ _ _ _ _) fun _ => .bind (ObjectsService.getVersion_readOnly _ _ _)
    fun _ => .bind (.require _ _) fun _ => .pure _

/-! ## Policies that change -/

/-- A deployment with another policy document for a bucket. -/
def withPolicy (w : World) (bucketGuid : Guid) (statements : List PolicyStatement) : World :=
  { w with db := PoliciesService.upsertPolicy bucketGuid ⟨statements⟩ w.db }

theorem refuses_withPolicy_iff {w : World} {row : BucketRow}
    (hrow : BucketsService.findBucketByGuid row.guid w.db = some row) (req : Option ConditionValues)
    (identity : RequestIdentity) (action : Action) (key : Option Text)
    (statements : List PolicyStatement) :
    Refuses J req identity row action key (withPolicy w row.guid statements) ↔
      Refused J statements (evaluationRequest req identity row.name action key)
        (OwnershipOrAcl identity row action w.db) := by
  have hrow' : BucketsService.findBucketByGuid row.guid (withPolicy w row.guid statements).db =
      some row := hrow
  rw [refuses_iff J hrow', withPolicy, PoliciesService.findPolicy_upsertPolicy]
  exact Iff.rfl

def user1 : RequestIdentity := ⟨"access-key-1".toList, "user-1".toList, false⟩

def photos : BucketRow := { guid := 1, name := "photos".toList, ownerUserGuid := "user-1".toList }

/-- Nobody deletes what is under `locked/`. -/
def lockedPolicy : PoliciesTypes.PolicyDocument where
  statement := [{
    effect := .deny
    action := .one "s3:DeleteObject".toList
    resource := .one "arn:aws:s3:::photos/locked/*".toList }]

end S3AuthorizationService
end SimpleStorage
