import SimpleStorage.Api.Retention
import SimpleStorage.Buckets.Grants

/-!
# Handlers for permissions

The handlers of both endpoints that say who may do what with a bucket, and the bucket lists.
Together with the handlers for buckets and objects these are all requests that may change a
bucket, or what is in it: `Access.Request`.  For each, `Access.Authorised` is what its caller
has to be permitted on a bucket, before the request does anything to it.
-/

namespace SimpleStorage

open Program

namespace PoliciesService

def removePolicy (bucketGuid : Guid) (db : Database) : Database :=
  { db with bucketPolicies := db.bucketPolicies.filter (·.bucketGuid ≠ bucketGuid) }

def delete (bucketGuid : Guid) : Service Unit := World.execute fun db => ((), removePolicy bucketGuid db)

end PoliciesService

namespace BucketsController

open AuthTypes BucketsTypes

def list (user : Identity) : Service (List BucketItem) := BucketsService.listForUser user.guid user.role

def get (bucketName : Text) (user : Identity) : Service (BucketItem × UsageTypes.Usage) := do
  let bucket ← BucketsService.getForUser bucketName user.guid user.role .read
  let usage ← World.select (UsageService.bucketUsage bucket.guid)
  return (bucket, usage)

/-- For admins. -/
def setQuota (bucketName : Text) (quotaBytes : Option ℤ) : Service Unit := do
  let bucket ← BucketsService.getByName bucketName
  BucketsService.setQuota bucket.guid quotaBytes

def listGrants (bucketName : Text) (user : Identity) :
    Service (List (UserGuid × List BucketPermission)) := do
  let bucket ← BucketsService.getForUser bucketName user.guid user.role .manage
  let grants ← BucketsService.listGrants bucket.guid
  return grants.map fun grant => (grant.userGuid, grant.permissions)

def setGrant (bucketName : Text) (userGuid : UserGuid) (permissions : List BucketPermission)
    (user : Identity) : Service Unit := do
  let bucket ← BucketsService.getForUser bucketName user.guid user.role .manage
  BucketsService.setGrant ⟨bucket.guid, userGuid, permissions⟩

def removeGrant (bucketName : Text) (userGuid : UserGuid) (user : Identity) : Service Unit := do
  let bucket ← BucketsService.getForUser bucketName user.guid user.role .manage
  BucketsService.removeGrant bucket.guid userGuid

end BucketsController

namespace PoliciesController

open AuthTypes PoliciesTypes

def get (bucketName : Text) (user : Identity) : Service (Option PolicyDocument) := do
  let bucket ← BucketsService.getForUser bucketName user.guid user.role .manage
  PoliciesService.get bucket.guid

def set (bucketName : Text) (document : PolicyDocument) (user : Identity) : Service Unit := do
  let bucket ← BucketsService.getForUser bucketName user.guid user.role .manage
  PoliciesService.set bucket.guid document

def delete (bucketName : Text) (user : Identity) : Service Unit := do
  let bucket ← BucketsService.getForUser bucketName user.guid user.role .manage
  PoliciesService.delete bucket.guid

end PoliciesController

namespace S3BucketController

open S3AuthorizationService S3Types

variable (J : Strings)

/-- `DeleteBucketPolicy`. -/
def deletePolicy (req : BucketRequest) (identity : RequestIdentity) : Service S3Types.Response := do
  let bucket ← resolveBucket J req.values req.bucket identity .deleteBucketPolicy none
  PoliciesService.delete bucket.guid
  return .done

/-- `DeleteBucketCors`.  It takes the right to set the rules. -/
def deleteCors (req : BucketRequest) (identity : RequestIdentity) : Service S3Types.Response := do
  let bucket ← resolveBucket J req.values req.bucket identity .putBucketCors none
  BucketsService.deleteCors bucket.guid
  return .done

end S3BucketController

namespace S3ServiceController

/-- `ListBuckets`.  Nobody is an admin here. -/
def listBuckets (identity : S3Types.RequestIdentity) : Service (List BucketsTypes.BucketItem) := do
  require (identity.anonymous = false) (.accessDenied [])
  BucketsService.listForUser identity.userGuid .user

end S3ServiceController

namespace Access

open AuthTypes BucketsService S3AuthorizationService

/-! ## Requests that may change a bucket -/

/-- A request to either endpoint that may change a bucket or what is in it. -/
inductive Request where
  | s3 (r : Retention.S3Request)
  | putAcl (req : S3Types.BucketRequest) (identity : S3Types.RequestIdentity)
      (cannedAcl : Except Fault (Option BucketAcl)) (acl : Except Fault BucketAcl)
  | putPolicy (req : S3Types.BucketRequest) (identity : S3Types.RequestIdentity)
      (document : Except Fault PoliciesTypes.PolicyDocument)
  | deletePolicy (req : S3Types.BucketRequest) (identity : S3Types.RequestIdentity)
  | putCors (req : S3Types.BucketRequest) (identity : S3Types.RequestIdentity)
      (configuration : Except Fault S3Types.CorsConfiguration)
  | deleteCors (req : S3Types.BucketRequest) (identity : S3Types.RequestIdentity)
  | api (r : Retention.ApiRequest)
  | setQuota (bucketName : Text) (quotaBytes : Option ℤ) (user : Identity)
  | setGrant (bucketName : Text) (userGuid : UserGuid) (permissions : List BucketPermission)
      (user : Identity)
  | removeGrant (bucketName : Text) (userGuid : UserGuid) (user : Identity)
  | setPolicy (bucketName : Text) (document : PoliciesTypes.PolicyDocument) (user : Identity)
  | removePolicy (bucketName : Text) (user : Identity)

variable (D : Retention.Deployment)

def Request.program : Request → Service Unit
  | .s3 r => r.program D
  | .putAcl req identity cannedAcl acl => do
      let _ ← S3BucketController.putAcl D.strings req identity cannedAcl acl
  | .putPolicy req identity document => do
      let _ ← S3BucketController.putPolicy D.strings req identity document
  | .deletePolicy req identity => do let _ ← S3BucketController.deletePolicy D.strings req identity
  | .putCors req identity configuration => do
      let _ ← S3BucketController.putCors D.strings req identity configuration
  | .deleteCors req identity => do let _ ← S3BucketController.deleteCors D.strings req identity
  | .api r => r.program D
  -- The guard turns away everybody else.
  | .setQuota bucketName quotaBytes user =>
      if user.role = .admin then BucketsController.setQuota bucketName quotaBytes else pure ()
  | .setGrant bucketName userGuid permissions user =>
      BucketsController.setGrant bucketName userGuid permissions user
  | .removeGrant bucketName userGuid user => BucketsController.removeGrant bucketName userGuid user
  | .setPolicy bucketName document user => PoliciesController.set bucketName document user
  | .removePolicy bucketName user => PoliciesController.delete bucketName user

/-! ## Who may change a bucket -/

section Authority

variable (J : Strings) (row : BucketRow) (w : World)

/-- A caller of the S3 endpoint names the bucket, and is not refused the action there. -/
def Signed (req : S3Types.ConditionValues) (bucket : Text) (identity : S3Types.RequestIdentity)
    (action : S3Types.Action) (key : Option Text) : Prop :=
  bucket = row.name ∧ ¬ Refuses J (some req) identity row action key w

/-- A caller of the management API names the bucket, and has the permission there. -/
def SignedIn (bucketName : Text) (user : Identity) (permission : BucketPermission) : Prop :=
  bucketName = row.name ∧ Permitted row user.guid user.role permission w.db

/-- **What it takes to change the bucket**, or what is in it. -/
def Authorised : Request → Prop
  | .s3 (.put req identity) => Signed J row w req.values req.bucket identity .putObject (some req.key)
  | .s3 (.delete req identity) => Signed J row w req.values req.bucket identity
      (if (Query.present req.uploadId).isSome then .abortMultipartUpload
        else if (Query.present req.versionId).isSome then .deleteObjectVersion else .deleteObject)
      (some req.key)
  | .s3 (.post req identity) => Signed J row w req.values req.bucket identity .putObject (some req.key)
  | .s3 (.createBucket _ _ _) => False
  | .s3 (.putVersioning req identity _) =>
      Signed J row w req.values req.bucket identity .putBucketVersioning none
  | .s3 (.deleteBucket req identity) => Signed J row w req.values req.bucket identity .deleteBucket none
  | .s3 (.deleteObjects req identity _) =>
      Signed J row w req.values req.bucket identity .deleteObject none
  | .putAcl req identity _ _ => Signed J row w req.values req.bucket identity .putBucketAcl none
  | .putPolicy req identity _ => Signed J row w req.values req.bucket identity .putBucketPolicy none
  | .deletePolicy req identity => Signed J row w req.values req.bucket identity .deleteBucketPolicy none
  | .putCors req identity _ => Signed J row w req.values req.bucket identity .putBucketCors none
  | .deleteCors req identity => Signed J row w req.values req.bucket identity .putBucketCors none
  | .api (.createBucket _ _) => False
  | .api (.deleteBucket bucketName user) => SignedIn row w bucketName user .manage
  | .api (.setAcl bucketName _ user) => SignedIn row w bucketName user .manage
  | .api (.setVersioning bucketName _ user) => SignedIn row w bucketName user .manage
  | .api (.upload req user) => SignedIn row w req.bucketName user .write
  | .api (.delete bucketName _ _ _ user) => SignedIn row w bucketName user .delete
  | .api (.createFolder bucketName _ user) => SignedIn row w bucketName user .write
  | .api (.copy req user) => SignedIn row w (req.targetBucket.getD req.bucketName) user .write ∨
      req.move = true ∧ SignedIn row w req.bucketName user .delete
  | .setQuota bucketName _ user => bucketName = row.name ∧ user.role = .admin
  | .setGrant bucketName _ _ user => SignedIn row w bucketName user .manage
  | .removeGrant bucketName _ user => SignedIn row w bucketName user .manage
  | .setPolicy bucketName _ user => SignedIn row w bucketName user .manage
  | .removePolicy bucketName user => SignedIn row w bucketName user .manage

end Authority

end Access
end SimpleStorage
