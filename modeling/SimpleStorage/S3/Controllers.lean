import SimpleStorage.S3.S3AuthorizationService

/-!
# The S3 endpoint

The handlers that write: which operation a request selects, what it is authorised for, and
which service it is passed to.  A request is what its URL, headers and body have been read
as; what can only be read after the bucket is resolved is an `Except`.
-/

namespace SimpleStorage

namespace S3Types

/-- What a client is told. -/
inductive Response where
  | done
  | stored (result : ObjectsTypes.PutObjectResult)
  | copied (result : ObjectsTypes.PutObjectResult)
  | storedPart (etag : Text)
  | deleted (result : ObjectsTypes.DeleteResult)
  | deletedMany (result : ObjectsTypes.DeleteManyResult)
  | initiated (uploadId : Text)
  | completed (result : ObjectsService.CompleteResult)
  deriving DecidableEq, Repr

/-- A request on a key. -/
structure ObjectRequest where
  bucket : Text
  key : Text
  values : ConditionValues := {}
  uploadId : Option Text := none
  versionId : Option Text := none
  partNumber : Option ℤ := none
  copySource : Option CopySource := none
  copySourceRange : ℕ → Except Fault (Option StorageTypes.ReadRange) := fun _ => .ok none
  metadataDirective : ObjectsTypes.MetadataDirective := .copy
  payload : Readable := ⟨[], false⟩
  payloadLength : Option ℕ := none
  contentMd5 : Option Text := none
  objectHeaders : ObjectsTypes.ObjectHeaders := {}
  /-- Whether the sub-resource is `uploads`. -/
  uploads : Bool := false
  parts : Except Fault (List ObjectsTypes.CompletePart) := .ok []

/-- A request on a bucket. -/
structure BucketRequest where
  bucket : Text
  values : ConditionValues := {}

end S3Types

open Program S3Types

variable (J : Strings) (N : Node)

/-- The access key a request was signed with. -/
def accessKeyOf (identity : RequestIdentity) : Option Text := Query.present (some identity.accessKeyId)

/-- What was read from a request, or the reason it could not be. -/
def readRequest {α : Type} (x : Except Fault α) : Service α :=
  match x with
  | .ok a => pure a
  | .error e => throw e

theorem readRequest_readOnly {α : Type} (x : Except Fault α) : ReadOnly (readRequest x) := by
  cases x with
  | ok a => exact .pure a
  | error e => exact .throw e

namespace S3ObjectController

open S3AuthorizationService

/-- `PutObject`, `CopyObject`, `UploadPart` and `UploadPartCopy`. -/
def put (maxSingleUploadBytes : ℕ) (req : ObjectRequest) (identity : RequestIdentity) :
    Service Response := do
  let bucket ← resolveBucket J req.values req.bucket identity .putObject (some req.key)
  match Query.present req.uploadId, req.partNumber, req.copySource with
  | some uploadId, some partNumber, some copySource =>
      let source ← resolveCopySource J req.values copySource identity
      let range ← readRequest (req.copySourceRange source.size)
      let part ← ObjectsService.uploadPartCopy N bucket.toBucketContext uploadId partNumber source range
      return .storedPart part.1.etag
  | some uploadId, some partNumber, none =>
      let part ← ObjectsService.uploadPart N bucket.toBucketContext uploadId partNumber req.payload
        req.contentMd5 req.payloadLength (some maxSingleUploadBytes)
      return .storedPart part.etag
  | _, _, some copySource =>
      let source ← resolveCopySource J req.values copySource identity
      let copied ← ObjectsService.copy N source bucket.toBucketContext req.key req.metadataDirective
        (accessKeyOf identity) req.objectHeaders
      return .copied copied.1
  | _, _, none =>
      let written ← ObjectsService.put N {
        bucket := bucket.toBucketContext
        key := req.key
        stream := req.payload
        contentMd5 := req.contentMd5
        accessKeyId := accessKeyOf identity
        declaredLength := req.payloadLength
        maxBytes := some maxSingleUploadBytes
        headers := req.objectHeaders }
      return .stored written

/-- `DeleteObject` and `AbortMultipartUpload`. -/
def delete (req : ObjectRequest) (identity : RequestIdentity) : Service Response := do
  match Query.present req.uploadId with
  | some uploadId =>
      let bucket ← resolveBucket J req.values req.bucket identity .abortMultipartUpload (some req.key)
      ObjectsService.abortMultipartUpload bucket.guid uploadId
      return .done
  | none =>
      let action : Action :=
        if (Query.present req.versionId).isSome then .deleteObjectVersion else .deleteObject
      let bucket ← resolveBucket J req.values req.bucket identity action (some req.key)
      let result ← ObjectsService.delete N bucket.toBucketContext req.key req.versionId
        (accessKeyOf identity)
      return .deleted result

/-- `CreateMultipartUpload` and `CompleteMultipartUpload`. -/
def post (req : ObjectRequest) (identity : RequestIdentity) : Service Response := do
  let bucket ← resolveBucket J req.values req.bucket identity .putObject (some req.key)
  if req.uploads then
    let created ← ObjectsService.createMultipartUpload N bucket.toBucketContext req.key
      (accessKeyOf identity) req.objectHeaders
    return .initiated created
  else
    let uploadId ← orThrow (Query.present req.uploadId) (.notImplemented req.key)
    let parts ← readRequest req.parts
    let completed ← ObjectsService.completeMultipartUpload N bucket.toBucketContext uploadId parts
    return .completed completed

end S3ObjectController

namespace S3BucketController

open S3AuthorizationService

/-- `CreateBucket`. -/
def createBucket (req : BucketRequest) (identity : RequestIdentity) (cannedAcl : Option BucketAcl) :
    Service Response := do
  require (identity.anonymous = false) (.accessDenied req.bucket)
  let existing ← BucketsService.findByName req.bucket
  match existing with
  | some existing =>
      throw (if existing.ownerUserGuid = identity.userGuid then .bucketAlreadyOwnedByYou
        else .bucketAlreadyExists)
  | none =>
      let created ← BucketsService.create req.bucket identity.userGuid
      match cannedAcl with
      | some acl => BucketsService.setAcl created.guid acl
      | none => pure ()
      return .done

/-- The two states `PutBucketVersioning` can ask for. -/
inductive VersioningStatus where
  | enabled | suspended
  deriving DecidableEq, Repr

/-- `PutBucketVersioning`. -/
def putVersioning (req : BucketRequest) (identity : RequestIdentity)
    (status : Except Fault VersioningStatus) : Service Response := do
  let bucket ← resolveBucket J req.values req.bucket identity .putBucketVersioning none
  let status ← readRequest status
  BucketsService.setVersioning bucket.guid (match status with
    | .enabled => .enabled
    | .suspended => .suspended)
  return .done

/-- `PutBucketAcl`.  The header wins over the body. -/
def putAcl (req : BucketRequest) (identity : RequestIdentity)
    (cannedAcl : Except Fault (Option BucketAcl)) (acl : Except Fault BucketAcl) : Service Response := do
  let bucket ← resolveBucket J req.values req.bucket identity .putBucketAcl none
  let cannedAcl ← readRequest cannedAcl
  let acl ← match cannedAcl with
    | some acl => pure acl
    | none => readRequest acl
  BucketsService.setAcl bucket.guid acl
  return .done

/-- `PutBucketPolicy`. -/
def putPolicy (req : BucketRequest) (identity : RequestIdentity)
    (document : Except Fault PoliciesTypes.PolicyDocument) : Service Response := do
  let bucket ← resolveBucket J req.values req.bucket identity .putBucketPolicy none
  let document ← readRequest document
  PoliciesService.set bucket.guid document
  return .done

/-- `PutBucketCors`. -/
def putCors (req : BucketRequest) (identity : RequestIdentity)
    (configuration : Except Fault CorsConfiguration) : Service Response := do
  let bucket ← resolveBucket J req.values req.bucket identity .putBucketCors none
  let configuration ← readRequest configuration
  BucketsService.setCors bucket.guid configuration
  return .done

/-- `DeleteBucket`. -/
def delete (req : BucketRequest) (identity : RequestIdentity) : Service Response := do
  let bucket ← resolveBucket J req.values req.bucket identity .deleteBucket none
  BucketsService.delete N bucket.guid
  return .done

/-- `DeleteObjects`. -/
def post (req : BucketRequest) (identity : RequestIdentity)
    (objects : Except Fault (List ObjectsTypes.DeleteEntry)) : Service Response := do
  let bucket ← resolveBucket J req.values req.bucket identity .deleteObject none
  let objects ← readRequest objects
  let result ← ObjectsService.deleteMany N bucket.toBucketContext (accessKeyOf identity) objects
  return .deletedMany result

end S3BucketController
end SimpleStorage
