import SimpleStorage.Auth.AuthService
import SimpleStorage.S3.Controllers

/-!
# The management API

The handlers behind the management interface that create, configure and delete buckets and
that change what is in them: what a request is refused for, the permission it takes, and the
service it is passed to.
-/

namespace SimpleStorage

open Program

namespace BucketsController

open AuthTypes BucketsTypes

variable (N : Node)

def create (name : Text) (user : Identity) : Service BucketItem := BucketsService.create name user.guid

def delete (bucketName : Text) (user : Identity) : Service Unit := do
  let bucket ← BucketsService.getForUser bucketName user.guid user.role .manage
  BucketsService.delete N bucket.guid

def setAcl (bucketName : Text) (acl : BucketAcl) (user : Identity) : Service Unit := do
  let bucket ← BucketsService.getForUser bucketName user.guid user.role .manage
  BucketsService.setAcl bucket.guid acl

/-- There is no way back to `disabled`. -/
def setVersioning (bucketName : Text) (versioning : BucketVersioning) (user : Identity) :
    Service Unit := do
  require (versioning ≠ .disabled) .invalidVersioning
  let bucket ← BucketsService.getForUser bucketName user.guid user.role .manage
  BucketsService.setVersioning bucket.guid versioning

end BucketsController

namespace ObjectsController

open AuthTypes ObjectsTypes

variable (N : Node)

structure UploadRequest where
  bucketName : Text
  key : Text
  stream : Readable
  contentType : Option Text := none
  contentMd5 : Option Text := none
  declaredLength : Option ℕ := none
  deriving DecidableEq

/-- The body is the payload. -/
def upload (maxUploadBytes : ℕ) (req : UploadRequest) (user : Identity) : Service PutObjectResult := do
  let bucket ← BucketsService.getForUser req.bucketName user.guid user.role .write
  ObjectsService.put N {
    bucket := bucket.toBucketContext
    key := req.key
    stream := req.stream
    contentMd5 := req.contentMd5
    declaredLength := req.declaredLength
    maxBytes := some maxUploadBytes
    headers := { contentType := req.contentType } }

/-- Either a key is named or a prefix.  What is returned is how many keys were deleted, and
which were not. -/
def delete (bucketName : Text) (key pre versionId : Option Text) (user : Identity) :
    Service (ℕ × List Text) := do
  let named (value : Option Text) : ℕ := if (Query.present value).isSome then 1 else 0
  require (named key + named pre = 1) .invalidKey
  let bucket ← BucketsService.getForUser bucketName user.guid user.role .delete
  match Query.present pre with
  | some pre =>
      let result ← ObjectsService.deleteByPrefix N bucket.toBucketContext pre none
      return (result.1, result.2.map (·.key))
  | none =>
      let _ ← ObjectsService.delete N bucket.toBucketContext (key.getD []) versionId none
      return (1, [])

def createFolder (bucketName key : Text) (user : Identity) : Service (PutObjectResult × Text) := do
  let bucket ← BucketsService.getForUser bucketName user.guid user.role .write
  ObjectsService.createFolder N bucket.toBucketContext key none

structure CopyRequest where
  bucketName : Text
  sourceKey : Text
  targetBucket : Option Text := none
  targetKey : Text
  move : Bool
  deriving DecidableEq

/-- A move takes the right to delete in the source. -/
def copy (req : CopyRequest) (user : Identity) : Service ℕ := do
  let source ← BucketsService.getForUser req.bucketName user.guid user.role
    (if req.move then .delete else .read)
  let target ← BucketsService.getForUser (req.targetBucket.getD req.bucketName) user.guid user.role
    .write
  ObjectsService.copyKeys N source.toBucketContext target.toBucketContext req.sourceKey req.targetKey
    req.move none

end ObjectsController
end SimpleStorage
