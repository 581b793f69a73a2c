import SimpleStorage.Objects.AtomicSteps

/-!
# Requests about objects

Everything a client does to the objects of a bucket and to uploads in progress, with the
bucket it resolved earlier.
-/

namespace SimpleStorage
namespace ObjectsService

open ObjectsTypes Program

inductive ObjectRequest where
  | put (params : PutObjectParams)
  | copy (source : ObjectVersionDetail) (target : BucketContext) (key : Text)
      (directive : MetadataDirective) (accessKeyId : Option Text) (headers : ObjectHeaders)
  /-- With a version id, this removes a version for good. -/
  | delete (bucket : BucketContext) (key : Text) (versionId accessKeyId : Option Text)
  | create (bucket : BucketContext) (key : Text) (accessKeyId : Option Text) (headers : ObjectHeaders)
  | uploadPart (bucket : BucketContext) (uploadId : Text) (partNumber : ℤ) (stream : Readable)
      (contentMd5 : Option Text) (declaredLength maxBytes : Option ℕ)
  | complete (bucket : BucketContext) (uploadId : Text) (parts : List CompletePart)
  | abort (bucketGuid : Guid) (uploadId : Text)
  deriving DecidableEq

variable (N : Node)

def ObjectRequest.program : ObjectRequest → Service Unit
  | .put params => do let _ ← ObjectsService.put N params
  | .copy source target key directive accessKeyId headers => do
      let _ ← ObjectsService.copy N source target key directive accessKeyId headers
  | .delete bucket key versionId accessKeyId => do
      let _ ← ObjectsService.delete N bucket key versionId accessKeyId
  | .create bucket key accessKeyId headers => do
      let _ ← createMultipartUpload N bucket key accessKeyId headers
  | .uploadPart bucket uploadId partNumber stream contentMd5 declaredLength maxBytes => do
      let _ ← ObjectsService.uploadPart N bucket uploadId partNumber stream contentMd5 declaredLength
        maxBytes
  | .complete bucket uploadId parts => do
      let _ ← completeMultipartUpload N bucket uploadId parts
  | .abort bucketGuid uploadId => abortMultipartUpload bucketGuid uploadId

theorem ObjectRequest.program_atomic (r : ObjectRequest) : (r.program N).Every (Atomic N) := by
  cases r with
  | put params => exact .bind (put_atomic _) fun _ => .pure _
  | copy source target key directive accessKeyId headers =>
    exact .bind (copy_atomic _ _ _ _ _ _) fun _ => .pure _
  | delete bucket key versionId accessKeyId => exact .bind (delete_atomic _ _ _ _) fun _ => .pure _
  | create bucket key accessKeyId headers =>
    exact .bind (createMultipartUpload_atomic _ _ _ _) fun _ => .pure _
  | uploadPart bucket uploadId partNumber stream contentMd5 declaredLength maxBytes =>
    exact .bind (uploadPart_atomic _ _ _ _ _ _ _) fun _ => .pure _
  | complete bucket uploadId parts => exact .bind (completeMultipartUpload_atomic _ _ _) fun _ => .pure _
  | abort bucketGuid uploadId => exact abortMultipartUpload_atomic bucketGuid uploadId

end ObjectsService
end SimpleStorage
