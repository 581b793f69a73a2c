import SimpleStorage.Usage.UsageService

/-!
# What object operations take and give
-/

namespace SimpleStorage
namespace ObjectsTypes

/-- The version id of objects in a bucket without versioning. -/
def nullVersionId : Text := "null".toList

/-- Every part but the last has to be at least this long. -/
def minPartSize : ℕ := 5 * 1024 * 1024

def folderSuffix : Text := ['/']

inductive MetadataDirective
  | copy | replace
  deriving DecidableEq, Repr

/-- The headers a client sends along. -/
structure ObjectHeaders where
  contentType : Option Text := none
  contentEncoding : Option Text := none
  cacheControl : Option Text := none
  contentDisposition : Option Text := none
  metadata : Option (List (Text × Text)) := none
  storageClass : Option StorageClass := none
  deriving DecidableEq, Repr

/-- The bucket an operation runs against. -/
structure BucketContext extends UsageTypes.QuotaTarget where
  versioning : BucketVersioning
  deriving DecidableEq, Repr

structure PutObjectParams where
  bucket : BucketContext
  key : Text
  stream : Readable
  contentMd5 : Option Text := none
  accessKeyId : Option Text := none
  declaredLength : Option ℕ := none
  maxBytes : Option ℕ := none
  headers : ObjectHeaders := {}
  deriving DecidableEq, Repr

structure PutObjectResult where
  versionId : Text
  etag : Text
  size : ℕ
  encryption : Option StorageTypes.BlobEncryption
  deriving DecidableEq, Repr

/-- One stored version, with all that is needed to serve it. -/
structure ObjectVersionDetail where
  objectGuid : Guid
  versionGuid : Guid
  key : Text
  versionId : Text
  isLatest : Bool
  isDeleteMarker : Bool
  size : ℕ
  etag : Text
  storagePath : Option Text
  encryption : Option StorageTypes.BlobEncryption
  headers : HeaderColumns
  lastModified : Timestamp
  deriving DecidableEq, Repr

structure DeleteResult where
  versionId : Option Text := none
  isDeleteMarker : Bool
  deriving DecidableEq, Repr

/-- A key to delete, or one version of it. -/
structure DeleteEntry where
  key : Text
  versionId : Option Text := none
  deriving DecidableEq, Repr

structure DeletedEntry where
  key : Text
  versionId : Option Text
  deleteMarker : Bool
  deleteMarkerVersionId : Option Text
  deriving DecidableEq, Repr

structure DeleteErrorEntry where
  key : Text
  code : Text
  fault : Fault
  deriving DecidableEq, Repr

structure DeleteManyResult where
  deleted : List DeletedEntry := []
  errors : List DeleteErrorEntry := []
  deriving DecidableEq, Repr

/-- One part a client lists to complete an upload. -/
structure CompletePart where
  partNumber : ℤ
  etag : Text
  deriving DecidableEq, Repr

end ObjectsTypes
end SimpleStorage
