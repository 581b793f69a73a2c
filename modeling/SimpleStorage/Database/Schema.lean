import Mathlib.Data.Rat.Init
import SimpleStorage.Policies.Types

/-!
# The schema

One structure per table and one list of rows per table.  Columns no service reads
(`updatedAt`, a bucket's region, the accounts' names) are left out.

The constraints of the schema are what `Database.Constraints` collects: primary keys,
unique indexes and foreign keys.
-/

namespace SimpleStorage

/-- The headers stored with a version or an upload. -/
structure HeaderColumns where
  contentType : Option Text := none
  contentEncoding : Option Text := none
  cacheControl : Option Text := none
  contentDisposition : Option Text := none
  storageClass : StorageClass := .standard
  metadata : Option (List (Text × Text)) := none
  deriving DecidableEq, Repr

/-- How a blob is stored: the algorithm and, if it is encrypted, its wrapped key. -/
structure EncryptionColumns where
  encryption : ServerSideEncryption := .none
  encryptionKey : Option Text := none
  deriving DecidableEq, Repr

structure UserRow where
  guid : UserGuid
  email : Text := []
  passwordHash : Text := []
  role : UserRole := .user
  status : UserStatus := .active
  quotaBytes : Option ℤ := none
  lastLoginAt : Option Timestamp := none
  deletedAt : Option Timestamp := none
  deriving DecidableEq, Repr

/-- A session of the management interface.  Of its refresh token only the hash is kept. -/
structure UserSessionRow where
  guid : Guid
  userGuid : UserGuid
  refreshTokenHash : Text
  userAgent : Option Text := none
  expiresAt : Timestamp
  revokedAt : Option Timestamp := none
  deriving DecidableEq, Repr

/-- The credentials of an S3 client.  The secret is kept encrypted. -/
structure AccessKeyRow where
  accessKeyId : Text
  userGuid : UserGuid
  secretKeyEncrypted : Text
  description : Option Text := none
  status : AccessKeyStatus := .active
  expiresAt : Option Timestamp := none
  lastUsedAt : Option Timestamp := none
  createdAt : Timestamp
  deletedAt : Option Timestamp := none
  deriving DecidableEq, Repr

namespace S3Types

/-- `CORSRule` of a bucket's `CORSConfiguration`. -/
structure CorsRule where
  id : Option Text := none
  allowedOrigins : List Text
  allowedMethods : List Text
  allowedHeaders : List Text := []
  exposeHeaders : List Text := []
  /-- A number that is not finite is stored as `null`. -/
  maxAgeSeconds : Option (Option ℚ) := none
  deriving DecidableEq, Repr

structure CorsConfiguration where
  rules : List CorsRule
  deriving DecidableEq, Repr

end S3Types

structure BucketRow where
  guid : Guid
  name : Text
  ownerUserGuid : UserGuid
  acl : BucketAcl := .privateAcl
  versioning : BucketVersioning := .disabled
  quotaBytes : Option ℤ := none
  deletedAt : Option Timestamp := none
  cors : Option S3Types.CorsConfiguration := none
  deriving DecidableEq, Repr

structure BucketPolicyRow where
  bucketGuid : Guid
  document : PoliciesTypes.PolicyDocument
  deriving DecidableEq, Repr

structure BucketAccessRow where
  bucketGuid : Guid
  userGuid : UserGuid
  permissions : List BucketPermission
  deriving DecidableEq, Repr

structure ObjectRow where
  guid : Guid
  bucketGuid : Guid
  key : Text
  latestVersionGuid : Option Guid
  deriving DecidableEq, Repr

structure ObjectVersionRow where
  guid : Guid
  objectGuid : Guid
  versionId : Text
  isDeleteMarker : Bool := false
  size : ℕ := 0
  etag : Text
  headers : HeaderColumns := {}
  storagePath : Option Text := none
  sse : EncryptionColumns := {}
  createdByAccessKeyId : Option Text := none
  createdAt : Timestamp
  deriving DecidableEq, Repr

structure MultipartUploadRow where
  guid : Guid
  uploadId : Text
  bucketGuid : Guid
  key : Text
  status : MultipartUploadStatus := .inProgress
  headers : HeaderColumns := {}
  initiatedByAccessKeyId : Option Text := none
  createdAt : Timestamp
  deriving DecidableEq, Repr

structure MultipartPartRow where
  uploadGuid : Guid
  partNumber : ℤ
  size : ℕ
  etag : Text
  storagePath : Text
  sse : EncryptionColumns := {}
  createdAt : Timestamp
  deriving DecidableEq, Repr

/-- The tables. -/
structure Database where
  users : List UserRow := []
  userSessions : List UserSessionRow := []
  accessKeys : List AccessKeyRow := []
  buckets : List BucketRow := []
  bucketPolicies : List BucketPolicyRow := []
  bucketAccess : List BucketAccessRow := []
  objects : List ObjectRow := []
  objectVersions : List ObjectVersionRow := []
  multipartUploads : List MultipartUploadRow := []
  multipartParts : List MultipartPartRow := []
  deriving DecidableEq, Repr

namespace Database

/-- **The constraints of the object tables**: primary keys, unique indexes and foreign keys. -/
structure Constraints (db : Database) : Prop where
  object_guid : (db.objects.map (·.guid)).Nodup
  object_key : (db.objects.map fun o => (o.bucketGuid, o.key)).Nodup
  version_guid : (db.objectVersions.map (·.guid)).Nodup
  version_id : (db.objectVersions.map fun v => (v.objectGuid, v.versionId)).Nodup
  version_object : ∀ v ∈ db.objectVersions, ∃ o ∈ db.objects, o.guid = v.objectGuid

end Database
end SimpleStorage
