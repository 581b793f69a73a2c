import SimpleStorage.Objects.Statements
import SimpleStorage.Storage.StorageService

/-!
# Writing, reading and deleting objects

The methods of the object service that link rows to blobs.  Metadata is committed before a
blob is deleted, and a blob is written before its metadata is committed, so every method is
a sequence of blob writes, one transaction, and blob deletes.
-/

namespace SimpleStorage
namespace ObjectsService

open ObjectsTypes Program Statements

variable (N : Node)

/-! ## Checks and conversions -/

/-- S3's own limit on a key, in UTF-8 bytes. -/
def maxKeyBytes : ℕ := 1024

/-- What a folder's marker object is stored as. -/
def folderContentType : Text := "application/x-directory".toList

def isControl (c : Char) : Bool := c.toNat ≤ 0x1f || c.toNat = 0x7f

/-- Not empty, not too long and without control characters. -/
def ValidKey (key : Text) : Prop :=
  key ≠ [] ∧ (Utf8.encode key).length ≤ maxKeyBytes ∧ key.any isControl = false

instance (key : Text) : Decidable (ValidKey key) := inferInstanceAs (Decidable (_ ∧ _))

def assertValidKey (key : Text) : Service Unit := require (ValidKey key) .invalidKey

/-- An announced length is refused before a byte is read. -/
def WithinMaxBytes (declaredLength maxBytes : Option ℕ) : Prop :=
  ∀ d ∈ declaredLength, ∀ m ∈ maxBytes, d ≤ m

instance (declaredLength maxBytes : Option ℕ) : Decidable (WithinMaxBytes declaredLength maxBytes) :=
  inferInstanceAs (Decidable (∀ d ∈ declaredLength, ∀ m ∈ maxBytes, d ≤ m))

def assertWithinMaxBytes (declaredLength maxBytes : Option ℕ) : Service Unit :=
  require (WithinMaxBytes declaredLength maxBytes) .payloadTooLarge

/-- The digest a client claims, if it claims one, is the payload's. -/
def DigestMatches (contentMd5 : Option Text) (etag : Text) : Prop :=
  ∀ md5 ∈ Query.present contentMd5,
    (Codec.unbase64 md5).length = 16 ∧ Codec.hex (Codec.unbase64 md5) = etag

instance (contentMd5 : Option Text) (etag : Text) : Decidable (DigestMatches contentMd5 etag) :=
  inferInstanceAs (Decidable (∀ md5 ∈ Query.present contentMd5, _))

def assertContentMd5 (contentMd5 : Option Text) (etag : Text) : Service Unit :=
  require (DigestMatches contentMd5 etag) .badDigest

def nextVersionId (versioning : BucketVersioning) : Service Text :=
  match versioning with
  | .enabled => do return Codec.hex (N.randomBytes (← World.nextCall) 16)
  | _ => return nullVersionId

def toEncryptionColumns (encryption : Option StorageTypes.BlobEncryption) : EncryptionColumns :=
  match encryption with
  | some descriptor => ⟨.aes256, some descriptor.wrappedKey⟩
  | none => ⟨.none, none⟩

def toBlobEncryption (row : EncryptionColumns) : Option StorageTypes.BlobEncryption :=
  match row.encryption, Query.present row.encryptionKey with
  | .aes256, some wrappedKey => some ⟨wrappedKey⟩
  | _, _ => none

def toVersionColumns (headers : ObjectHeaders) : HeaderColumns where
  contentType := headers.contentType
  contentEncoding := headers.contentEncoding
  cacheControl := headers.cacheControl
  contentDisposition := headers.contentDisposition
  storageClass := headers.storageClass.getD .standard
  metadata := headers.metadata

def toVersionDetail (key : Text) (latestVersionGuid : Option Guid) (version : ObjectVersionRow) :
    ObjectVersionDetail where
  objectGuid := version.objectGuid
  versionGuid := version.guid
  key
  versionId := version.versionId
  isLatest := some version.guid = latestVersionGuid
  isDeleteMarker := version.isDeleteMarker
  size := version.size
  etag := version.etag
  storagePath := version.storagePath
  encryption := toBlobEncryption version.sse
  headers := version.headers
  lastModified := version.createdAt

def deleteBlobs (storagePaths : List Text) : Service Unit := storagePaths.forM StorageService.delete

/-! ## Writing and reading one key -/

/-- The transaction that commits a version, at the time it starts. -/
def commitVersion (bucket : BucketContext) (key versionId : Text) (values : VersionValues) :
    Service (List Text) :=
  World.insertFor (fun call =>
      some (.committedVersion bucket.guid key values.storagePath values.size call))
    fun call => Statements.commitVersion call (N.now call) bucket.guid key versionId values

def put (params : PutObjectParams) : Service PutObjectResult := do
  assertValidKey params.key
  assertWithinMaxBytes params.declaredLength params.maxBytes
  UsageService.assertQuota params.bucket.toQuotaTarget (params.declaredLength.getD 0)
  let written ← StorageService.write N params.stream params.maxBytes
  tryCatch (do
    assertContentMd5 params.contentMd5 written.etag
    UsageService.assertQuota params.bucket.toQuotaTarget written.size) fun err => do
      StorageService.delete written.storagePath
      throw err
  let versionId ← nextVersionId N params.bucket.versioning
  let replaced ← commitVersion N params.bucket params.key versionId {
    size := written.size
    etag := written.etag
    headers := toVersionColumns params.headers
    storagePath := some written.storagePath
    sse := toEncryptionColumns written.encryption
    createdByAccessKeyId := params.accessKeyId }
  deleteBlobs replaced
  return { versionId, etag := written.etag, size := written.size, encryption := written.encryption }

/-- The headers of a copy. -/
def inheritedHeaders (source : HeaderColumns) (directive : MetadataDirective) (headers : ObjectHeaders) :
    ObjectHeaders :=
  match directive with
  | .replace => headers
  | .copy => {
      contentType := source.contentType
      contentEncoding := source.contentEncoding
      cacheControl := source.cacheControl
      contentDisposition := source.contentDisposition
      metadata := source.metadata
      storageClass := some (headers.storageClass.getD source.storageClass) }

def copy (source : ObjectVersionDetail) (target : BucketContext) (key : Text)
    (metadataDirective : MetadataDirective) (accessKeyId : Option Text) (headers : ObjectHeaders) :
    Service (PutObjectResult × Timestamp) := do
  let storagePath ← orThrow (Query.present source.storagePath) .objectNotFound
  let payload ← StorageService.read N storagePath none source.encryption
  let result ← put N {
    bucket := target
    key
    stream := payload.stream
    accessKeyId
    headers := inheritedHeaders source.headers metadataDirective headers }
  return (result, N.now (← World.nextCall))

/-- The version row of a key: the one asked for, or the one the key points at. -/
def selectVersion (found : ObjectRow) (versionId : Option Text) (db : Database) :
    Option ObjectVersionRow :=
  match Query.present versionId with
  | some versionId => findVersion found.guid versionId db
  | none => findVersionByGuid found.latestVersionGuid db

/-- The version a read serves: the one asked for, or the key's newest. -/
def getVersion (bucketGuid : Guid) (key : Text) (versionId : Option Text) :
    Service ObjectVersionDetail := do
  let found ← World.selectFor (fun _ => some (.readObject bucketGuid key))
    (findObject bucketGuid key)
  let found ← orThrow found .objectNotFound
  let version ← World.selectFor
    (fun db => (selectVersion found versionId db).map (.readVersion ·.storagePath))
    (selectVersion found versionId)
  let version ← orThrow version
    (if (Query.present versionId).isSome then .versionNotFound else .objectNotFound)
  return toVersionDetail found.key found.latestVersionGuid version

theorem getVersion_readOnly (bucketGuid : Guid) (key : Text) (versionId : Option Text) :
    ReadOnly (getVersion bucketGuid key versionId) :=
  .bind (World.selectFor_readOnly _ _) fun _ => .bind (.orThrow _ _) fun _ =>
    .bind (World.selectFor_readOnly _ _) fun _ => .bind (.orThrow _ _) fun _ => .pure _

def readPayload (storagePath : Text) (range : Option StorageTypes.ReadRange)
    (encryption : Option StorageTypes.BlobEncryption) : Service StorageService.ReadResult :=
  StorageService.read N storagePath range encryption

/-! ## Deleting -/

/-- Removes one version for good, and the key with its last one. -/
def deleteVersion (objectGuid : Guid) (versionId : Text) : Service DeleteResult := do
  let version ← World.select (findVersion objectGuid versionId)
  let version ← orThrow version .versionNotFound
  World.execute fun db => ((), removeVersion objectGuid version.guid db)
  deleteBlobs (Query.present version.storagePath).toList
  return { versionId := some versionId, isDeleteMarker := version.isDeleteMarker }

def delete (bucket : BucketContext) (key : Text) (versionId accessKeyId : Option Text) :
    Service DeleteResult := do
  let found ← World.select (findObject bucket.guid key)
  match found with
  | none => return { isDeleteMarker := false }
  | some found =>
      match Query.present versionId with
      | some versionId => deleteVersion found.guid versionId
      | none =>
          if bucket.versioning = .disabled then
            deleteBlobs (← World.execute (purgeObject found.guid))
            return { isDeleteMarker := false }
          else
            let markerVersionId ← nextVersionId N bucket.versioning
            let replaced ← commitVersion N bucket key markerVersionId {
              isDeleteMarker := true
              size := 0
              etag := []
              storagePath := none
              createdByAccessKeyId := accessKeyId }
            deleteBlobs replaced
            return { versionId := some markerVersionId, isDeleteMarker := true }

/-- Every key is tried, and a failure is reported with the key. -/
def deleteMany (bucket : BucketContext) (accessKeyId : Option Text) :
    List DeleteEntry → Service DeleteManyResult
  | [] => return {}
  | entry :: rest => do
      let outcome ← tryCatch
        (do return Except.ok (← delete N bucket entry.key entry.versionId accessKeyId))
        fun err => return Except.error err
      let others ← deleteMany bucket accessKeyId rest
      match outcome with
      | .ok result => return { others with
          deleted := {
            key := entry.key
            versionId := entry.versionId
            deleteMarker := result.isDeleteMarker
            deleteMarkerVersionId := if result.isDeleteMarker then result.versionId else none }
            :: others.deleted }
      | .error err => return { others with
          errors := {
            key := entry.key
            code := (if err = .versionNotFound then "NoSuchVersion" else "InternalError").toList
            fault := err } :: others.errors }

/-- Deletes every key under a prefix; an empty prefix is refused. -/
def deleteByPrefix (bucket : BucketContext) (pre : Text) (accessKeyId : Option Text) :
    Service (ℕ × List DeleteErrorEntry) := do
  require (pre ≠ []) .invalidKey
  let keys ← World.select (keysUnder bucket.guid pre)
  let result ← deleteMany N bucket accessKeyId (keys.map fun key => { key })
  return (result.deleted.length, result.errors)

/-- Creates the empty key that stands for a folder. -/
def createFolder (bucket : BucketContext) (key : Text) (accessKeyId : Option Text) :
    Service (PutObjectResult × Text) := do
  let folderKey := if folderSuffix <:+ key then key else key ++ folderSuffix
  assertValidKey folderKey
  require (folderKey ≠ folderSuffix) .invalidKey
  let existing ← World.select (findObject bucket.guid folderKey)
  require (existing = none) .objectAlreadyExists
  let created ← put N {
    bucket
    key := folderKey
    stream := ⟨[], false⟩
    accessKeyId
    declaredLength := some 0
    headers := { contentType := some folderContentType } }
  return (created, folderKey)

/-! ## Copying and moving keys -/

/-- Where the key of a copied folder goes. -/
def destinationOf (isFolder : Bool) (sourceKey targetPrefix key : Text) : Text :=
  if isFolder then targetPrefix ++ key.drop sourceKey.length else targetPrefix

/-- Copies the live ones of the keys. -/
def copyEach (source target : BucketContext) (accessKeyId : Option Text) (destination : Text → Text)
    (keys : List Text) : Service Unit :=
  keys.forM fun key => do
    let version ← getVersion source.guid key none
    if version.isDeleteMarker then
      pure ()
    else
      let _ ← copy N version target (destination key) .copy accessKeyId {}

/-- Copies a key or, if it ends in `/`, a whole folder, and deletes the source to move it. -/
def copyKeys (source target : BucketContext) (sourceKey targetKey : Text) (move : Bool)
    (accessKeyId : Option Text) : Service ℕ := do
  require (sourceKey ≠ [] ∧ targetKey ≠ []) .invalidKey
  require (¬ (source.guid = target.guid ∧ sourceKey = targetKey)) .invalidKey
  let isFolder : Bool := folderSuffix.isSuffixOf sourceKey
  require (¬ (isFolder ∧ source.guid = target.guid ∧ sourceKey <+: targetKey)) .invalidKey
  let keys ← if isFolder then World.select (keysUnder source.guid sourceKey) else pure [sourceKey]
  require (keys ≠ []) .objectNotFound
  let targetPrefix :=
    if isFolder ∧ ¬ folderSuffix <:+ targetKey then targetKey ++ folderSuffix else targetKey
  copyEach N source target accessKeyId (destinationOf isFolder sourceKey targetPrefix) keys
  if move then
    let _ ← deleteMany N source accessKeyId (keys.map fun key => { key })
  return keys.length

/-! ## Uploads in parts -/

def createMultipartUpload (bucket : BucketContext) (key : Text) (accessKeyId : Option Text)
    (headers : ObjectHeaders) : Service Text := do
  let uploadId := Codec.base64url.encode (N.randomBytes (← World.nextCall) 24)
  World.insertFor (fun _ => none) fun call db => ((), insertUpload {
    guid := call
    uploadId
    bucketGuid := bucket.guid
    key
    headers := toVersionColumns headers
    initiatedByAccessKeyId := accessKeyId
    createdAt := N.now call } db)
  return uploadId

def requireUpload (bucketGuid : Guid) (uploadId : Text) : Service MultipartUploadRow := do
  let found ← World.selectFor
    (fun db => (findUpload bucketGuid uploadId db).map (.requiredUpload ·.guid))
    (findUpload bucketGuid uploadId)
  orThrow found .uploadNotFound

structure UploadPartResult where
  etag : Text
  size : ℕ
  encryption : Option StorageTypes.BlobEncryption
  deriving DecidableEq, Repr

def uploadPart (bucket : BucketContext) (uploadId : Text) (partNumber : ℤ) (stream : Readable)
    (contentMd5 : Option Text) (declaredLength maxBytes : Option ℕ) : Service UploadPartResult := do
  let upload ← requireUpload bucket.guid uploadId
  require (1 ≤ partNumber ∧ partNumber ≤ 10000) .invalidPart
  assertWithinMaxBytes declaredLength maxBytes
  UsageService.assertQuota bucket.toQuotaTarget (declaredLength.getD 0)
  let written ← StorageService.write N stream maxBytes
  tryCatch (do
    assertContentMd5 contentMd5 written.etag
    UsageService.assertQuota bucket.toQuotaTarget written.size) fun err => do
      StorageService.delete written.storagePath
      throw err
  let previous ← World.select (findPart upload.guid partNumber)
  World.insertFor (fun call =>
      some (.storedPart bucket.guid upload.guid written.storagePath written.size call))
    fun call db => ((), upsertPart {
      uploadGuid := upload.guid
      partNumber
      size := written.size
      etag := written.etag
      storagePath := written.storagePath
      sse := toEncryptionColumns written.encryption
      createdAt := N.now call } db)
  deleteBlobs (previous.map (·.storagePath)).toList
  return { etag := written.etag, size := written.size, encryption := written.encryption }

def uploadPartCopy (bucket : BucketContext) (uploadId : Text) (partNumber : ℤ)
    (source : ObjectVersionDetail) (range : Option StorageTypes.ReadRange) :
    Service (UploadPartResult × Timestamp) := do
  let storagePath ← orThrow (Query.present source.storagePath) .objectNotFound
  let payload ← StorageService.read N storagePath range source.encryption
  let result ← uploadPart N bucket uploadId partNumber payload.stream none none none
  return (result, source.lastModified)

/-- The stored parts a client lists, in ascending order, with their etags, and long enough but
for the last. -/
def matchRequestedParts (stored : List MultipartPartRow) :
    Option ℤ → List CompletePart → Except Fault (List MultipartPartRow)
  | _, [] => .ok []
  | previous, part :: rest =>
      if previous.any (part.partNumber ≤ ·) then .error .invalidPartOrder
      else
        match stored.find? (·.partNumber = part.partNumber) with
        | none => .error .invalidPart
        | some found =>
            if found.etag ≠ part.etag.filter (· ≠ '"') then .error .invalidPart
            else if rest ≠ [] ∧ found.size < minPartSize then .error .partTooSmall
            else (matchRequestedParts stored (some part.partNumber) rest).map (found :: ·)

/-- The digest of the digests, and how many there were. -/
def multipartEtag (partEtags : List Text) : Text :=
  Codec.hex (N.md5 (partEtags.flatMap Codec.unhex)) ++ '-' :: Nat.toDigits 10 partEtags.length

/-- What a completed upload gave. -/
structure CompleteResult extends PutObjectResult where
  key : Text
  deriving DecidableEq, Repr

def completeMultipartUpload (bucket : BucketContext) (uploadId : Text) (parts : List CompletePart) :
    Service CompleteResult := do
  let upload ← requireUpload bucket.guid uploadId
  require (parts ≠ []) .invalidPart
  let stored ← World.select (orderedParts upload.guid)
  let ordered ← match matchRequestedParts stored none parts with
    | .ok ordered => pure ordered
    | .error err => throw err
  let concatenated ← StorageService.concat N (ordered.map fun part =>
    ⟨part.storagePath, toBlobEncryption part.sse⟩)
  let etag := multipartEtag N (ordered.map (·.etag))
  let versionId ← nextVersionId N bucket.versioning
  let replaced ← commitVersion N bucket upload.key versionId {
    size := concatenated.size
    etag
    headers := upload.headers
    storagePath := some concatenated.storagePath
    sse := toEncryptionColumns concatenated.encryption
    createdByAccessKeyId := upload.initiatedByAccessKeyId }
  World.executeFor (.retiredUpload upload.guid) fun db =>
    ((), setUploadStatus upload.guid .completed db)
  World.executeFor (.droppedParts upload.guid) fun db => ((), deleteParts upload.guid db)
  deleteBlobs (stored.map (·.storagePath) ++ replaced)
  return {
    key := upload.key
    versionId
    etag
    size := concatenated.size
    encryption := concatenated.encryption }

def abortMultipartUpload (bucketGuid : Guid) (uploadId : Text) : Service Unit := do
  let upload ← requireUpload bucketGuid uploadId
  let parts ← World.select (partsOf upload.guid)
  World.executeFor (.droppedParts upload.guid) fun db => ((), deleteParts upload.guid db)
  World.executeFor (.retiredUpload upload.guid) fun db =>
    ((), setUploadStatus upload.guid .aborted db)
  deleteBlobs (parts.map (·.storagePath))

end ObjectsService
end SimpleStorage
