import SimpleStorage.Database.Query
import SimpleStorage.Library.ReadCommitted
import SimpleStorage.Objects.Types

/-!
# The statements and transactions on the object tables

What `ObjectsService` asks the database for, and the three transactions it runs: committing
a version, removing one and dropping a key.  Rows are inserted behind the others, and what
the database generates for a new row (its guid, and the time of the transaction) is a
parameter.
-/

namespace SimpleStorage
namespace Statements

open Query ReadCommitted ObjectsTypes

/-! ## Reading -/

def findObject (bucketGuid : Guid) (key : Text) (db : Database) : Option ObjectRow :=
  db.objects.find? fun o => o.bucketGuid = bucketGuid && o.key = key

def findVersionByGuid (guid : Option Guid) (db : Database) : Option ObjectVersionRow :=
  db.objectVersions.find? fun v => some v.guid = guid

def findVersion (objectGuid : Guid) (versionId : Text) (db : Database) : Option ObjectVersionRow :=
  db.objectVersions.find? fun v => v.objectGuid = objectGuid && v.versionId = versionId

/-- The versions of a key, in the order they were inserted. -/
def versionsOf (objectGuid : Guid) (db : Database) : List ObjectVersionRow :=
  db.objectVersions.filter (·.objectGuid = objectGuid)

/-- Every key under a prefix, in the order of its bytes. -/
def keysUnder (bucketGuid : Guid) (pre : Text) (db : Database) : List Text :=
  ((db.objects.filter fun o => o.bucketGuid = bucketGuid && likePrefix o.key pre).map
    (·.key)).insertionSort fun k l => ¬ Utf8.encode l < Utf8.encode k

/-! ## Writing -/

/-- Insert a key's row, unless it is there. -/
def upsertObject (guid bucketGuid : Guid) (key : Text) (db : Database) : ObjectRow × Database :=
  match findObject bucketGuid key db with
  | some row => (row, db)
  | none =>
      let row : ObjectRow := ⟨guid, bucketGuid, key, none⟩
      (row, { db with objects := db.objects ++ [row] })

/-- Delete the versions with a property, and return them. -/
def deleteVersions (p : ObjectVersionRow → Bool) (db : Database) : List ObjectVersionRow × Database :=
  (db.objectVersions.filter p, { db with objectVersions := db.objectVersions.filter (!p ·) })

def insertVersion (v : ObjectVersionRow) (db : Database) : Database :=
  { db with objectVersions := db.objectVersions ++ [v] }

/-- Point a key at its latest version. -/
def pointLatest (objectGuid versionGuid : Guid) (db : Database) : Database :=
  { db with objects := db.objects.map fun o =>
      if o.guid = objectGuid then { o with latestVersionGuid := some versionGuid } else o }

def deleteObject (objectGuid : Guid) (db : Database) : Database :=
  { db with objects := db.objects.filter (·.guid ≠ objectGuid) }

/-- The storage paths of versions that have one. -/
def storagePaths (versions : List ObjectVersionRow) : List Text :=
  versions.filterMap fun v => present v.storagePath

/-! ## The transactions -/

/-- What `commitVersion` is told about the version. -/
structure VersionValues where
  isDeleteMarker : Bool := false
  size : ℕ
  etag : Text
  headers : HeaderColumns := {}
  storagePath : Option Text
  sse : EncryptionColumns := {}
  createdByAccessKeyId : Option Text
  deriving DecidableEq, Repr

def VersionValues.row (values : VersionValues) (guid objectGuid : Guid) (versionId : Text)
    (createdAt : Timestamp) : ObjectVersionRow where
  guid
  objectGuid
  versionId
  isDeleteMarker := values.isDeleteMarker
  size := values.size
  etag := values.etag
  headers := values.headers
  storagePath := values.storagePath
  sse := values.sse
  createdByAccessKeyId := values.createdByAccessKeyId
  createdAt

/-- Insert a version and point its key at it.  A `null` version replaces the one there is,
whose storage path is returned. -/
def commitVersion (guid : Guid) (createdAt : Timestamp) (bucketGuid : Guid)
    (key versionId : Text) (values : VersionValues) (db : Database) : List Text × Database :=
  let (objectRow, db) := upsertObject guid bucketGuid key db
  let (replaced, db) :=
    if versionId = nullVersionId then
      deleteVersions (fun v => v.objectGuid = objectRow.guid && v.versionId = nullVersionId) db
    else ([], db)
  let version := values.row guid objectRow.guid versionId createdAt
  (storagePaths replaced, pointLatest objectRow.guid version.guid (insertVersion version db))

/-- The newest version of a key. -/
def newestVersion (objectGuid : Guid) (db : Database) : Option ObjectVersionRow :=
  newestBy (·.createdAt) (versionsOf objectGuid db)

/-- Remove a version, and the key with its last one. -/
def removeVersion (objectGuid versionGuid : Guid) (db : Database) : Database :=
  let (_, db) := deleteVersions (·.guid = versionGuid) db
  match newestVersion objectGuid db with
  | some newest => pointLatest objectGuid newest.guid db
  | none => deleteObject objectGuid db

/-- Drop a key with all its versions, and return their storage paths. -/
def purgeObject (objectGuid : Guid) (db : Database) : List Text × Database :=
  let (removed, db) := deleteVersions (·.objectGuid = objectGuid) db
  (storagePaths removed, deleteObject objectGuid db)

/-! ## Uploads -/

def findUpload (bucketGuid : Guid) (uploadId : Text) (db : Database) : Option MultipartUploadRow :=
  db.multipartUploads.find? fun u =>
    u.uploadId = uploadId && u.bucketGuid = bucketGuid && u.status = .inProgress

def insertUpload (u : MultipartUploadRow) (db : Database) : Database :=
  { db with multipartUploads := db.multipartUploads ++ [u] }

def setUploadStatus (uploadGuid : Guid) (status : MultipartUploadStatus) (db : Database) : Database :=
  { db with multipartUploads := db.multipartUploads.map fun u =>
      if u.guid = uploadGuid then { u with status } else u }

/-- The parts of an upload. -/
def partsOf (uploadGuid : Guid) (db : Database) : List MultipartPartRow :=
  db.multipartParts.filter (·.uploadGuid = uploadGuid)

/-- The parts of an upload by their numbers. -/
def orderedParts (uploadGuid : Guid) (db : Database) : List MultipartPartRow :=
  (partsOf uploadGuid db).insertionSort (·.partNumber ≤ ·.partNumber)

def findPart (uploadGuid : Guid) (partNumber : ℤ) (db : Database) : Option MultipartPartRow :=
  db.multipartParts.find? fun p => p.uploadGuid = uploadGuid && p.partNumber = partNumber

/-- Insert a part, or give the one with its number new contents. -/
def upsertPart (part : MultipartPartRow) (db : Database) : Database :=
  { db with multipartParts :=
      match findPart part.uploadGuid part.partNumber db with
      | some _ => db.multipartParts.map fun p =>
          if p.uploadGuid = part.uploadGuid ∧ p.partNumber = part.partNumber then
            { p with
              size := part.size
              etag := part.etag
              storagePath := part.storagePath
              sse := part.sse }
          else p
      | none => db.multipartParts ++ [part] }

def deleteParts (uploadGuid : Guid) (db : Database) : Database :=
  { db with multipartParts := db.multipartParts.filter (·.uploadGuid ≠ uploadGuid) }

end Statements
end SimpleStorage
