import SimpleStorage.Database.Schema
import SimpleStorage.Library.FileTable
import SimpleStorage.Library.Program

/-!
# What a request runs on

The tables, the files of the data root and the deployment's storage settings, together
with the number of calls made so far to what is different each time: the random generator
and the clock.  A service method is a program on that state, whose atomic steps are single
statements, whole transactions, and writing, opening or removing a file.
-/

namespace SimpleStorage

/-- A file of the data root. -/
structure Blob where
  content : Bytes
  modifiedAt : Timestamp
  deriving DecidableEq, Repr

namespace StorageTypes

structure EncryptionConfig where
  enabled : Bool
  masterKey : Text
  deriving DecidableEq, Repr

/-- What has to be kept of an encrypted blob: its data key and its counter, under the
deployment's master key.  The algorithm is always the same. -/
structure BlobEncryption where
  wrappedKey : Text
  deriving DecidableEq, Repr

/-- An unwrapped data key. -/
structure BlobKey where
  key : Bytes
  iv : Bytes
  descriptor : BlobEncryption
  deriving DecidableEq, Repr

structure WriteResult where
  storagePath : Text
  size : ℕ
  etag : Text
  encryption : Option BlobEncryption
  deriving DecidableEq, Repr

/-- The first and the last byte wanted. -/
structure ReadRange where
  start : ℕ
  «end» : ℕ
  deriving DecidableEq, Repr

end StorageTypes

/-- What a service method throws. -/
inductive Fault where
  | blobNotFound (storagePath : Text)
  | payloadTooLarge
  | encryptionKey
  | bucketQuotaExceeded
  | userQuotaExceeded
  | objectNotFound
  | versionNotFound
  | invalidKey
  | objectAlreadyExists
  | badDigest
  | uploadNotFound
  | invalidPart
  | invalidPartOrder
  | partTooSmall
  | bucketNotFound
  | bucketAlreadyExists
  | bucketAlreadyOwnedByYou
  | invalidBucketName
  | bucketNotEmpty
  | permissionDenied
  | invalidVersioning
  | invalidPolicyDocument
  /-- Access to a key or, where none is named, to a bucket. -/
  | accessDenied (resource : Text)
  | noSuchKey (key : Text)
  | notImplemented (resource : Text)
  | invalidCredentials
  | invalidRefreshToken
  | userDisabled
  | userNotFound
  | invalidCurrentPassword
  /-- The only admin left is to be deleted, disabled or demoted. -/
  | lastAdmin
  | lastAdminDemoted
  | emailAlreadyUsed
  | accessKeyNotFound
  | accessKeyInactive
  /-- An encrypted secret cannot be read back. -/
  | malformedSecret
  /-- A row with the same value in a unique column is there. -/
  | uniqueViolation
  /-- The row that is referred to is not there. -/
  | foreignKeyViolation
  /-- The payload stopped coming: the client went away, or its transfer encoding broke. -/
  | payloadInterrupted
  /-- The document of a control operation is too large. -/
  | entityTooLarge
  | malformedXml
  | malformedPolicy (resource : Text)
  | invalidCorsConfiguration
  | invalidArgument (resource : Text)
  /-- The framing of a payload is claimed and was not signed. -/
  | invalidRequest
  deriving DecidableEq, Repr

/-- A payload as it arrives: pieces, and whether it broke off after the last of them. -/
structure Readable where
  chunks : List Bytes
  interrupted : Bool := false
  deriving DecidableEq, Repr

namespace Readable

def content (s : Readable) : Bytes := s.chunks.flatten

end Readable

/-- What a step leaves on record.  `call` is the number of the call to the clock the step made,
or would have made. -/
inductive Event where
  | generatedPath (storagePath : Text)
  | wroteBlob (storagePath : Text) (call : ℕ)
  | removedBlob (storagePath : Text)
  | openedBlob (storagePath : Text)
  | readBucketUsage (bucketGuid : Guid)
  | readUserUsage (userGuid : UserGuid)
  | readObject (bucketGuid : Guid) (key : Text)
  | readVersion (storagePath : Option Text)
  | committedVersion (bucketGuid : Guid) (key : Text) (storagePath : Option Text) (size call : ℕ)
  | requiredUpload (uploadGuid : Guid)
  | storedPart (bucketGuid uploadGuid : Guid) (storagePath : Text) (size call : ℕ)
  | droppedParts (uploadGuid : Guid)
  | retiredUpload (uploadGuid : Guid)
  | countedObjects (bucketGuid : Guid)
  | deletedBucket (bucketGuid : Guid)
  | startedSweep (call : ℕ)
  | computedCutOff (call : ℕ)
  | readSession (session : Option Guid)
  | exchangedSession (session : Guid)
  | readUser (userGuid : Option UserGuid)
  | openedSession (userGuid : UserGuid)
  | revokedSessions (userGuid : UserGuid)
  | countedAdmins (admins : ℕ)
  | tookAdmin (userGuid : UserGuid)
  deriving DecidableEq, Repr

/-- The state of a deployment. -/
structure World where
  db : Database
  disk : FileTable Text Blob := {}
  encryption : StorageTypes.EncryptionConfig
  /-- How many times the random generator or the clock was asked. -/
  calls : ℕ := 0
  deriving DecidableEq, Repr

/-- A service method. -/
abbrev Service (α : Type) := Program Event Fault World α

namespace World

variable {α : Type}

/-- The number of the next call to the random generator or the clock. -/
def nextCall : Service ℕ := Program.alter fun w => (w.calls, { w with calls := w.calls + 1 })

/-- The number of the next call, on record. -/
def nextCallFor (event : ℕ → Event) : Service ℕ :=
  Program.perform (fun w => some (event w.calls)) fun w => (w.calls, { w with calls := w.calls + 1 })

/-- A statement that only reads. -/
def select (f : Database → α) : Service α := Program.query fun w => f w.db

/-- A statement that only reads, on record. -/
def selectFor (event : Database → Option Event) (f : Database → α) : Service α :=
  Program.observe (fun w => event w.db) fun w => f w.db

/-- A statement or a transaction that writes. -/
def execute (f : Database → α × Database) : Service α :=
  Program.alter fun w => ((f w.db).1, { w with db := (f w.db).2 })

/-- A statement or a transaction that writes, on record. -/
def executeFor (event : Event) (f : Database → α × Database) : Service α :=
  Program.perform (fun _ => some event) fun w => ((f w.db).1, { w with db := (f w.db).2 })

/-- A statement or a transaction that inserts a row, whose identifier and time are generated. -/
def insertFor (event : ℕ → Option Event) (f : ℕ → Database → α × Database) : Service α :=
  Program.perform (fun w => event w.calls) fun w =>
    ((f w.calls w.db).1, { w with db := (f w.calls w.db).2, calls := w.calls + 1 })

theorem select_readOnly (f : Database → α) : Program.ReadOnly (select f) := .query _

theorem selectFor_readOnly (event : Database → Option Event) (f : Database → α) :
    Program.ReadOnly (selectFor event f) := .observe _ _

end World
end SimpleStorage
