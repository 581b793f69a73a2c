import SimpleStorage.Cryptographic.CryptographicService
import SimpleStorage.Database.Schema

/-!
# Access keys

The credentials of S3 clients: a public identifier, and a secret that is shown once and kept
encrypted, since the server has to sign with it.  A key can be deactivated, deleted, or left
to expire.
-/

namespace SimpleStorage

namespace AccessKeysTypes

structure AccessKeyItem where
  accessKeyId : Text
  userGuid : UserGuid
  description : Option Text
  status : AccessKeyStatus
  expiresAt : Option Timestamp
  lastUsedAt : Option Timestamp
  createdAt : Timestamp
  deriving DecidableEq, Repr

/-- The secret is returned once, on creation. -/
structure CreatedAccessKey extends AccessKeyItem where
  secretAccessKey : Text
  deriving DecidableEq, Repr

/-- What a request is verified with. -/
structure ResolvedCredentials where
  accessKeyId : Text
  secretAccessKey : Text
  userGuid : UserGuid
  deriving DecidableEq, Repr

end AccessKeysTypes

namespace AccessKeysService

open AccessKeysTypes Program

variable (N : Node) (config : CryptographicConfig)

/-! ## Statements -/

/-- The key of an identifier, unless it is deleted. -/
def findAccessKey (accessKeyId : Text) (db : Database) : Option AccessKeyRow :=
  db.accessKeys.find? fun k => k.accessKeyId = accessKeyId && k.deletedAt.isNone

/-- Identifiers are not used twice, and the owner has to be there. -/
def insertAccessKey (row : AccessKeyRow) (db : Database) : Except Fault AccessKeyRow × Database :=
  if db.accessKeys.any (·.accessKeyId = row.accessKeyId) then (.error .uniqueViolation, db)
  else if ¬ db.users.any (·.guid = row.userGuid) then (.error .foreignKeyViolation, db)
  else (.ok row, { db with accessKeys := db.accessKeys ++ [row] })

/-- Update the key of an identifier, unless it is deleted, and say how many there were. -/
def updateAccessKey (accessKeyId : Text) (f : AccessKeyRow → AccessKeyRow) (db : Database) :
    ℕ × Database :=
  let affected (k : AccessKeyRow) : Bool := k.accessKeyId = accessKeyId && k.deletedAt.isNone
  ((db.accessKeys.filter affected).length,
    { db with accessKeys := db.accessKeys.map fun k => if affected k then f k else k })

/-! ## The service -/

def accessKeyIdLength : ℕ := 20

def secretKeyBytes : ℕ := 30

def alphabet : Text := "ABCDEFGHIJKLMNOPQRSTUVWXYZ234567".toList

/-- Twenty characters with a prefix to recognise them by. -/
def generateAccessKeyId (random : Bytes) : Text :=
  let body := random.map fun byte => alphabet.getD (byte.toNat % alphabet.length) 'A'
  "ST".toList ++ body.take (accessKeyIdLength - 2)

/-- The letters and digits of a random value. -/
def generateSecret (random : Bytes) : Text :=
  ((Codec.base64.encode random).filter fun c => c ≠ '+' && c ≠ '/' && c ≠ '=').take 40

def toItem (row : AccessKeyRow) : AccessKeyItem where
  accessKeyId := row.accessKeyId
  userGuid := row.userGuid
  description := row.description
  status := row.status
  expiresAt := row.expiresAt
  lastUsedAt := row.lastUsedAt
  createdAt := row.createdAt

def create (userGuid : UserGuid) (description : Option Text) (expiresAt : Option Timestamp) :
    Service CreatedAccessKey := do
  let accessKeyId := generateAccessKeyId (N.randomBytes (← World.nextCall) accessKeyIdLength)
  let secretAccessKey := generateSecret (N.randomBytes (← World.nextCall) secretKeyBytes)
  let secretKeyEncrypted ← CryptographicService.encrypt N config secretAccessKey
  let inserted ← World.insertFor (fun _ => none) fun call => insertAccessKey {
    accessKeyId
    userGuid
    secretKeyEncrypted
    description
    expiresAt
    createdAt := N.now call }
  match inserted with
  | .ok created => return { toItem created with secretAccessKey }
  | .error e => throw e

def setStatus (accessKeyId : Text) (status : AccessKeyStatus) : Service Unit := do
  let updated ← World.execute (updateAccessKey accessKeyId fun k => { k with status })
  require (updated ≠ 0) .accessKeyNotFound

def delete (accessKeyId : Text) : Service Unit := do
  let updated ← World.insertFor (fun _ => none) fun call =>
    updateAccessKey accessKeyId fun k => { k with deletedAt := some (N.now call) }
  require (updated ≠ 0) .accessKeyNotFound

/-- The credentials of a key that may be used now. -/
def resolveCredentials (accessKeyId : Text) : Service ResolvedCredentials := do
  let found ← World.select (findAccessKey accessKeyId)
  let found ← orThrow found .accessKeyNotFound
  require (found.status = .active) .accessKeyInactive
  (match found.expiresAt with
  | some expiresAt => do
      let now := N.now (← World.nextCall)
      require (¬ expiresAt < now) .accessKeyInactive
  | none => pure ())
  let secretAccessKey ← CryptographicService.decrypt N config found.secretKeyEncrypted
  return ⟨found.accessKeyId, secretAccessKey, found.userGuid⟩

end AccessKeysService
end SimpleStorage
