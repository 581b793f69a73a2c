import Mathlib.Data.List.Infix
import SimpleStorage.Objects.Types
import SimpleStorage.Storage.Node

/-!
# Buckets

Creating, finding, configuring and deleting buckets, and who may manage them.  A deleted
bucket keeps its row, its name stays taken, and nothing finds it any more.
-/

namespace SimpleStorage

namespace BucketsTypes

structure BucketItem extends ObjectsTypes.BucketContext where
  name : Text
  acl : BucketAcl
  deriving DecidableEq, Repr

/-- 3 to 63 lowercase letters, digits, dots and hyphens, with a letter or digit at either end. -/
def BucketNamePattern (name : Text) : Prop :=
  let isAlphanumeric (c : Char) : Bool := 'a' ≤ c && c ≤ 'z' || c.isDigit
  3 ≤ name.length ∧ name.length ≤ 63 ∧ name.head?.any isAlphanumeric ∧
    name.getLast?.any isAlphanumeric ∧ name.all fun c => isAlphanumeric c || c == '.' || c == '-'

instance (name : Text) : Decidable (BucketNamePattern name) := inferInstanceAs (Decidable (_ ∧ _))

/-- Four numbers between dots. -/
def IpAddressPattern (name : Text) : Prop :=
  (Text.split '.' name).length = 4 ∧
    ∀ piece ∈ Text.split '.' name, piece ≠ [] ∧ piece.all Char.isDigit

instance (name : Text) : Decidable (IpAddressPattern name) := inferInstanceAs (Decidable (_ ∧ _))

end BucketsTypes

namespace BucketsService

open BucketsTypes Program

variable (N : Node)

/-! ## Statements -/

def findBucket (name : Text) (db : Database) : Option BucketRow :=
  db.buckets.find? fun b => b.name = name && b.deletedAt.isNone

def findBucketByGuid (guid : Guid) (db : Database) : Option BucketRow :=
  db.buckets.find? fun b => b.guid = guid && b.deletedAt.isNone

/-- A name is taken for good. -/
def insertBucket (row : BucketRow) (db : Database) : Option BucketRow × Database :=
  if db.buckets.any (·.name = row.name) then (none, db)
  else (some row, { db with buckets := db.buckets ++ [row] })

def updateBucket (guid : Guid) (f : BucketRow → BucketRow) (db : Database) : Database :=
  { db with buckets := db.buckets.map fun b => if b.guid = guid then f b else b }

def countObjects (bucketGuid : Guid) (db : Database) : ℕ :=
  (db.objects.filter (·.bucketGuid = bucketGuid)).length

def findGrant (bucketGuid : Guid) (userGuid : UserGuid) (db : Database) : Option BucketAccessRow :=
  db.bucketAccess.find? fun a => a.bucketGuid = bucketGuid && a.userGuid = userGuid

/-! ## The service -/

def toItem (row : BucketRow) : BucketItem where
  guid := row.guid
  name := row.name
  ownerUserGuid := row.ownerUserGuid
  acl := row.acl
  versioning := row.versioning
  quotaBytes := row.quotaBytes

def findByName (name : Text) : Service (Option BucketItem) := do
  let found ← World.select (findBucket name)
  return found.map toItem

def getByName (name : Text) : Service BucketItem := do
  let found ← World.select (findBucket name)
  let found ← orThrow found .bucketNotFound
  return toItem found

def assertValidName (name : Text) : Service Unit :=
  require (¬ (¬ BucketNamePattern name ∨ IpAddressPattern name ∨ ['.', '.'] <:+: name))
    .invalidBucketName

def create (name : Text) (ownerUserGuid : UserGuid) : Service BucketItem := do
  assertValidName name
  let created ← World.insertFor (fun _ => none) fun call =>
    insertBucket { guid := call, name, ownerUserGuid }
  let created ← orThrow created .bucketAlreadyExists
  return toItem created

/-- Only an empty bucket is deleted. -/
def delete (guid : Guid) : Service Unit := do
  let objectCount ← World.selectFor (fun _ => some (.countedObjects guid)) (countObjects guid)
  require (¬ objectCount > 0) .bucketNotEmpty
  World.insertFor (fun _ => some (.deletedBucket guid)) fun call db =>
    ((), updateBucket guid (fun b => { b with deletedAt := some (N.now call) }) db)

def setVersioning (guid : Guid) (versioning : BucketVersioning) : Service Unit :=
  World.execute fun db => ((), updateBucket guid (fun b => { b with versioning }) db)

def setAcl (guid : Guid) (acl : BucketAcl) : Service Unit :=
  World.execute fun db => ((), updateBucket guid (fun b => { b with acl }) db)

/-- There are rules, and each has origins and methods. -/
def ValidCors (configuration : S3Types.CorsConfiguration) : Prop :=
  configuration.rules ≠ [] ∧
    ∀ rule ∈ configuration.rules, rule.allowedOrigins ≠ [] ∧ rule.allowedMethods ≠ []

instance (configuration : S3Types.CorsConfiguration) : Decidable (ValidCors configuration) :=
  inferInstanceAs (Decidable (_ ∧ _))

def setCors (guid : Guid) (configuration : S3Types.CorsConfiguration) : Service Unit := do
  require (ValidCors configuration) .invalidCorsConfiguration
  World.execute fun db => ((), updateBucket guid (fun b => { b with cors := some configuration }) db)

/-- Admins may do anything, owners anything with their own, and others what a grant says. -/
def hasPermission (bucketGuid : Guid) (userGuid : UserGuid) (role : UserRole)
    (permission : BucketPermission) : Service Bool := do
  if role = .admin then
    return true
  else
    let bucket ← World.select (findBucketByGuid bucketGuid)
    let bucket ← orThrow bucket .bucketNotFound
    if bucket.ownerUserGuid = userGuid then
      return true
    else
      let grant ← World.select (findGrant bucketGuid userGuid)
      return grant.any (·.permissions.contains permission)

/-- A bucket someone may not read is not found. -/
def getForUser (name : Text) (userGuid : UserGuid) (role : UserRole)
    (permission : BucketPermission) : Service BucketItem := do
  let bucket ← getByName name
  let allowed ← hasPermission bucket.guid userGuid role permission
  require (allowed = true) (if permission = .read then .bucketNotFound else .permissionDenied)
  return bucket

/-! ## What the methods do -/

theorem findBucket_eq_some {name : Text} {db : Database} {row : BucketRow}
    (h : findBucket name db = some row) :
    row ∈ db.buckets ∧ row.name = name ∧ row.deletedAt = none := by
  have hp := List.find?_some h
  rw [Bool.and_eq_true, decide_eq_true_iff, Option.isNone_iff_eq_none] at hp
  exact ⟨List.mem_of_find?_eq_some h, hp⟩

/-- A bucket whose name and state of deletion are left alone is found as before. -/
theorem findBucket_updateBucket {f : BucketRow → BucketRow} (hname : ∀ b, (f b).name = b.name)
    (hdeleted : ∀ b, (f b).deletedAt = b.deletedAt) (name : Text) (guid : Guid) (db : Database) :
    findBucket name (updateBucket guid f db) =
      (findBucket name db).map fun b => if b.guid = guid then f b else b := by
  rw [findBucket, findBucket, updateBucket, List.find?_map]
  congr 2
  funext b
  rw [Function.comp_apply]
  split_ifs
  · rw [hname, hdeleted]
  · rfl

/-- A bucket found by its name is found by its guid. -/
theorem findBucketByGuid_of_found {name : Text} {db : Database} {row : BucketRow}
    (hguids : (db.buckets.map (·.guid)).Nodup) (h : findBucket name db = some row) :
    findBucketByGuid row.guid db = some row := by
  obtain ⟨hmem, -, hlive⟩ := findBucket_eq_some h
  cases hfind : findBucketByGuid row.guid db with
  | none =>
    have := List.find?_eq_none.mp hfind row hmem
    simp [hlive] at this
  | some row' =>
    have hp := List.find?_some hfind
    rw [Bool.and_eq_true, decide_eq_true_iff] at hp
    rw [List.inj_on_of_nodup_map hguids (List.mem_of_find?_eq_some hfind) hmem hp.1]

theorem getByName_spec (name : Text) (w : World) :
    wp (getByName name)
      (fun bucket w' => w' = w ∧ ∃ row, findBucket name w.db = some row ∧ bucket = toItem row)
      (fun e w' => w' = w ∧ e = .bucketNotFound ∧ findBucket name w.db = none) w := by
  rw [getByName, wp_bind, World.select, wp_query, wp_bind, wp_orThrow]
  exact ⟨fun row hrow => ⟨rfl, row, hrow, rfl⟩, fun h => ⟨rfl, rfl, h⟩⟩

/-- What comes after a bucket was resolved. -/
theorem wp_getByName {α : Type} {name : Text} {w : World} {f : BucketItem → Service α}
    {post : α → World → Prop} {fail : Fault → World → Prop} (hfail : fail .bucketNotFound w)
    (h : ∀ row, findBucket name w.db = some row → wp (f (toItem row)) post fail w) :
    wp (getByName name >>= f) post fail w := by
  rw [wp_bind]
  refine wp_mono (getByName_spec name w) ?_ ?_
  · rintro _ _ ⟨rfl, row, hrow, rfl⟩
    exact h row hrow
  · rintro _ _ ⟨rfl, rfl, -⟩
    exact hfail

/-- … of which it is known that it is there. -/
theorem wp_getByName_of_found {α : Type} {name : Text} {w : World} {row : BucketRow}
    (hrow : findBucket name w.db = some row) {f : BucketItem → Service α}
    {post : α → World → Prop} {fail : Fault → World → Prop} (h : wp (f (toItem row)) post fail w) :
    wp (getByName name >>= f) post fail w := by
  rw [getByName, wp_bind, wp_bind, World.select, wp_query, wp_bind, hrow, wp_orThrow_some]
  exact h

/-- Whether a user has a permission on a bucket that is there. -/
def Permitted (row : BucketRow) (userGuid : UserGuid) (role : UserRole) (permission : BucketPermission)
    (db : Database) : Prop :=
  role = .admin ∨ row.ownerUserGuid = userGuid ∨
    ∃ grant, findGrant row.guid userGuid db = some grant ∧ permission ∈ grant.permissions

theorem hasPermission_spec {w : World} {row : BucketRow}
    (hrow : findBucketByGuid row.guid w.db = some row) (userGuid : UserGuid) (role : UserRole)
    (permission : BucketPermission) :
    wp (hasPermission row.guid userGuid role permission)
      (fun allowed w' => w' = w ∧ (allowed = true ↔ Permitted row userGuid role permission w.db))
      (fun _ _ => False) w := by
  rw [hasPermission, wp_ite]
  split_ifs with hrole
  · exact ⟨rfl, iff_of_true rfl (Or.inl hrole)⟩
  rw [wp_bind, World.select, wp_query, wp_bind, hrow, wp_orThrow_some, wp_ite]
  split_ifs with howner
  · exact ⟨rfl, iff_of_true rfl (Or.inr (Or.inl howner))⟩
  rw [wp_bind, World.select, wp_query]
  refine ⟨rfl, ?_⟩
  rw [Option.any_eq_true, Permitted]
  simp only [hrole, howner, false_or, List.contains_iff_mem]

theorem hasPermission_readOnly (bucketGuid : Guid) (userGuid : UserGuid) (role : UserRole)
    (permission : BucketPermission) : ReadOnly (hasPermission bucketGuid userGuid role permission) :=
  .ite (.pure _) (.bind (World.select_readOnly _) fun _ => .bind (.orThrow _ _) fun _ =>
    .ite (.pure _) (.bind (World.select_readOnly _) fun _ => .pure _))

theorem getForUser_spec (name : Text) (userGuid : UserGuid) (role : UserRole)
    (permission : BucketPermission) (w : World) :
    wp (getForUser name userGuid role permission)
      (fun bucket w' => w' = w ∧ ∃ row, findBucket name w.db = some row ∧ bucket = toItem row)
      (fun _ w' => w' = w) w := by
  rw [getForUser, wp_bind]
  refine wp_mono (getByName_spec name w) ?_ fun _ _ h => h.1
  rintro bucket _ ⟨rfl, hrow⟩
  rw [wp_bind]
  refine wp_mono ((hasPermission_readOnly _ _ _ _).wp_same _) ?_ fun _ _ h => h
  rintro allowed _ rfl
  rw [wp_bind, wp_require]
  exact ⟨fun _ => ⟨rfl, hrow⟩, fun _ => rfl⟩

end BucketsService
end SimpleStorage
