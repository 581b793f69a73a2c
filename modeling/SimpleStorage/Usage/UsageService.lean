import SimpleStorage.Storage.World

/-!
# Usage and quotas

How many bytes a bucket and its owner occupy, counted from the tables each time, and the
check that a further write stays within what they may.
-/

namespace SimpleStorage

namespace UsageTypes

structure Usage where
  objectCount : ℕ
  versionCount : ℕ
  versionBytes : ℕ
  multipartBytes : ℕ
  totalBytes : ℕ
  deriving DecidableEq, Repr

/-- The bucket a write is charged to. -/
structure QuotaTarget where
  guid : Guid
  ownerUserGuid : UserGuid
  quotaBytes : Option ℤ
  deriving DecidableEq, Repr

end UsageTypes

namespace UsageService

open UsageTypes Program

def emptyUsage : Usage := ⟨0, 0, 0, 0, 0⟩

def toUsage (objectCount versionCount versionBytes multipartBytes : ℕ) : Usage :=
  ⟨objectCount, versionCount, versionBytes, multipartBytes, versionBytes + multipartBytes⟩

/-- The versions of a bucket that have a payload. -/
def storedVersions (bucketGuid : Guid) (db : Database) : List ObjectVersionRow :=
  db.objectVersions.flatMap fun v =>
    (db.objects.filter fun o =>
      o.guid = v.objectGuid && o.bucketGuid = bucketGuid && v.storagePath.isSome).map fun _ => v

/-- The keys of a bucket whose latest version is not a delete marker. -/
def visibleObjects (bucketGuid : Guid) (db : Database) : List ObjectRow :=
  db.objects.flatMap fun o =>
    (db.objectVersions.filter fun v =>
      o.latestVersionGuid = some v.guid && o.bucketGuid = bucketGuid && !v.isDeleteMarker).map fun _ => o

/-- The parts of a bucket's uploads in progress. -/
def pendingParts (bucketGuid : Guid) (db : Database) : List MultipartPartRow :=
  db.multipartParts.flatMap fun part =>
    (db.multipartUploads.filter fun u =>
      u.guid = part.uploadGuid && u.bucketGuid = bucketGuid && u.status = .inProgress).map fun _ => part

def bucketUsage (bucketGuid : Guid) (db : Database) : Usage :=
  toUsage (visibleObjects bucketGuid db).length (storedVersions bucketGuid db).length
    ((storedVersions bucketGuid db).map (·.size)).sum
    ((pendingParts bucketGuid db).map (·.size)).sum

def add (left right : Usage) : Usage :=
  ⟨left.objectCount + right.objectCount, left.versionCount + right.versionCount,
    left.versionBytes + right.versionBytes, left.multipartBytes + right.multipartBytes,
    left.totalBytes + right.totalBytes⟩

/-- The sum over the buckets a user owns. -/
def userUsage (userGuid : UserGuid) (db : Database) : Usage :=
  ((db.buckets.filter fun b => b.ownerUserGuid = userGuid && b.deletedAt.isNone).map fun b =>
    bucketUsage b.guid db).foldl add emptyUsage

/-- Throws if so many bytes more would take the owner over the quota. -/
def assertOwnerQuota (bucket : QuotaTarget) (bytes : ℕ) : Service Unit := do
  let owner ← World.select fun db => db.users.find? (·.guid = bucket.ownerUserGuid)
  match owner.bind (·.quotaBytes) with
  | some quotaBytes =>
      let usage ← World.selectFor (fun _ => some (.readUserUsage bucket.ownerUserGuid))
        (userUsage bucket.ownerUserGuid)
      require ((usage.totalBytes + bytes : ℤ) ≤ quotaBytes) .userQuotaExceeded
  | none => pure ()

/-- Throws if so many bytes more would take the bucket or its owner over the quota. -/
def assertQuota (bucket : QuotaTarget) (bytes : ℕ) : Service Unit := do
  match bucket.quotaBytes with
  | some quotaBytes =>
      let usage ← World.selectFor (fun _ => some (.readBucketUsage bucket.guid))
        (bucketUsage bucket.guid)
      require ((usage.totalBytes + bytes : ℤ) ≤ quotaBytes) .bucketQuotaExceeded
  | none => pure ()
  assertOwnerQuota bucket bytes

theorem assertOwnerQuota_readOnly (bucket : QuotaTarget) (bytes : ℕ) :
    ReadOnly (assertOwnerQuota bucket bytes) := by
  refine .bind (World.select_readOnly _) fun owner => ?_
  cases owner.bind (·.quotaBytes) with
  | none => exact .pure _
  | some quotaBytes => exact .bind (World.selectFor_readOnly _ _) fun _ => .require _ _

/-- The check only reads. -/
theorem assertQuota_readOnly (bucket : QuotaTarget) (bytes : ℕ) : ReadOnly (assertQuota bucket bytes) := by
  rw [assertQuota]
  cases bucket.quotaBytes with
  | none => exact assertOwnerQuota_readOnly bucket bytes
  | some quotaBytes =>
    exact .bind (World.selectFor_readOnly _ _) fun _ => .bind (.require _ _) fun _ =>
      assertOwnerQuota_readOnly bucket bytes

theorem assertOwnerQuota_spec (bucket : QuotaTarget) (bytes : ℕ) (w : World) :
    wp (assertOwnerQuota bucket bytes) (fun _ w' => w' = w)
      (fun e w' => w' = w ∧ (e = .bucketQuotaExceeded ∨ e = .userQuotaExceeded)) w := by
  rw [assertOwnerQuota, wp_bind, World.select, wp_query]
  cases (w.db.users.find? (·.guid = bucket.ownerUserGuid)).bind (·.quotaBytes) with
  | none => exact rfl
  | some quotaBytes =>
    rw [wp_bind, World.selectFor, wp_observe, wp_require]
    exact ⟨fun _ => rfl, fun _ => ⟨rfl, Or.inr rfl⟩⟩

/-- The check changes nothing, and what it throws is about a quota. -/
theorem assertQuota_spec (bucket : QuotaTarget) (bytes : ℕ) (w : World) :
    wp (assertQuota bucket bytes) (fun _ w' => w' = w)
      (fun e w' => w' = w ∧ (e = .bucketQuotaExceeded ∨ e = .userQuotaExceeded)) w := by
  rw [assertQuota]
  cases bucket.quotaBytes with
  | none => exact assertOwnerQuota_spec bucket bytes w
  | some quotaBytes =>
    rw [wp_bind, World.selectFor, wp_observe, wp_bind, wp_require]
    exact ⟨fun _ => assertOwnerQuota_spec bucket bytes w, fun _ => ⟨rfl, Or.inl rfl⟩⟩

/-! ## Within the quotas -/

/-- So many bytes more stay within what the owner may occupy. -/
def HasOwnerRoom (bucket : QuotaTarget) (bytes : ℕ) (db : Database) : Prop :=
  ∀ quotaBytes ∈ (db.users.find? (·.guid = bucket.ownerUserGuid)).bind (·.quotaBytes),
    ((userUsage bucket.ownerUserGuid db).totalBytes + bytes : ℤ) ≤ quotaBytes

/-- **So many bytes more stay within what the bucket and its owner may occupy.** -/
def HasRoom (bucket : QuotaTarget) (bytes : ℕ) (db : Database) : Prop :=
  (∀ quotaBytes ∈ bucket.quotaBytes, ((bucketUsage bucket.guid db).totalBytes + bytes : ℤ) ≤ quotaBytes) ∧
    HasOwnerRoom bucket bytes db

theorem assertOwnerQuota_within (bucket : QuotaTarget) (bytes : ℕ) (w : World) :
    wp (assertOwnerQuota bucket bytes) (fun _ w' => w' = w ∧ HasOwnerRoom bucket bytes w.db)
      (fun _ _ => ¬ HasOwnerRoom bucket bytes w.db) w := by
  rw [assertOwnerQuota, wp_bind, World.select, wp_query]
  unfold HasOwnerRoom
  cases (w.db.users.find? (·.guid = bucket.ownerUserGuid)).bind (·.quotaBytes) with
  | none => simp
  | some quotaBytes =>
    rw [wp_bind, World.selectFor, wp_observe, wp_require]
    simp

/-- **The check passes if the bytes stay within the quotas.** -/
theorem assertQuota_within (bucket : QuotaTarget) (bytes : ℕ) (w : World) :
    wp (assertQuota bucket bytes) (fun _ w' => w' = w ∧ HasRoom bucket bytes w.db)
      (fun _ _ => ¬ HasRoom bucket bytes w.db) w := by
  rw [assertQuota]
  unfold HasRoom
  cases bucket.quotaBytes with
  | none =>
    simp only [Option.mem_def, reduceCtorEq, false_implies, implies_true, true_and]
    exact assertOwnerQuota_within bucket bytes w
  | some quotaBytes =>
    simp only [Option.mem_def, Option.some.injEq, forall_eq']
    rw [wp_bind, World.selectFor, wp_observe, wp_bind, wp_require]
    refine ⟨fun hbucket => ?_, fun hbucket h => hbucket h.1⟩
    refine wp_mono (assertOwnerQuota_within bucket bytes w) ?_ fun _ _ howner h => howner h.2
    rintro _ _ ⟨rfl, howner⟩
    exact ⟨rfl, hbucket, howner⟩

end UsageService
end SimpleStorage
