import SimpleStorage.Buckets.BucketsService
import SimpleStorage.Library.Joins

/-!
# Grants, and who sees which bucket

A grant lets a user do something with a bucket that is not his.  There is one for each bucket
and user: granting again replaces it.

* `Permitted.of_upsertGrant`, `findGrant_removeGrants`: what a user may do after a grant was
  written or removed.
* `getForUser_permitted`: a bucket is opened exactly for those who have the permission.
* `mem_listForUser`: the list of buckets shows a user exactly those he can open with some
  permission.
-/

namespace SimpleStorage
namespace BucketsService

open BucketsTypes Program

/-! ## Statements -/

/-- The bucket's grants. -/
def grantsOf (bucketGuid : Guid) (db : Database) : List BucketAccessRow :=
  db.bucketAccess.filter (·.bucketGuid = bucketGuid)

/-- Whether a row is the grant of that user on that bucket. -/
def isGrant (bucketGuid : Guid) (userGuid : UserGuid) (a : BucketAccessRow) : Bool :=
  a.bucketGuid = bucketGuid && a.userGuid = userGuid

/-- Insert a grant, or replace the permissions of the one there is. -/
def upsertGrant (row : BucketAccessRow) (db : Database) : Option Unit × Database :=
  if db.buckets.any (·.guid = row.bucketGuid) && db.users.any (·.guid = row.userGuid) then
    let bucketAccess :=
      if db.bucketAccess.any (isGrant row.bucketGuid row.userGuid) then
        db.bucketAccess.map fun a =>
          if isGrant row.bucketGuid row.userGuid a then { a with permissions := row.permissions } else a
      else db.bucketAccess ++ [row]
    (some (), { db with bucketAccess })
  else (none, db)

def removeGrants (bucketGuid : Guid) (userGuid : UserGuid) (db : Database) : Database :=
  { db with bucketAccess := db.bucketAccess.filter fun a => !isGrant bucketGuid userGuid a }

def liveBuckets (db : Database) : List BucketRow := db.buckets.filter (·.deletedAt.isNone)

/-- The buckets that are there, each with the grants the user has on it. -/
def bucketsWithAccess (userGuid : UserGuid) (db : Database) :
    List (BucketRow × Option BucketAccessRow) :=
  Join.leftJoin (fun b a => isGrant b.guid userGuid a) (liveBuckets db) db.bucketAccess

/-! ## The service -/

/-- Admins see all buckets, others their own and those they were granted something on. -/
def listForUser (userGuid : UserGuid) (role : UserRole) : Service (List BucketItem) := do
  if role = .admin then
    let rows ← World.select liveBuckets
    return rows.map toItem
  else
    let rows ← World.select (bucketsWithAccess userGuid)
    return (rows.filter fun row => row.1.ownerUserGuid = userGuid ||
      0 < (row.2.map (·.permissions.length)).getD 0).map fun row => toItem row.1

def setQuota (guid : Guid) (quotaBytes : Option ℤ) : Service Unit :=
  World.execute fun db => ((), updateBucket guid (fun b => { b with quotaBytes }) db)

def deleteCors (guid : Guid) : Service Unit :=
  World.execute fun db => ((), updateBucket guid (fun b => { b with cors := none }) db)

def listGrants (bucketGuid : Guid) : Service (List BucketAccessRow) := World.select (grantsOf bucketGuid)

def setGrant (grant : BucketAccessRow) : Service Unit := do
  let written ← World.execute (upsertGrant grant)
  orThrow written .foreignKeyViolation

def removeGrant (bucketGuid : Guid) (userGuid : UserGuid) : Service Unit :=
  World.execute fun db => ((), removeGrants bucketGuid userGuid db)

/-! ## What becomes of a grant -/

theorem isGrant_iff {bucketGuid : Guid} {userGuid : UserGuid} {a : BucketAccessRow} :
    isGrant bucketGuid userGuid a = true ↔ a.bucketGuid = bucketGuid ∧ a.userGuid = userGuid := by
  simp [isGrant]

theorem findGrant_eq (bucketGuid : Guid) (userGuid : UserGuid) (db : Database) :
    findGrant bucketGuid userGuid db = db.bucketAccess.find? (isGrant bucketGuid userGuid) := rfl

/-- Whether a user was granted a permission on a bucket. -/
def Granted (db : Database) (bucketGuid : Guid) (userGuid : UserGuid) (permission : BucketPermission) :
    Prop :=
  ∃ grant, findGrant bucketGuid userGuid db = some grant ∧ permission ∈ grant.permissions

theorem Granted.congr {db db' : Database} (h : db'.bucketAccess = db.bucketAccess) {bucketGuid : Guid}
    {userGuid : UserGuid} {permission : BucketPermission} :
    Granted db' bucketGuid userGuid permission ↔ Granted db bucketGuid userGuid permission := by
  rw [Granted, Granted, findGrant_eq, findGrant_eq, h]

theorem upsertGrant_others (row : BucketAccessRow) (db : Database) :
    ∃ bucketAccess, (upsertGrant row db).2 = { db with bucketAccess } := by
  rw [upsertGrant]
  split_ifs
  · exact ⟨_, rfl⟩
  · exact ⟨_, rfl⟩
  · exact ⟨db.bucketAccess, rfl⟩

section Grants

variable {row : BucketAccessRow} {db : Database} {bucketGuid : Guid} {userGuid : UserGuid}
  {permission : BucketPermission}

/-- The grants of all others stay what they are. -/
theorem findGrant_upsertGrant_of_ne (hne : isGrant bucketGuid userGuid row = false) :
    findGrant bucketGuid userGuid (upsertGrant row db).2 = findGrant bucketGuid userGuid db := by
  have hother : ∀ a, isGrant row.bucketGuid row.userGuid a = true →
      isGrant bucketGuid userGuid a = false := by
    intro a ha
    rw [isGrant_iff] at ha
    rw [isGrant] at hne ⊢
    rw [ha.1, ha.2]
    exact hne
  rw [findGrant_eq, findGrant_eq, upsertGrant]
  split_ifs with hrefers hthere
  · dsimp only
    exact Join.find?_update_other (f := fun a => { a with permissions := row.permissions })
      (fun a ha => ⟨hother a ha, hother a ha⟩) db.bucketAccess
  · dsimp only
    rw [List.find?_append, List.find?_singleton, hne, if_neg Bool.false_ne_true, Option.or_none]
  · rfl

/-- What is granted after a grant was written is what the grant says, or was granted before. -/
theorem Granted.of_upsertGrant (h : Granted (upsertGrant row db).2 bucketGuid userGuid permission) :
    Granted db bucketGuid userGuid permission ∨
      row.bucketGuid = bucketGuid ∧ row.userGuid = userGuid ∧ permission ∈ row.permissions := by
  by_cases hrow : isGrant bucketGuid userGuid row = true
  · rw [isGrant_iff] at hrow
    obtain ⟨rfl, rfl⟩ := hrow
    obtain ⟨grant, hfound, hmem⟩ := h
    rw [findGrant_eq, upsertGrant] at hfound
    split_ifs at hfound with hrefers hthere
    · -- The grant there was has the new permissions.
      dsimp only at hfound
      have hgrant := List.find?_some hfound
      obtain ⟨a, -, ha⟩ := List.mem_map.mp (List.mem_of_find?_eq_some hfound)
      split_ifs at ha with hold
      · rw [← ha] at hmem
        exact .inr ⟨rfl, rfl, hmem⟩
      · rw [← ha] at hgrant
        exact absurd hgrant hold
    · dsimp only at hfound
      rw [List.find?_append, List.find?_eq_none.mpr (by simpa using hthere), Option.none_or,
        List.find?_singleton] at hfound
      split_ifs at hfound
      rw [← Option.some.inj hfound] at hmem
      exact .inr ⟨rfl, rfl, hmem⟩
    · exact .inl ⟨grant, hfound, hmem⟩
  · rw [Granted, findGrant_upsertGrant_of_ne (by simpa using hrow)] at h
    exact .inl h

/-- **A grant is what was written last.** -/
theorem granted_upsertGrant (hrefers : (upsertGrant row db).1.isSome) :
    Granted (upsertGrant row db).2 row.bucketGuid row.userGuid permission ↔ permission ∈ row.permissions := by
  have hself : isGrant row.bucketGuid row.userGuid row = true := isGrant_iff.mpr ⟨rfl, rfl⟩
  rw [Granted, findGrant_eq, upsertGrant] at *
  split_ifs at hrefers ⊢ with hrefers' hthere
  · dsimp only
    rw [Join.find?_update (p := isGrant row.bucketGuid row.userGuid)
      (f := fun a : BucketAccessRow => { a with permissions := row.permissions }) fun _ ha => ha]
    cases hfind : db.bucketAccess.find? (isGrant row.bucketGuid row.userGuid) with
    | none =>
      obtain ⟨a, ha, hthere⟩ := List.any_eq_true.mp hthere
      exact absurd hthere (List.find?_eq_none.mp hfind a ha)
    | some a => simp
  · dsimp only
    rw [List.find?_append, List.find?_eq_none.mpr (by simpa using hthere), Option.none_or,
      List.find?_singleton, if_pos hself]
    simp
  · cases hrefers

theorem findGrant_removeGrants (bucketGuid' : Guid) (userGuid' : UserGuid) :
    findGrant bucketGuid userGuid (removeGrants bucketGuid' userGuid' db) =
      if bucketGuid = bucketGuid' ∧ userGuid = userGuid' then none
      else findGrant bucketGuid userGuid db := by
  rw [findGrant_eq, findGrant_eq, removeGrants, List.find?_filter]
  split_ifs with hsame
  · obtain ⟨rfl, rfl⟩ := hsame
    simp
  · congr 1
    funext a
    cases ha : isGrant bucketGuid userGuid a with
    | false => simp
    | true =>
      have hother : isGrant bucketGuid' userGuid' a = false := by
        rw [isGrant_iff] at ha
        rw [isGrant, ha.1, ha.2]
        simpa using hsame
      simp [hother]

/-- Nobody is granted anything by removing a grant. -/
theorem Granted.of_removeGrants {bucketGuid' : Guid} {userGuid' : UserGuid}
    (h : Granted (removeGrants bucketGuid' userGuid' db) bucketGuid userGuid permission) :
    Granted db bucketGuid userGuid permission := by
  obtain ⟨grant, hfound, hmem⟩ := h
  rw [findGrant_removeGrants] at hfound
  split_ifs at hfound
  exact ⟨grant, hfound, hmem⟩

end Grants

/-! ## Who may open a bucket -/

/-- **A bucket is opened for those who have the permission**, and nobody else learns more about it
than that it is there; without the permission to read, not even that. -/
theorem getForUser_permitted {w : World} (hguids : (w.db.buckets.map (·.guid)).Nodup) (name : Text)
    (userGuid : UserGuid) (role : UserRole) (permission : BucketPermission) :
    wp (getForUser name userGuid role permission)
      (fun bucket w' => w' = w ∧ ∃ row, findBucket name w.db = some row ∧ bucket = toItem row ∧
        Permitted row userGuid role permission w.db)
      (fun e w' => w' = w ∧ (e = .bucketNotFound ∧ findBucket name w.db = none ∨
        ∃ row, findBucket name w.db = some row ∧ ¬ Permitted row userGuid role permission w.db ∧
          e = if permission = .read then .bucketNotFound else .permissionDenied)) w := by
  rw [getForUser, wp_bind]
  refine wp_mono (getByName_spec name w) ?_ fun e w' h => ⟨h.1, .inl h.2⟩
  rintro bucket _ ⟨rfl, row, hrow, rfl⟩
  rw [wp_bind]
  refine wp_mono (hasPermission_spec (findBucketByGuid_of_found hguids hrow) userGuid role permission) ?_
    fun _ _ h => h.elim
  rintro allowed _ ⟨rfl, hallowed⟩
  rw [wp_bind, wp_require]
  refine ⟨fun h => ⟨rfl, row, hrow, rfl, hallowed.mp h⟩, fun h => ⟨rfl, .inr ⟨row, hrow, ?_, rfl⟩⟩⟩
  exact fun hpermitted => h (hallowed.mpr hpermitted)

theorem permitted_iff {row : BucketRow} {userGuid : UserGuid} {role : UserRole}
    {permission : BucketPermission} {db : Database} :
    Permitted row userGuid role permission db ↔
      role = .admin ∨ row.ownerUserGuid = userGuid ∨ Granted db row.guid userGuid permission := Iff.rfl

/-! ## The list of buckets -/

/-- **The keys of the bucket tables**: guids and names of buckets, and a grant for each bucket and
user. -/
structure BucketKeys (w : World) : Prop where
  guid : (w.db.buckets.map (·.guid)).Nodup
  guid_lt : ∀ b ∈ w.db.buckets, b.guid < w.calls
  name : (w.db.buckets.map (·.name)).Nodup
  grant : (w.db.bucketAccess.map fun a => (a.bucketGuid, a.userGuid)).Nodup

section Listing

variable {w : World} (hw : BucketKeys w)
include hw

theorem bucketsWithAccess_eq (userGuid : UserGuid) :
    bucketsWithAccess userGuid w.db =
      (liveBuckets w.db).map fun b => (b, findGrant b.guid userGuid w.db) := by
  refine Join.leftJoin_eq_map (List.Nodup.of_map _ hw.grant) (fun b a ha a' ha' h h' => ?_) _
  rw [isGrant_iff] at h h'
  exact List.inj_on_of_nodup_map hw.grant ha ha' (Prod.ext (h.1.trans h'.1.symm) (h.2.trans h'.2.symm))

/-- A bucket that is there is found by its name. -/
theorem findBucket_of_live {row : BucketRow} (hrow : row ∈ liveBuckets w.db) :
    findBucket row.name w.db = some row := by
  obtain ⟨hmem, hlive⟩ := List.mem_filter.mp hrow
  cases hfind : findBucket row.name w.db with
  | none =>
    have := List.find?_eq_none.mp hfind row hmem
    simp [hlive] at this
  | some row' =>
    obtain ⟨hmem', hname, -⟩ := findBucket_eq_some hfind
    rw [List.inj_on_of_nodup_map hw.name hmem' hmem hname]

/-- **What a user is shown**: the buckets on which he is permitted something, each once. -/
theorem listForUser_spec (userGuid : UserGuid) (role : UserRole) :
    wp (listForUser userGuid role)
      (fun items w' => w' = w ∧ ∃ rows : List BucketRow, items = rows.map toItem ∧ rows.Sublist w.db.buckets ∧
        ∀ row, row ∈ rows ↔ row ∈ liveBuckets w.db ∧
          ∃ permission, Permitted row userGuid role permission w.db)
      (fun _ _ => False) w := by
  rw [listForUser, wp_ite]
  split_ifs with hadmin
  · rw [wp_bind, World.select, wp_query]
    refine ⟨rfl, liveBuckets w.db, rfl, List.filter_sublist, fun row => ?_⟩
    exact ⟨fun h => ⟨h, .read, .inl hadmin⟩, fun h => h.1⟩
  · rw [wp_bind, World.select, wp_query, bucketsWithAccess_eq hw, List.filter_map, List.map_map]
    refine ⟨rfl, (liveBuckets w.db).filter _, rfl, List.filter_sublist.trans List.filter_sublist,
      fun row => ?_⟩
    rw [List.mem_filter, Function.comp_apply, Bool.or_eq_true, decide_eq_true_iff, decide_eq_true_iff]
    refine and_congr_right fun _ => ?_
    dsimp only
    constructor
    · rintro (howner | hgrant)
      · exact ⟨.read, .inr (.inl howner)⟩
      · cases hfound : findGrant row.guid userGuid w.db with
        | none => simp [hfound] at hgrant
        | some grant =>
          rw [hfound] at hgrant
          obtain ⟨permission, hmem⟩ := List.exists_mem_of_length_pos hgrant
          exact ⟨permission, .inr (.inr ⟨grant, hfound, hmem⟩)⟩
    · rintro ⟨permission, hrole | howner | ⟨grant, hfound, hmem⟩⟩
      · exact absurd hrole hadmin
      · exact .inl howner
      · rw [hfound]
        exact .inr (List.length_pos_of_mem hmem)

end Listing

end BucketsService
end SimpleStorage
