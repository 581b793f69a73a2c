import SimpleStorage.Buckets.BucketsService

/-!
# Probing for bucket names

`BucketsService.getForUser` answers for a bucket that someone may not read as for one that is
not there, so that its name cannot be told from a free one.  With any other permission it
answers differently, and an endpoint asks with the permission it needs.

* `getForUser_absent`, `getForUser_stranger`: what is answered without the bucket and with it.
* `probed_iff`: no endpoint tells the two apart if and only if it asks for the permission to
  read.
-/

namespace SimpleStorage
namespace BucketsService

open BucketsTypes Program

/-- **The bucket is none of the user's business**: they neither own it nor have a grant on it. -/
structure Stranger (row : BucketRow) (userGuid : UserGuid) (db : Database) : Prop where
  owner : row.ownerUserGuid ≠ userGuid
  grant : findGrant row.guid userGuid db = none

theorem Stranger.not_permitted {row : BucketRow} {userGuid : UserGuid} {db : Database}
    (h : Stranger row userGuid db) {role : UserRole} (hrole : role ≠ .admin)
    (permission : BucketPermission) : ¬ Permitted row userGuid role permission db := by
  rintro (hadmin | howner | ⟨grant, hgrant, -⟩)
  · exact hrole hadmin
  · exact h.owner howner
  · rw [h.grant] at hgrant
    cases hgrant

variable {name : Text} {userGuid : UserGuid} {role : UserRole} {permission : BucketPermission} {w : World}

theorem getForUser_absent (h : findBucket name w.db = none) :
    getForUser name userGuid role permission w = .error .bucketNotFound w := by
  refine run_bind_of_error ?_
  change (orThrow (findBucket name w.db) Fault.bucketNotFound >>= _) w = _
  rw [h]
  rfl

theorem getForUser_stranger {row : BucketRow} (hrow : findBucket name w.db = some row)
    (hguids : (w.db.buckets.map (·.guid)).Nodup) (hrole : role ≠ .admin)
    (hstranger : Stranger row userGuid w.db) :
    getForUser name userGuid role permission w =
      .error (if permission = .read then .bucketNotFound else .permissionDenied) w := by
  have hspec : wp (getForUser name userGuid role permission) (fun _ _ => False)
      (fun e w' => e = (if permission = .read then .bucketNotFound else .permissionDenied) ∧ w' = w) w := by
    refine wp_getByName_of_found hrow ?_
    rw [wp_bind]
    refine wp_mono (hasPermission_spec (findBucketByGuid_of_found hguids hrow) userGuid role permission)
      ?_ fun _ _ h => h.elim
    rintro allowed _ ⟨rfl, hallowed⟩
    rw [wp_bind, wp_require]
    exact ⟨fun h => (hstranger.not_permitted hrole permission (hallowed.mp h)).elim, fun _ => ⟨rfl, rfl⟩⟩
  rw [wp] at hspec
  cases hrun : getForUser name userGuid role permission w with
  | ok bucket w' =>
    rw [hrun] at hspec
    exact hspec.elim
  | error e w' =>
    rw [hrun] at hspec
    rw [hspec.1, hspec.2]

/-- **When a name cannot be probed for.**  One state has no bucket of the name and the other has one
that is none of the user's business; whatever else they have and whatever the endpoint goes on
to do, it answers alike if and only if it asks for the permission to read. -/
theorem probed_iff {w w' : World} (habsent : findBucket name w.db = none) {row : BucketRow}
    (hpresent : findBucket name w'.db = some row) (hguids : (w'.db.buckets.map (·.guid)).Nodup)
    (hrole : role ≠ .admin) (hstranger : Stranger row userGuid w'.db) {α : Type}
    (endpoint : BucketItem → Service α) :
    outcome (getForUser name userGuid role permission >>= endpoint) w =
      outcome (getForUser name userGuid role permission >>= endpoint) w' ↔ permission = .read := by
  rw [outcome, outcome, run_bind_of_error (getForUser_absent habsent),
    run_bind_of_error (getForUser_stranger hpresent hguids hrole hstranger)]
  dsimp only
  rw [Except.error.injEq]
  split_ifs with h
  · exact iff_of_true rfl h
  · exact iff_of_false (by simp) h

/-- A bucket of somebody else's. -/
def someoneElses : BucketRow := { guid := 1, name := "payroll".toList, ownerUserGuid := "user-1".toList }

def withPayroll : World := { db := { buckets := [someoneElses] }, encryption := ⟨false, []⟩ }

def withoutPayroll : World := { db := {}, encryption := ⟨false, []⟩ }

theorem probed_iff_payroll :
    outcome (getForUser "payroll".toList "user-2".toList .user .write >>= fun _ => pure ()) withoutPayroll =
      outcome (getForUser "payroll".toList "user-2".toList .user .write >>= fun _ => pure ()) withPayroll ↔
    BucketPermission.write = .read := by
  have habsent : findBucket "payroll".toList withoutPayroll.db = none := rfl
  have hpresent : findBucket "payroll".toList withPayroll.db = some someoneElses := by decide
  have hstranger : Stranger someoneElses "user-2".toList withPayroll.db := ⟨by decide, rfl⟩
  exact probed_iff habsent hpresent (List.nodup_singleton _) (by decide) hstranger _

/-- **The name can be probed for** by asking to write. -/
theorem payroll_probed :
    outcome (getForUser "payroll".toList "user-2".toList .user .write) withoutPayroll ≠
      outcome (getForUser "payroll".toList "user-2".toList .user .write) withPayroll := by
  decide

end BucketsService
end SimpleStorage
