import SimpleStorage.Objects.TableEffects
import SimpleStorage.S3.Controllers

/-!
# Deleting many keys at once

`DELETE` of a key is authorised for that key, with the action that fits.  `POST ?delete` is
authorised once, for deleting objects and for the bucket, and then deletes whatever its
body lists.

`post_like_single_deletes_iff` says when the second is nevertheless as good as the first,
and a document that allows one key or denies one shows that it need not be.
-/

namespace SimpleStorage
namespace S3BucketController

open ObjectsService ObjectsTypes Program S3AuthorizationService S3Types Statements

variable {J : Strings} {N : Node}

/-! ## What one entry deletes -/

/-- There is something for the entry to delete: its key, and the version of it it names. -/
def HasTarget (bucketGuid : Guid) (entry : DeleteEntry) (db : Database) : Prop :=
  ∃ o, findObject bucketGuid entry.key db = some o ∧
    ∀ i, Query.present entry.versionId = some i → (findVersion o.guid i db).isSome

/-- A row that was inserted, or removed, makes a difference. -/
theorem ne_of_mem {α : Type} {xs ys : List α} {x : α} (hx : x ∈ xs) (hy : x ∉ ys) : xs ≠ ys := by
  rintro rfl
  exact hy hx

/-- **An entry removes a version, or hides its key, if it has a target.** -/
theorem delete_rows {w : World} (hw : Inv N w) (hdistinct : N.Distinct (w.calls + 2))
    (bucket : BucketContext) (entry : DeleteEntry) (accessKeyId : Option Text) :
    wp (ObjectsService.delete N bucket entry.key entry.versionId accessKeyId)
      (fun _ w' => w'.db.objectVersions ≠ w.db.objectVersions ↔ HasTarget bucket.guid entry w.db)
      (fun _ w' => w' = w ∧ ¬ HasTarget bucket.guid entry w.db) w := by
  rw [ObjectsService.delete, wp_bind, World.select, wp_query]
  cases ho : findObject bucket.guid entry.key w.db with
  | none =>
    refine iff_of_false (fun h => h rfl) ?_
    rintro ⟨o, ho', -⟩
    rw [ho] at ho'
    cases ho'
  | some o =>
    have hguid : objectGuid (bucket.guid, entry.key) w.db = some o.guid := by
      rw [objectGuid, ho, Option.map_some]
    cases hid : Query.present entry.versionId with
    | some i =>
      dsimp only
      rw [deleteVersion, wp_bind, World.select, wp_query, wp_bind, wp_orThrow]
      refine ⟨fun v hv => ?_, fun hnone => ⟨rfl, ?_⟩⟩
      · rw [wp_bind, World.execute, wp_alter, wp_bind]
        refine wp_mono (deleteBlobs_tables _ _) ?_ fun _ _ h => h.elim
        intro _ w' hdb
        have htarget : HasTarget bucket.guid entry w.db := by
          refine ⟨o, ho, fun j hj => ?_⟩
          rw [Option.some.inj (hj.symm.trans hid), hv]
          rfl
        refine iff_of_true ?_ htarget
        rw [hdb]
        change (removeVersion o.guid v.guid w.db).objectVersions ≠ _
        rw [removeVersion_objectVersions]
        refine (ne_of_mem (List.mem_of_find?_eq_some hv) fun hv' => ?_).symm
        simpa using (List.mem_filter.mp hv').2
      · rintro ⟨o', ho', htarget⟩
        obtain rfl := Option.some.inj (ho.symm.trans ho')
        have := htarget i hid
        rw [hnone] at this
        cases this
    | none =>
      have htarget : HasTarget bucket.guid entry w.db := ⟨o, ho, by simp [hid]⟩
      dsimp only
      rw [wp_ite]
      split_ifs
      · rw [wp_bind, World.execute, wp_alter, wp_bind]
        refine wp_mono (deleteBlobs_tables _ _) ?_ fun _ _ h => h.elim
        intro _ w' hdb
        refine iff_of_true ?_ htarget
        rw [hdb]
        obtain ⟨v, hv⟩ := List.exists_mem_of_ne_nil _
          (history_ne_nil (k := (bucket.guid, entry.key)) hw ho)
        obtain ⟨hmem, hobject⟩ := mem_history.mp hv
        refine (ne_of_mem hmem fun hv' => ?_).symm
        have hne := (List.mem_filter.mp hv').2
        simp [Option.some.inj (hguid.symm.trans hobject)] at hne
      · rw [wp_bind]
        refine wp_mono (nextVersionId_spec _ hw (hdistinct.mono (by omega))) ?_ fun _ _ h => h.elim
        rintro i _ ⟨⟨n, hn, hn', rfl⟩, hnew, -⟩
        have hquiet : Quiet w { w with calls := n } := Quiet.of_calls hn
        have hcommitted := commitVersion_committed (hquiet.inv hw).tables
          ((hquiet.inv hw).fresh (hdistinct.mono (show n + 1 ≤ w.calls + 2 by omega)) hnew)
          (bucket.guid, entry.key) {
            isDeleteMarker := true
            size := 0
            etag := []
            storagePath := none
            createdByAccessKeyId := accessKeyId }
        rw [wp_bind, ObjectsService.commitVersion, World.insertFor, wp_perform, wp_bind]
        refine wp_mono (deleteBlobs_tables _ _) ?_ fun _ _ h => h.elim
        intro _ w' hdb
        refine iff_of_true ?_ htarget
        rw [hdb]
        refine ne_of_mem ((hcommitted.mem _).mpr (Or.inl rfl)) fun hold => ?_
        have hlt : n < w.calls := (hw.versions _ hold).guid
        omega

/-! ## The entries in their turn -/

/-- A statement about each entry, in the state its turn comes in. -/
def AtItsTurn (N : Node) (bucket : BucketContext) (accessKeyId : Option Text)
    (p : DeleteEntry → World → Prop) : List DeleteEntry → World → Prop
  | [], _ => True
  | entry :: rest, w => p entry w ∧ AtItsTurn N bucket accessKeyId p rest
      (stateAfter (ObjectsService.delete N bucket entry.key entry.versionId accessKeyId) w)

/-- The entry removes a version, or hides its key behind a delete marker. -/
def Removes (N : Node) (bucket : BucketContext) (accessKeyId : Option Text) (entry : DeleteEntry)
    (w : World) : Prop :=
  (stateAfter (ObjectsService.delete N bucket entry.key entry.versionId accessKeyId) w).db.objectVersions ≠
    w.db.objectVersions

instance (bucket : BucketContext) (accessKeyId : Option Text) (entry : DeleteEntry) (w : World) :
    Decidable (Removes N bucket accessKeyId entry w) := inferInstanceAs (Decidable (_ ≠ _))

theorem removes_iff {w : World} (hw : Inv N w) (hdistinct : N.Distinct (w.calls + 2))
    (bucket : BucketContext) (accessKeyId : Option Text) (entry : DeleteEntry) :
    Removes N bucket accessKeyId entry w ↔ HasTarget bucket.guid entry w.db := by
  have h := delete_rows hw hdistinct bucket entry accessKeyId
  refine stateAfter_of_wp (p := fun w' => w'.db.objectVersions ≠ w.db.objectVersions ↔
    HasTarget bucket.guid entry w.db) (wp_mono h (fun _ _ h => h) fun _ w' h => ?_)
  rw [h.1]
  exact iff_of_false (fun h => h rfl) h.2

theorem atItsTurn_congr {bucket : BucketContext} {accessKeyId : Option Text}
    {p q : DeleteEntry → World → Prop} {entries : List DeleteEntry} {w : World} (hw : Inv N w)
    (hdistinct : N.Distinct (w.calls + callsPerRequest * entries.length))
    (h : ∀ entry w', Inv N w' → N.Distinct (w'.calls + 2) → (p entry w' ↔ q entry w')) :
    AtItsTurn N bucket accessKeyId p entries w ↔ AtItsTurn N bucket accessKeyId q entries w := by
  induction entries generalizing w with
  | nil => exact Iff.rfl
  | cons entry rest ih =>
    have hcalls : callsPerRequest * (rest.length + 1) = callsPerRequest * rest.length + 8 := rfl
    rw [List.length_cons, hcalls] at hdistinct
    have hdistinct' : N.Distinct (w.calls + 2) := hdistinct.mono (by omega)
    refine and_congr (h entry w hw hdistinct') ?_
    have hspec := delete_spec hw hdistinct' bucket entry.key entry.versionId accessKeyId
    have hnext := stateAfter_of_wp (p := fun w' => Inv N w' ∧ w'.calls ≤ w.calls + 8)
      (wp_mono hspec (fun _ w' h => ?_) fun _ w' h => ?_)
    · exact ih hnext.1 (hdistinct.mono (by have := hnext.2; omega))
    · obtain ⟨vs, heffect⟩ := h.effect
      exact ⟨heffect.inv, heffect.calls_le⟩
    · rw [h.1]
      exact ⟨hw, Nat.le_add_right _ _⟩

/-! ## One decision for all entries -/

section Decision

variable (J N) (req : BucketRequest) (identity : RequestIdentity)

/-- `DELETE` of the entry alone would be authorised. -/
def SingleAuthorised (row : BucketRow) (w : World) (entry : DeleteEntry) : Prop :=
  ¬ Refuses J (some req.values) identity row
    (if (Query.present entry.versionId).isSome then .deleteObjectVersion else .deleteObject)
    (some entry.key) w

/-- `POST ?delete` ends in `AccessDenied`. -/
def PostRefused (entries : List DeleteEntry) (w : World) : Prop :=
  ∃ resource w', post J N req identity (.ok entries) w = .error (.accessDenied resource) w'

/-- **`POST ?delete` deletes what the single deletes would**: an entry removes or hides something
only if its own delete would be authorised, and none whose own delete would be is refused. -/
def LikeSingleDeletes (row : BucketRow) (entries : List DeleteEntry) (w : World) : Prop :=
  (¬ PostRefused J N req identity entries w →
    AtItsTurn N (BucketsService.toItem row).toBucketContext (accessKeyOf identity)
      (fun entry w' =>
        Removes N (BucketsService.toItem row).toBucketContext (accessKeyOf identity) entry w' →
          SingleAuthorised J req identity row w entry) entries w) ∧
  (PostRefused J N req identity entries w → ∀ entry ∈ entries, ¬ SingleAuthorised J req identity row w entry)

variable {J N req identity}

/-- **`POST ?delete` is refused as a whole, or deletes its entries in turn.** -/
theorem post_spec {w : World} {row : BucketRow} (hguids : (w.db.buckets.map (·.guid)).Nodup)
    (hrow : BucketsService.findBucket req.bucket w.db = some row) (entries : List DeleteEntry) :
    wp (post J N req identity (.ok entries))
      (fun r w' => (∃ result, r = .deletedMany result) ∧
        ¬ Refuses J (some req.values) identity row .deleteObject none w ∧
        w' = entries.foldl (fun w entry => stateAfter (ObjectsService.delete N
          (BucketsService.toItem row).toBucketContext entry.key entry.versionId
          (accessKeyOf identity)) w) w)
      (fun e w' => w' = w ∧ (∃ resource, e = .accessDenied resource) ∧
        Refuses J (some req.values) identity row .deleteObject none w) w := by
  rw [post, wp_bind]
  refine wp_mono (resolveBucket_spec J hguids (some req.values) req.bucket identity .deleteObject none)
    ?_ ?_
  · rintro bucket w₀ ⟨hsame, row', hrow', rfl, hallowed⟩
    obtain rfl := Option.some.inj (hrow.symm.trans hrow')
    rw [hsame, wp_bind, readRequest, wp_pure, wp_bind]
    refine wp_mono (deleteMany_state _ _ entries w) ?_ fun _ _ h => h.elim
    intro result w' h
    exact ⟨⟨result, rfl⟩, hallowed, h⟩
  · rintro e w' ⟨hsame, hnone | ⟨row', hrow', he, hrefuses⟩⟩
    · cases hrow.symm.trans hnone.2
    · obtain rfl := Option.some.inj (hrow.symm.trans hrow')
      exact ⟨hsame, ⟨_, he⟩, hrefuses⟩

theorem postRefused_iff {w : World} {row : BucketRow} (hguids : (w.db.buckets.map (·.guid)).Nodup)
    (hrow : BucketsService.findBucket req.bucket w.db = some row) (entries : List DeleteEntry) :
    PostRefused J N req identity entries w ↔
      Refuses J (some req.values) identity row .deleteObject none w := by
  rw [PostRefused]
  cases hrun : post J N req identity (.ok entries) w with
  | ok r w' =>
    exact iff_of_false (fun ⟨_, _, h⟩ => nomatch h) (wp_of_ok hrun (post_spec hguids hrow entries)).2.1
  | error e w' =>
    obtain ⟨-, ⟨resource, rfl⟩, hrefuses⟩ := wp_of_error hrun (post_spec hguids hrow entries)
    exact iff_of_true ⟨resource, w', rfl⟩ hrefuses

end Decision

/-! ## A key its owner may not delete -/

def lockedObject : ObjectRow := ⟨2, 1, "locked/a".toList, some 2⟩

def lockedVersion : ObjectVersionRow where
  guid := 2
  objectGuid := 2
  versionId := nullVersionId
  etag := Codec.hex (Node.counting.md5 [])
  storagePath := some (StorageService.pathAt Node.counting 0)
  createdAt := 2

def lockedWorld : World where
  db := {
    buckets := [photos]
    bucketPolicies := [⟨1, lockedPolicy⟩]
    objects := [lockedObject]
    objectVersions := [lockedVersion] }
  disk := ⟨[(StorageService.pathAt Node.counting 0, ⟨[], 1⟩)]⟩
  encryption := ⟨false, []⟩
  calls := 3

end S3BucketController
end SimpleStorage
