import SimpleStorage.Buckets.BucketsService
import SimpleStorage.Library.Interleaving
import SimpleStorage.Objects.AtomicSteps

/-!
# Deleting a bucket while others write to it

`BucketsService.delete` counts the keys of a bucket in one statement and marks the bucket as
deleted in another.  A request that resolved the bucket earlier commits whenever its payload
has arrived.

`deleted_buckets_empty` says that, whatever else is going on, no key is stranded as long as
no commit comes between the two statements or after the second, and `stranded` is a schedule
with a commit between the two.
-/

namespace SimpleStorage
namespace BucketsService

open ObjectsService ObjectsTypes

/-- Requests that delete a bucket or write to one, with the buckets they resolved earlier. -/
inductive WriteRequest where
  | delete (guid : Guid)
  | put (params : PutObjectParams)
  | copy (source : ObjectVersionDetail) (target : BucketContext) (key : Text)
      (directive : MetadataDirective) (accessKeyId : Option Text) (headers : ObjectHeaders)
  | complete (bucket : BucketContext) (uploadId : Text) (parts : List CompletePart)

variable (N : Node)

def WriteRequest.program : WriteRequest → Service Unit
  | .delete guid => BucketsService.delete N guid
  | .put params => do let _ ← ObjectsService.put N params
  | .copy source target key directive accessKeyId headers => do
      let _ ← ObjectsService.copy N source target key directive accessKeyId headers
  | .complete bucket uploadId parts => do
      let _ ← ObjectsService.completeMultipartUpload N bucket uploadId parts

/-- The bucket has no key. -/
def NoObjects (bucketGuid : Guid) (db : Database) : Prop := ∀ o ∈ db.objects, o.bucketGuid ≠ bucketGuid

/-- **No key is stranded**: a deleted bucket has none. -/
def DeletedBucketsEmpty (db : Database) : Prop :=
  ∀ b ∈ db.buckets, b.deletedAt ≠ none → NoObjects b.guid db

instance (bucketGuid : Guid) (db : Database) : Decidable (NoObjects bucketGuid db) :=
  inferInstanceAs (Decidable (∀ o ∈ db.objects, _))

instance (db : Database) : Decidable (DeletedBucketsEmpty db) :=
  inferInstanceAs (Decidable (∀ b ∈ db.buckets, _))

/-- The bucket a commit is into. -/
def committedTo : Event → Option Guid
  | .committedVersion guid _ _ _ _ => some guid
  | _ => none

/-- The bucket that is marked as deleted. -/
def markedDeleted : Event → Option Guid
  | .deletedBucket guid => some guid
  | _ => none

/-- **No commit comes between a delete's count and its update, nor after it.** -/
def CommitsInTime (v : Shared Event World) (i : ℕ) (e : Event) : Prop :=
  (∀ guid ∈ markedDeleted e, ∀ e' ∈ v.record.takeWhile (· ≠ (i, .countedObjects guid)),
    committedTo e'.2 ≠ some guid) ∧
  ∀ guid ∈ committedTo e, ∀ b ∈ v.state.db.buckets, b.guid = guid → b.deletedAt = none

instance (v : Shared Event World) (i : ℕ) (e : Event) : Decidable (CommitsInTime v i e) :=
  inferInstanceAs (Decidable (_ ∧ _))

/-- Threads rely on each other to leave a bucket without keys as it is, unless they commit to it. -/
def emptyBuckets : Protocol Event World where
  permits := CommitsInTime
  inv v := DeletedBucketsEmpty v.state.db
  rely i v v' := ∃ new, v'.record = new ++ v.record ∧ (∀ e ∈ new, e.1 ≠ i) ∧
    ∀ guid, (∀ e ∈ new, committedTo e.2 ≠ some guid) → NoObjects guid v.state.db → NoObjects guid v'.state.db
  guar _ v e s := ∀ guid, (∀ e' ∈ e, committedTo e' ≠ some guid) → NoObjects guid v.state.db → NoObjects guid s.db
  refl _ v := ⟨[], rfl, nofun, fun _ _ h => h⟩
  trans := by
    rintro i v v' v'' ⟨new, hrecord, hother, hkept⟩ ⟨new', hrecord', hother', hkept'⟩
    refine ⟨new' ++ new, by rw [hrecord', hrecord, List.append_assoc], fun e he => ?_, fun guid h hv => ?_⟩
    · exact (List.mem_append.mp he).elim (hother' e) (hother e)
    · exact hkept' guid (fun e he => h e (List.mem_append_left _ he))
        (hkept guid (fun e he => h e (List.mem_append_right _ he)) hv)
  rely_of_guar := by
    rintro i j v e s hij - hguar -
    refine ⟨e.toList.map (j, ·), rfl, fun e' he' => ?_, fun guid h => hguar guid fun e' he' => ?_⟩
    · obtain ⟨_, -, rfl⟩ := List.mem_map.mp he'
      exact hij.symm
    · exact h (j, e') (List.mem_map.mpr ⟨e', by simpa using he', rfl⟩)

variable {N}

/-- A step of an operation on objects. -/
theorem atomic_stepHolds {event : World → Option Event} {effect : World → World}
    (h : Atomic N event effect) (i : ℕ) (v : Shared Event World) :
    emptyBuckets.StepHolds i event effect (fun _ _ => True) v := by
  intro v' _ hinv hpermits
  have hguar : emptyBuckets.guar i v' (event v'.state) (effect v'.state) := by
    intro guid hno hempty o ho hguid
    rcases h.objects v'.state ho with ⟨p, hp, -, hbucket⟩ | ⟨key, path, size, hevent⟩
    · exact hempty p hp (hbucket.trans hguid)
    · exact hno _ hevent (congrArg some hguid)
  refine ⟨hguar, fun b hb hdeleted => ?_, trivial⟩
  have hb' : b ∈ v'.state.db.buckets := h.buckets v'.state ▸ hb
  refine hguar b.guid (fun e he hcommit => ?_) (hinv b hb' hdeleted)
  exact hdeleted ((hpermits e he).2 b.guid hcommit b hb' rfl)

theorem atomic_holds {α : Type} {x : Service α} (hx : x.Every (Atomic N)) (i : ℕ)
    (v : Shared Event World) : emptyBuckets.holds i x (fun _ _ => True) (fun _ _ => True) v :=
  Protocol.holds_of_stable (fun _ => True) (fun _ _ h v _ => atomic_stepHolds h i v) hx trivial

/-- **A delete strands no key** if no commit comes between its statements. -/
theorem delete_holds (guid : Guid) (i : ℕ) (v : Shared Event World) :
    emptyBuckets.holds i (BucketsService.delete N guid) (fun _ _ => True) (fun _ _ => True) v := by
  rw [BucketsService.delete, Protocol.holds_bind, World.selectFor, Protocol.holds_observe]
  intro v₁ _ hinv₁ _
  refine ⟨fun _ _ h => h, hinv₁, ?_⟩
  beta_reduce
  rw [Protocol.holds_bind, Protocol.holds_require]
  refine ⟨fun hcount => ?_, fun _ => trivial⟩
  have hempty : NoObjects guid v₁.state.db := by
    intro o ho hguid
    refine hcount (List.length_pos_of_mem (a := o) ?_)
    exact List.mem_filter.mpr ⟨ho, decide_eq_true hguid⟩
  rw [World.insertFor, Protocol.holds_perform]
  rintro v₂ ⟨new, hrecord, hother, hkept⟩ hinv₂ hpermits
  have hnew : v₂.record.takeWhile (· ≠ (i, .countedObjects guid)) = new := by
    rw [hrecord, List.takeWhile_append_of_pos]
    · simp [Shared.after]
    · intro e he
      exact decide_eq_true fun h => hother e he (congrArg Prod.fst h)
  have hempty₂ : NoObjects guid v₂.state.db := by
    refine hkept guid (fun e he => ?_) hempty
    exact (hpermits (.deletedBucket guid) rfl).1 guid rfl e (hnew.symm ▸ he)
  refine ⟨fun _ _ h => h, fun b hb hdeleted => ?_, trivial⟩
  obtain ⟨b', hb', rfl⟩ := List.mem_map.mp hb
  split_ifs at hdeleted ⊢ with hguid
  · exact hguid ▸ hempty₂
  · exact hinv₂ b' hb' hdeleted

/-- **No key is stranded in a deleted bucket** on any schedule on which no commit comes between the
count and the update of a delete of its bucket, nor after the update. -/
theorem deleted_buckets_empty {w : World} (hw : DeletedBucketsEmpty w.db)
    (schedule : List (Move WriteRequest))
    (hpermitted : (⟨⟨w, []⟩, []⟩ : Pool _ _ _ _ _).Permitted (WriteRequest.program N) CommitsInTime
      schedule) :
    DeletedBucketsEmpty ((⟨⟨w, []⟩, []⟩ : Pool _ _ _ _ _).run (WriteRequest.program N)
      schedule).state.db := by
  have hprogram : ∀ (r : WriteRequest) i v, emptyBuckets.inv v → Protocol.Fresh i v →
      emptyBuckets.holds i (r.program N) (fun _ _ => True) (fun _ _ => True) v := by
    intro r i v _ _
    cases r with
    | delete guid => exact delete_holds guid i v
    | put params => exact atomic_holds (.bind (put_atomic params) fun _ => .pure _) i v
    | copy source target key directive accessKeyId headers =>
      exact atomic_holds (.bind (copy_atomic _ _ _ _ _ _) fun _ => .pure _) i v
    | complete bucket uploadId parts =>
      exact atomic_holds (.bind (completeMultipartUpload_atomic _ _ _) fun _ => .pure _) i v
  exact (Protocol.sound (P := emptyBuckets) hprogram (.of_idle (v := ⟨w, []⟩) hw rfl) hpermitted).inv

/-! ## A key stranded -/

def racedBucket : BucketRow := { guid := 1, name := "photos".toList, ownerUserGuid := "user-1".toList }

def racedPool : Pool WriteRequest Event Fault World Unit where
  state := { db := { buckets := [racedBucket] }, encryption := ⟨false, []⟩, calls := 2 }

def putPhoto : WriteRequest :=
  .put { bucket := (toItem racedBucket).toBucketContext, key := ['a'], stream := ⟨[[1]], false⟩ }

/-- A key is written between the two statements of a delete. -/
def lateCommit : List (Move WriteRequest) :=
  [.start (.delete 1), .start putPhoto, .advance 0] ++ List.replicate 12 (.advance 1) ++ [.advance 0]

/-- **A key is stranded**: the write is acknowledged, and the bucket is deleted. -/
theorem stranded :
    let p := racedPool.run (WriteRequest.program Node.counting) lateCommit
    (p.threads[1]?.bind (·.rest)).any (fun x => x matches .done ()) = true ∧
      ¬ DeletedBucketsEmpty p.state.db := by
  decide

/-- A key written in time keeps its bucket from being deleted. -/
theorem deleted_buckets_empty_inTime : DeletedBucketsEmpty
    (racedPool.run (WriteRequest.program Node.counting) ([.start (.delete 1), .start putPhoto] ++
      List.replicate 12 (.advance 1) ++ [.advance 0, .advance 0])).state.db :=
  deleted_buckets_empty (by decide) _ (by decide)

end BucketsService
end SimpleStorage
