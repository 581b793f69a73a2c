import SimpleStorage.Gc.GcService
import SimpleStorage.Library.Interleaving
import SimpleStorage.Objects.Requests
import SimpleStorage.Objects.UploadOperations

/-!
# What a sweep leaves on disk

A sweep of a deployment at rest, all of whose blobs and uploads in progress are old enough,
leaves the blobs the tables refer to.  It aborts every upload in progress, but the parts of
uploads that were retired it takes for claimed, as it reads the part rows whatever the state
of their uploads.

* `collect_spec`: exactly which blobs are left.
* `reclaims_iff`: they are those of versions, after any run of requests that may crash,
  exactly if no part row of a retired upload has its blob still.
* `stranded_part`: a completion that crashed between the status and the part rows.
-/

namespace SimpleStorage
namespace GcService

open GcTypes ObjectsService Program Statements StorageService

variable {N : Node} {config : Config}

/-- The upload is in progress. -/
def InProgress (uploadGuid : Guid) (db : Database) : Prop :=
  ∃ u ∈ db.multipartUploads, u.guid = uploadGuid ∧ u.status = .inProgress

/-- A version row refers to the blob. -/
def Referenced (storagePath : Text) (db : Database) : Prop :=
  ∃ v ∈ db.objectVersions, v.storagePath = some storagePath

/-- **Every blob on disk is referenced by a version row.** -/
def Reclaimed (w : World) : Prop :=
  ∀ storagePath, (w.disk.get storagePath).isSome → Referenced storagePath w.db

/-- **Every blob of a part row is one of an upload in progress**, or of a version. -/
def NoneStranded (w : World) : Prop :=
  ∀ part ∈ w.db.multipartParts, (w.disk.get part.storagePath).isSome →
    (∃ other ∈ w.db.multipartParts, other.storagePath = part.storagePath ∧
      InProgress other.uploadGuid w.db) ∨ Referenced part.storagePath w.db

/-- Everything is as old as the collector wants it. -/
structure OldEnough (N : Node) (config : Config) (w : World) : Prop where
  blobs : ∀ storagePath blob, w.disk.get storagePath = some blob →
    blob.modifiedAt + config.blobMinAgeHours * hourMs ≤ N.now w.calls
  uploads : ∀ u ∈ w.db.multipartUploads, u.status = .inProgress →
    u.createdAt + config.multipartMaxAgeHours * hourMs < N.now w.calls

instance (uploadGuid : Guid) (db : Database) : Decidable (InProgress uploadGuid db) :=
  inferInstanceAs (Decidable (∃ u ∈ db.multipartUploads, _))

instance (storagePath : Text) (db : Database) : Decidable (Referenced storagePath db) :=
  inferInstanceAs (Decidable (∃ v ∈ db.objectVersions, _))

instance (w : World) : Decidable (NoneStranded w) :=
  inferInstanceAs (Decidable (∀ part ∈ w.db.multipartParts, _))

/-! ## Aborting uploads -/

theorem deleteBlobs_spec (paths : List Text) (w : World) :
    wp (deleteBlobs paths) (fun _ w' => w' = { w with disk := w.disk.removeAll paths }) (fun _ _ => False)
      w := by
  induction paths generalizing w with
  | nil => exact rfl
  | cons path paths ih => exact wp_forM_cons.mpr (ih _)

/-- The deployment after an upload was aborted. -/
def aborted (w : World) (uploadGuid : Guid) : World := { w with
  db := closeUpload uploadGuid .aborted w.db
  disk := w.disk.removeAll ((partsOf uploadGuid w.db).map (·.storagePath)) }

theorem abort_spec (bucketGuid : Guid) (uploadId : Text) (w : World) :
    wp (abortMultipartUpload bucketGuid uploadId)
      (fun _ w' => ∃ u, findUpload bucketGuid uploadId w.db = some u ∧ w' = aborted w u.guid)
      (fun _ w' => findUpload bucketGuid uploadId w.db = none ∧ w' = w) w := by
  rw [abortMultipartUpload, wp_bind]
  refine wp_mono (requireUpload_spec w bucketGuid uploadId) ?_ fun _ _ h => ⟨h.2.2, h.1⟩
  rintro u w₀ ⟨rfl, hu⟩
  rw [wp_bind, World.select, wp_query, wp_bind, World.executeFor, wp_perform, wp_bind,
    World.executeFor, wp_perform]
  exact wp_mono (deleteBlobs_spec _ _) (fun _ w' h => ⟨u, hu, h⟩) fun _ _ h => h.elim

/-- What became of an upload that was in progress: it is still there with its parts, or it was
aborted, and neither a part nor its blob is left. -/
def Gone (w w' : World) (uploadGuid : Guid) : Prop :=
  ¬ InProgress uploadGuid w'.db ∧ (∀ part ∈ w'.db.multipartParts, part.uploadGuid ≠ uploadGuid) ∧
    ∀ part ∈ w.db.multipartParts, part.uploadGuid = uploadGuid → w'.disk.get part.storagePath = none

/-- **What aborting uploads does on the way**, from `w` to `w'`. -/
structure Aborting (w w' : World) : Prop where
  versions : w'.db.objectVersions = w.db.objectVersions
  calls : w.calls ≤ w'.calls
  ids : w'.db.multipartUploads.map (·.uploadId) = w.db.multipartUploads.map (·.uploadId)
  parts : ∀ part ∈ w'.db.multipartParts, part ∈ w.db.multipartParts
  uploads : ∀ u ∈ w'.db.multipartUploads, u.status = .inProgress → u ∈ w.db.multipartUploads
  retired : ∀ part ∈ w.db.multipartParts, ¬ InProgress part.uploadGuid w.db → part ∈ w'.db.multipartParts
  disk : ∀ storagePath, (∀ part ∈ w.db.multipartParts, part.storagePath = storagePath →
    ¬ InProgress part.uploadGuid w.db) → w'.disk.get storagePath = w.disk.get storagePath
  shrinks : ∀ storagePath blob, w'.disk.get storagePath = some blob → w.disk.get storagePath = some blob
  open_or_gone : ∀ u ∈ w.db.multipartUploads, u.status = .inProgress → Gone w w' u.guid ∨
    u ∈ w'.db.multipartUploads ∧
      ∀ part ∈ w.db.multipartParts, part.uploadGuid = u.guid → part ∈ w'.db.multipartParts

theorem Aborting.refl (w : World) : Aborting w w :=
  ⟨rfl, le_rfl, rfl, fun _ h => h, fun _ h _ => h, fun _ h _ => h, fun _ _ => rfl, fun _ _ h => h,
    fun _ hu _ => Or.inr ⟨hu, fun _ h _ => h⟩⟩

/-- Time goes by. -/
theorem Aborting.tick {w w' : World} (h : Aborting w w') : Aborting w { w' with calls := w'.calls + 1 } :=
  { h with calls := h.calls.trans (Nat.le_succ _) }

theorem not_inProgress_aborted (w : World) (uploadGuid : Guid) :
    ¬ InProgress uploadGuid (aborted w uploadGuid).db := by
  rintro ⟨u, hu, hguid, hstatus⟩
  obtain ⟨u', -, rfl⟩ := List.mem_map.mp hu
  by_cases h : u'.guid = uploadGuid
  · rw [if_pos h] at hstatus
    cases hstatus
  · rw [if_neg h] at hguid
    exact h hguid

/-- No upload is taken up again. -/
theorem inProgress_of_aborted {w : World} {u : MultipartUploadRow} {uploadGuid : Guid}
    (hu : u ∈ (aborted w uploadGuid).db.multipartUploads) (hstatus : u.status = .inProgress) :
    u ∈ w.db.multipartUploads := by
  obtain ⟨u', hu', rfl⟩ := List.mem_map.mp hu
  by_cases h : u'.guid = uploadGuid
  · rw [if_pos h] at hstatus
    cases hstatus
  · rwa [if_neg h]

theorem get_aborted_of_some {w : World} {uploadGuid : Guid} {storagePath : Text} {blob : Blob}
    (h : (aborted w uploadGuid).disk.get storagePath = some blob) : w.disk.get storagePath = some blob := by
  rw [aborted] at h
  by_cases hmem : storagePath ∈ (partsOf uploadGuid w.db).map (·.storagePath)
  · rw [FileTable.get_removeAll_of_mem hmem] at h
    cases h
  · rwa [FileTable.get_removeAll_of_notMem hmem] at h

theorem Gone.abort {w w' : World} {guid uploadGuid : Guid} (h : Gone w w' guid) :
    Gone w (aborted w' uploadGuid) guid := by
  obtain ⟨hstatus, hparts, hdisk⟩ := h
  refine ⟨?_, fun part hpart => hparts part (mem_closeUpload_parts.mp hpart).1, fun part hpart hguid => ?_⟩
  · rintro ⟨u, hu, hguid, hin⟩
    exact hstatus ⟨u, inProgress_of_aborted hu hin, hguid, hin⟩
  · refine Option.eq_none_iff_forall_ne_some.mpr fun blob hblob => ?_
    have hnone := hdisk part hpart hguid
    rw [get_aborted_of_some hblob] at hnone
    cases hnone

/-- **Aborting one more upload.** -/
theorem Aborting.abort {w w' : World} (h : Aborting w w') {u : MultipartUploadRow}
    (hu : u ∈ w'.db.multipartUploads) (hstatus : u.status = .inProgress) :
    Aborting w (aborted w' u.guid) ∧ Gone w (aborted w' u.guid) u.guid := by
  have hmem := h.uploads u hu hstatus
  have hopen : InProgress u.guid w.db := ⟨u, hmem, rfl, hstatus⟩
  have hgone : Gone w (aborted w' u.guid) u.guid := by
    rcases h.open_or_gone u hmem hstatus with hgone | ⟨-, hparts⟩
    · exact hgone.abort
    · refine ⟨not_inProgress_aborted w' u.guid, fun part hpart => (mem_closeUpload_parts.mp hpart).2,
        fun part hpart hguid => FileTable.get_removeAll_of_mem (List.mem_map_of_mem ?_)⟩
      exact List.mem_filter.mpr ⟨hparts part hpart hguid, decide_eq_true hguid⟩
  refine ⟨⟨h.versions, h.calls, ?_, fun part hpart => h.parts part (mem_closeUpload_parts.mp hpart).1,
    fun v hv hin => h.uploads v (inProgress_of_aborted hv hin) hin, fun part hpart hclosed => ?_,
    fun storagePath hclosed => ?_, fun _ _ hblob => h.shrinks _ _ (get_aborted_of_some hblob),
    fun v hv hin => ?_⟩, hgone⟩
  · exact (map_closeUpload_uploads .aborted (·.uploadId) (fun _ => rfl) u.guid w'.db).trans h.ids
  · refine mem_closeUpload_parts.mpr ⟨h.retired part hpart hclosed, fun hguid => ?_⟩
    exact hclosed (hguid ▸ hopen)
  · refine (FileTable.get_removeAll_of_notMem fun hpath => ?_).trans (h.disk storagePath hclosed)
    obtain ⟨part, hpart, hpath⟩ := List.mem_map.mp hpath
    obtain ⟨hpart, hguid⟩ := List.mem_filter.mp hpart
    exact hclosed part (h.parts part hpart) hpath (of_decide_eq_true hguid ▸ hopen)
  · rcases h.open_or_gone v hv hin with hv' | ⟨hv', hparts⟩
    · exact Or.inl hv'.abort
    · by_cases hguid : v.guid = u.guid
      · exact Or.inl (hguid ▸ hgone)
      · exact Or.inr ⟨List.mem_map.mpr ⟨v, hv', if_neg hguid⟩, fun part hpart hpguid =>
          mem_closeUpload_parts.mpr ⟨hparts part hpart hpguid, fun hne => hguid (hpguid.symm.trans hne)⟩⟩

/-- One turn of the loop. -/
theorem abortStale_spec {w w' : World} (h : Aborting w w') (upload : Guid × Text) (n : ℕ) :
    wp (tryCatch (do
        abortMultipartUpload upload.1 upload.2
        return n + 1) fun _ => return n)
      (fun _ w'' => Aborting w w'' ∧ (∀ guid, Gone w w' guid → Gone w w'' guid) ∧
        ((w.db.multipartUploads.map (·.uploadId)).Nodup → ∀ u ∈ w.db.multipartUploads,
          u.status = .inProgress → u.bucketGuid = upload.1 → u.uploadId = upload.2 → Gone w w'' u.guid))
      (fun _ _ => False) w' := by
  rw [wp_tryCatch, wp_bind]
  refine wp_mono (abort_spec upload.1 upload.2 w') ?_ ?_
  · rintro _ w'' ⟨u, hfound, rfl⟩
    obtain ⟨hu, hstatus⟩ : u ∈ w'.db.multipartUploads ∧ u.status = .inProgress := by
      have hp := List.find?_some hfound
      simp only [Bool.and_eq_true, decide_eq_true_iff] at hp
      exact ⟨List.mem_of_find?_eq_some hfound, hp.2⟩
    obtain ⟨haborting, hgone⟩ := h.abort hu hstatus
    refine ⟨haborting, fun guid hguid => hguid.abort, fun hids v hv hin hbucket hid => ?_⟩
    rcases h.open_or_gone v hv hin with hv' | ⟨hv', -⟩
    · exact hv'.abort
    · have hsame := (findUpload_eq_some (k := upload) (h.ids ▸ hids)).mpr ⟨hv', hid, hbucket, hin⟩
      obtain rfl := Option.some.inj (hsame.symm.trans hfound)
      exact hgone
  · rintro _ w'' ⟨hnone, rfl⟩
    refine ⟨h, fun guid hguid => hguid, fun hids v hv hin hbucket hid => ?_⟩
    refine (h.open_or_gone v hv hin).resolve_right fun ⟨hv', _⟩ => ?_
    have hsome := (findUpload_eq_some (k := upload) (h.ids ▸ hids)).mpr ⟨hv', hid, hbucket, hin⟩
    exact absurd (hnone.symm.trans hsome) nofun

/-- **Every upload in progress is aborted** if all are old enough. -/
theorem abortAbandonedUploads_spec {w w' : World} (h : Aborting w w')
    (hdb : w'.db = w.db) (hids : (w.db.multipartUploads.map (·.uploadId)).Nodup)
    (hclock : ∀ s t, s ≤ t → N.now s ≤ N.now t)
    (hold : ∀ u ∈ w.db.multipartUploads, u.status = .inProgress →
      u.createdAt + config.multipartMaxAgeHours * hourMs < N.now w.calls) :
    wp (abortAbandonedUploads N config)
      (fun _ w'' => Aborting w w'' ∧ ∀ uploadGuid, InProgress uploadGuid w.db → Gone w w'' uploadGuid)
      (fun _ _ => False) w' := by
  have hturn := fun (n : ℕ) (upload : Guid × Text) w₁ (hw₁ : Aborting w w₁) =>
    wp_mono (abortStale_spec hw₁ upload n) (fun _ _ h => h.1) fun _ _ h => h
  rw [abortAbandonedUploads, wp_bind, World.nextCall, wp_alter, wp_bind, World.select, wp_query]
  refine wp_mono (wp_and (wp_foldlM (Aborting w) (fun n upload _ => hturn n upload) h.tick)
    (wp_forall fun uploadGuid => (?_ : wp _ _ (fun _ _ => False) _))) (fun _ _ h => h) fun _ _ h => h.1
  by_cases hopen : InProgress uploadGuid w.db
  swap
  · exact wp_mono (wp_foldlM (Aborting w) (fun n upload _ => hturn n upload) h.tick)
      (fun _ _ _ hin => absurd hin hopen) fun _ _ h => h
  obtain ⟨u, hu, rfl, hstatus⟩ := hopen
  have hstale : (u.bucketGuid, u.uploadId) ∈
      staleUploads (N.now w'.calls - config.multipartMaxAgeHours * hourMs) w'.db := by
    refine List.mem_map.mpr ⟨u, List.mem_filter.mpr ⟨hdb ▸ hu, ?_⟩, rfl⟩
    have hage := (hold u hu hstatus).trans_le (hclock _ _ h.calls)
    rw [Bool.and_eq_true, decide_eq_true_iff, decide_eq_true_iff]
    exact ⟨hstatus, Int.lt_sub_right_of_add_lt (by exact_mod_cast hage)⟩
  refine wp_mono (wp_foldlM_mem (Aborting w) (fun w₁ => Gone w w₁ u.guid)
    (fun n upload _ => hturn n upload) (fun n upload _ w₁ hw₁ hgone => ?_) hstale (fun n w₁ hw₁ => ?_) h.tick)
    (fun _ _ h _ => h) fun _ _ h => h
  · exact wp_mono (abortStale_spec hw₁ upload n) (fun _ _ h => h.2.1 _ hgone) fun _ _ h => h
  · exact wp_mono (abortStale_spec hw₁ _ n) (fun _ _ h => h.2.2 hids u hu hstatus rfl rfl) fun _ _ h => h

/-! ## Sweeping -/

/-- A row of any of the tables has the path. -/
def Claimed (storagePath : Text) (db : Database) : Prop :=
  Referenced storagePath db ∨ ∃ part ∈ db.multipartParts, part.storagePath = storagePath

/-- The paths a sweep reads. -/
def claimedPaths (db : Database) : List Text :=
  storagePaths db.objectVersions ++ db.multipartParts.map (·.storagePath)

theorem mem_claimedPaths {storagePath : Text} (h : storagePath ≠ []) {db : Database} :
    storagePath ∈ claimedPaths db ↔ Claimed storagePath db := by
  rw [claimedPaths, List.mem_append, List.mem_map, storagePaths, List.mem_filterMap]
  refine or_congr ⟨?_, ?_⟩ Iff.rfl
  · rintro ⟨v, hv, hpresent⟩
    exact ⟨v, hv, (Query.present_eq_some_iff.mp hpresent).1⟩
  · rintro ⟨v, hv, hpath⟩
    exact ⟨v, hv, Query.present_eq_some_iff.mpr ⟨hpath, h⟩⟩

/-- What a sweep has done on the way: only files it did not find claimed are gone. -/
structure Sweeping (w w' : World) : Prop where
  db : w'.db = w.db
  claimed : ∀ storagePath ∈ claimedPaths w.db, w'.disk.get storagePath = w.disk.get storagePath
  shrinks : ∀ storagePath blob, w'.disk.get storagePath = some blob → w.disk.get storagePath = some blob

theorem Sweeping.remove {w w' : World} (h : Sweeping w w') {storagePath : Text}
    (hfree : storagePath ∉ claimedPaths w.db) :
    Sweeping w { w' with disk := w'.disk.remove storagePath } := by
  refine ⟨h.db, fun path hpath => ?_, fun path blob hblob => h.shrinks path blob ?_⟩
  · exact (FileTable.get_remove_of_ne (by rintro rfl; exact hfree hpath)).trans (h.claimed path hpath)
  · by_cases hpath : path = storagePath
    · rw [hpath, FileTable.get_remove_self] at hblob
      cases hblob
    · rwa [FileTable.get_remove_of_ne hpath] at hblob

/-- **A sweep leaves the files that are claimed**, if all the others are old enough. -/
theorem collectOrphanedBlobs_spec (w : World)
    (hold : ∀ storagePath blob, w.disk.get storagePath = some blob → WellPlaced storagePath ∧
      blob.modifiedAt + config.blobMinAgeHours * hourMs ≤ N.now w.calls) :
    wp (collectOrphanedBlobs N config)
      (fun _ w' => w'.db = w.db ∧ ∀ storagePath, (w'.disk.get storagePath).isSome ↔
        (w.disk.get storagePath).isSome ∧ Claimed storagePath w.db)
      (fun _ _ => False) w := by
  rw [collectOrphanedBlobs, wp_bind, referencedStoragePaths, wp_bind, wp_observe, wp_bind, World.select,
    wp_query, wp_pure, wp_bind, World.nextCallFor, wp_perform]
  change wp (listBlobs (sweepBlob (claimedPaths w.db)
    (N.now w.calls - config.blobMinAgeHours * hourMs : ℤ)) {}) _ _ { w with calls := w.calls + 1 }
  have hstart : Sweeping w { w with calls := w.calls + 1 } := ⟨rfl, fun _ _ => rfl, fun _ _ h => h⟩
  have hinv : ∀ path, Handles (sweepBlob (claimedPaths w.db)
      (N.now w.calls - config.blobMinAgeHours * hourMs : ℤ)) (fun _ _ => False) path (Sweeping w)
      (Sweeping w) := by
    intro path acc w' blob _ hw'
    unfold sweepBlob
    split_ifs with hclaimed hyoung
    · exact hw'
    · exact hw'
    · exact hw'.remove hclaimed
  have hgoes : ∀ storagePath, WellPlaced storagePath → storagePath ∉ claimedPaths w.db →
      wp (listBlobs (sweepBlob (claimedPaths w.db) (N.now w.calls - config.blobMinAgeHours * hourMs : ℤ)) {})
        (fun _ w' => w'.disk.get storagePath = none) (fun _ _ => False)
        { w with calls := w.calls + 1 } := by
    intro storagePath hplaced hfree
    refine listBlobs_visits hinv (fun path acc w' blob _ hw' => ?_) (fun acc w' blob hget hw' => ?_)
      (fun _ hnone _ => hnone) hplaced hstart
    · unfold sweepBlob
      split_ifs with hclaimed hyoung
      · exact hw'.2
      · exact hw'.2
      · exact FileTable.get_remove_of_none hw'.2
    · have hage := (hold storagePath blob (hw'.shrinks storagePath blob hget)).2
      rw [sweepBlob, if_neg hfree, if_neg (not_lt.mpr (Int.le_sub_right_of_add_le (by exact_mod_cast hage)))]
      exact FileTable.get_remove_self _ _
  refine wp_mono (wp_and (listBlobs_wp hinv hstart) (wp_forall fun storagePath =>
    (?_ : wp _ (fun _ w' => WellPlaced storagePath → storagePath ∉ claimedPaths w.db →
      w'.disk.get storagePath = none) (fun _ _ => False) _))) ?_ fun _ _ h => h.1
  · by_cases h : WellPlaced storagePath ∧ storagePath ∉ claimedPaths w.db
    · exact wp_mono (hgoes storagePath h.1 h.2) (fun _ _ hnone _ _ => hnone) fun _ _ h => h
    · exact wp_mono (listBlobs_wp hinv hstart) (fun _ _ _ hplaced hfree => absurd ⟨hplaced, hfree⟩ h)
        fun _ _ h => h
  rintro _ w' ⟨hsweeping, hgone⟩
  refine ⟨hsweeping.db, fun storagePath => ⟨fun hsome => ?_, fun hkept => ?_⟩⟩
  · obtain ⟨blob, hblob⟩ := Option.isSome_iff_exists.mp hsome
    have hbefore := hsweeping.shrinks storagePath blob hblob
    refine ⟨Option.isSome_iff_exists.mpr ⟨blob, hbefore⟩, ?_⟩
    have hplaced := (hold storagePath blob hbefore).1
    rw [← mem_claimedPaths hplaced.ne_nil]
    by_contra hfree
    rw [hgone storagePath hplaced hfree] at hblob
    cases hblob
  · obtain ⟨blob, hblob⟩ := Option.isSome_iff_exists.mp hkept.1
    have hplaced := (hold storagePath blob hblob).1
    rw [hsweeping.claimed storagePath ((mem_claimedPaths hplaced.ne_nil).mpr hkept.2)]
    exact hkept.1

/-! ## A whole sweep -/

/-- What a sweep leaves: what is claimed, but not by an upload in progress. -/
def Left (storagePath : Text) (db : Database) : Prop :=
  Claimed storagePath db ∧
    ∀ part ∈ db.multipartParts, part.storagePath = storagePath → ¬ InProgress part.uploadGuid db

/-- What the aborts leave to the walk. -/
theorem left_iff_of_aborting {w w' : World} (h : Aborting w w')
    (hgone : ∀ uploadGuid, InProgress uploadGuid w.db → Gone w w' uploadGuid) (storagePath : Text) :
    (w'.disk.get storagePath).isSome ∧ Claimed storagePath w'.db ↔
      (w.disk.get storagePath).isSome ∧ Left storagePath w.db := by
  constructor
  · rintro ⟨hsome, hclaimed⟩
    obtain ⟨blob, hblob⟩ := Option.isSome_iff_exists.mp hsome
    refine ⟨Option.isSome_iff_exists.mpr ⟨blob, h.shrinks storagePath blob hblob⟩, ?_,
      fun part hpart hpath hopen => ?_⟩
    · rcases hclaimed with ⟨v, hv, hpath⟩ | ⟨part, hpart, hpath⟩
      · exact Or.inl ⟨v, h.versions ▸ hv, hpath⟩
      · exact Or.inr ⟨part, h.parts part hpart, hpath⟩
    · rw [← hpath, (hgone part.uploadGuid hopen).2.2 part hpart rfl] at hblob
      cases hblob
  · rintro ⟨hsome, hclaimed, hclosed⟩
    rw [h.disk storagePath hclosed]
    refine ⟨hsome, ?_⟩
    rcases hclaimed with ⟨v, hv, hpath⟩ | ⟨part, hpart, hpath⟩
    · exact Or.inl ⟨v, h.versions.symm ▸ hv, hpath⟩
    · exact Or.inr ⟨part, h.retired part hpart (hclosed part hpart hpath), hpath⟩

/-- Every file is where generated paths are. -/
def Placed (w : World) : Prop := ∀ storagePath blob, w.disk.get storagePath = some blob → WellPlaced storagePath

/-- **A sweep of a deployment at rest** leaves a blob exactly if some row claims it, but none of an
upload in progress. -/
theorem collect_spec (hclock : ∀ s t, s ≤ t → N.now s ≤ N.now t) (w : World)
    (hids : (w.db.multipartUploads.map (·.uploadId)).Nodup)
    (hplaced : Placed w) (hold : OldEnough N config w) :
    wp (collect N config)
      (fun _ w' => w'.db.objectVersions = w.db.objectVersions ∧ ∀ storagePath,
        (w'.disk.get storagePath).isSome ↔ (w.disk.get storagePath).isSome ∧ Left storagePath w.db)
      (fun _ _ => False) w := by
  rw [collect, wp_bind, World.nextCall, wp_alter, wp_bind]
  refine wp_mono (abortAbandonedUploads_spec (Aborting.refl w).tick rfl hids hclock hold.uploads) ?_
    fun _ _ h => h
  rintro n w₁ ⟨haborting, hgone⟩
  rw [wp_bind]
  refine wp_mono (collectOrphanedBlobs_spec w₁ fun storagePath blob hblob => ?_) ?_
    fun _ _ h => h
  · have hblob := haborting.shrinks storagePath blob hblob
    exact ⟨hplaced storagePath blob hblob,
      (hold.blobs storagePath blob hblob).trans (hclock _ _ haborting.calls)⟩
  · rintro blobs w₂ ⟨hdb, hdisk⟩
    rw [wp_bind, wp_alter, wp_pure]
    refine ⟨(congrArg Database.objectVersions hdb).trans haborting.versions, fun storagePath => ?_⟩
    exact (hdisk storagePath).trans (left_iff_of_aborting haborting hgone storagePath)

theorem atomic_placed (huuid : ∀ call, '/' ∉ N.randomUUID call) {event : World → Option Event}
    {effect : World → World} (h : Atomic N event effect) {w : World}
    (hw : Placed w) : Placed (effect w) := by
  cases h with
  | offTables h =>
    cases h with
    | write t content =>
      intro storagePath blob hblob
      by_cases hpath : storagePath = storagePathOf (N.randomUUID t)
      · exact hpath ▸ wellPlaced_storagePathOf (huuid t)
      · rw [FileTable.get_set_of_ne hpath] at hblob
        exact hw storagePath blob hblob
    | remove path =>
      intro storagePath blob hblob
      by_cases hpath : storagePath = path
      · rw [hpath, FileTable.get_remove_self] at hblob
        cases hblob
      · rw [FileTable.get_remove_of_ne hpath] at hblob
        exact hw storagePath blob hblob
    | _ => exact hw
  | _ => exact hw

/-- **A sweep reclaims everything exactly if nothing is stranded**, after any requests, some of which
may have crashed. -/
theorem reclaims_iff (huuid : ∀ call, '/' ∉ N.randomUUID call)
    (hclock : ∀ s t, s ≤ t → N.now s ≤ N.now t) (w₀ : World)
    (hplaced : Placed w₀) (schedule : List (Move ObjectRequest)) (w : World)
    (hw : w = ((⟨⟨w₀, []⟩, []⟩ : Pool ObjectRequest Event Fault World Unit).run
      (ObjectRequest.program N) schedule).state)
    (hids : (w.db.multipartUploads.map (·.uploadId)).Nodup) (hold : OldEnough N config w) :
    Reclaimed (stateAfter (collect N config) w) ↔ NoneStranded w := by
  have hplaced' : Placed w := by
    rw [hw]
    exact Pool.run_keeps (ObjectRequest.program N) (ObjectRequest.program_atomic N)
      (fun _ _ h _ v (hv : Placed v.state) => atomic_placed huuid h hv)
      (fun t ht => absurd ht List.not_mem_nil) hplaced schedule
  obtain ⟨hversions, hleft⟩ := stateAfter_of_wp (wp_mono (collect_spec hclock w hids hplaced' hold)
    (fun _ _ h => h) fun _ _ h => h.elim)
  have hreferenced : ∀ storagePath, Referenced storagePath (stateAfter (collect N config) w).db ↔
      Referenced storagePath w.db := fun storagePath => by rw [Referenced, Referenced, hversions]
  constructor
  · intro hreclaimed part hpart hsome
    refine or_iff_not_imp_left.mpr fun hnone => ?_
    rw [← hreferenced]
    refine hreclaimed _ ((hleft _).mpr ⟨hsome, Or.inr ⟨part, hpart, rfl⟩, fun other hother hpath hopen => ?_⟩)
    exact hnone ⟨other, hother, hpath, hopen⟩
  · intro hnone storagePath hsome
    obtain ⟨hbefore, hclaimed, hclosed⟩ := (hleft storagePath).mp hsome
    rw [hreferenced]
    refine hclaimed.elim id fun ⟨part, hpart, hpath⟩ => ?_
    subst hpath
    rcases hnone part hpart hbefore with ⟨other, hother, hpath, hopen⟩ | hreferenced
    · exact absurd hopen (hclosed other hother hpath)
    · exact hreferenced

/-! ## A part that stays for good -/

/-- One upload in progress, with one part. -/
def onePart : World where
  db := {
    multipartUploads := [
      { guid := 2, uploadId := ['u'], bucketGuid := 1, key := ['a'], createdAt := 0 }]
    multipartParts := [
      { uploadGuid := 2, partNumber := 1, size := 1, etag := ['e'], storagePath := "p/q/r".toList
        createdAt := 0 }] }
  disk := ⟨[("p/q/r".toList, ⟨[7], 0⟩)]⟩
  encryption := ⟨false, []⟩
  calls := 3

/-- Eight days go by with every call. -/
def slow : Node := { Node.counting with now := fun call => call * (8 * 24 * hourMs) }

/-- A week for uploads, a day for blobs. -/
def defaults : Config := ⟨7 * 24, 24⟩

/-- A completion of that upload that takes some steps and crashes. -/
def completedUntil (steps : ℕ) : List (Move ObjectRequest) :=
  .start (.complete ⟨⟨1, "user-1".toList, none⟩, .disabled⟩ ['u'] [⟨1, ['e']⟩]) ::
    List.replicate steps (.advance 0) ++ [.crash 0]

def afterCompletedUntil (steps : ℕ) : World :=
  ((⟨⟨onePart, []⟩, []⟩ : Pool ObjectRequest Event Fault World Unit).run
    (ObjectRequest.program slow) (completedUntil steps)).state

/-- Checked file by file. -/
theorem OldEnough.of_bindings {w : World}
    (hblobs : ∀ file ∈ w.disk.bindings,
      file.2.modifiedAt + config.blobMinAgeHours * hourMs ≤ N.now w.calls)
    (huploads : ∀ u ∈ w.db.multipartUploads,
      u.createdAt + config.multipartMaxAgeHours * hourMs < N.now w.calls) : OldEnough N config w :=
  ⟨fun _ _ hget => hblobs _ (FileTable.mem_of_get hget), fun u hu _ => huploads u hu⟩

/-- **A completion that crashed between its status and its part rows** leaves a blob no sweep takes. -/
theorem stranded_part : OldEnough slow defaults (afterCompletedUntil 8) ∧
    ¬ Reclaimed (stateAfter (collect slow defaults) (afterCompletedUntil 8)) := by
  refine ⟨.of_bindings (by decide) (by decide), fun h => ?_⟩
  have hpart := h "p/q/r".toList
  revert hpart
  decide

/-- One that crashed before leaves nothing. -/
theorem reclaims_iff_crashed : NoneStranded (afterCompletedUntil 7) ∧
    Reclaimed (stateAfter (collect slow defaults) (afterCompletedUntil 7)) := by
  have h : NoneStranded (afterCompletedUntil 7) := by decide
  have hplaced : ∀ file ∈ onePart.disk.bindings, (Text.split '/' file.1).length = 3 := by decide
  have hdigit : ∀ n < 16, '/' ≠ Nat.digitChar n := by decide
  refine ⟨h, (reclaims_iff (fun call hmem => ?_) (fun _ _ h => Nat.mul_le_mul_right _ h) onePart
    (fun path blob hget => hplaced _ (FileTable.mem_of_get hget)) (completedUntil 7) _ rfl (by decide)
    (.of_bindings (by decide) (by decide))).mpr h⟩
  obtain ⟨i, -, hi⟩ := List.mem_map.mp hmem
  exact hdigit _ (Nat.mod_lt _ (by omega)) hi.symm

end GcService
end SimpleStorage
