import SimpleStorage.Objects.FilingOperations
import SimpleStorage.Objects.Retention
import SimpleStorage.Objects.StoreInvariant
import Mathlib.Data.List.Find

/-!
# Reading a key that is overwritten

A GET takes three steps: it reads the row of the key, then the version that row points at, then
it opens the blob of that version.  An overwrite of a `null` version drops the version it
replaces with the commit of its own, and the blob of that version later.

* `Points` is what a key points at, and `points_commitVersion` and `Points.commitVersion_other`
  what a commit makes of it.
* `Between` and `Opening` are what a GET goes by between two of its steps.  No overwrite undoes
  them that is `Spares` at each of its steps (`between_of_stores`, `opening_of_stores`).
* `served_throughout`: on every schedule whose steps all spare the GETs, no GET fails for want of
  a row or a blob, and each delivers the payload of a version the key has pointed at.
* `overwritten_not_found`: a commit between the two queries of a GET.
-/

namespace SimpleStorage
namespace ReadRaces

open ObjectsService ObjectsTypes Program Statements StorageService StorageTypes Filing Retention

/-! ## What a key points at -/

/-- The key's row, and the version of the key it points at. -/
structure Points (k : BucketKey) (db : Database) (o : ObjectRow) (r : ObjectVersionRow) : Prop where
  found : findObject k.1 k.2 db = some o
  mem : r ∈ db.objectVersions
  latest : o.latestVersionGuid = some r.guid
  own : r.objectGuid = o.guid

/-- The key points at a version like this. -/
def Serves (k : BucketKey) (db : Database) (p : ObjectVersionRow → Bool) : Prop :=
  ∃ o r, Points k db o r ∧ p r = true

/-- **The key has a version to read.** -/
abbrev Readable (k : BucketKey) (db : Database) : Prop := Serves k db (·.storagePath.isSome)

/-- The key points at its `null` version. -/
abbrev AtNull (k : BucketKey) (db : Database) : Prop := Serves k db (·.versionId = nullVersionId)

instance (k : BucketKey) (db : Database) (p : ObjectVersionRow → Bool) : Decidable (Serves k db p) :=
  decidable_of_iff (∃ o ∈ (findObject k.1 k.2 db).toList, ∃ r ∈ db.objectVersions,
      o.latestVersionGuid = some r.guid ∧ r.objectGuid = o.guid ∧ p r = true)
    ⟨fun ⟨o, ho, r, hr, hlatest, hown, hp⟩ => ⟨o, r, ⟨Option.mem_toList.mp ho, hr, hlatest, hown⟩, hp⟩,
      fun ⟨o, r, h, hp⟩ => ⟨o, Option.mem_toList.mpr h.found, r, h.mem, h.latest, h.own, hp⟩⟩

/-- It depends on the tables of keys and versions alone. -/
theorem Points.congr {k : BucketKey} {db db' : Database} {o : ObjectRow} {r : ObjectVersionRow}
    (h : Points k db o r) (hobjects : db'.objects = db.objects)
    (hversions : db'.objectVersions = db.objectVersions) : Points k db' o r := by
  refine ⟨?_, hversions ▸ h.mem, h.latest, h.own⟩
  rw [findObject, hobjects]
  exact h.found

section Commit

variable {k k' : BucketKey} {w : World} {o : ObjectRow} {r : ObjectVersionRow}
  {createdAt : Timestamp} {versionId : Text} {values : VersionValues}

/-- **A commit points its key at the version it inserts.** -/
theorem points_commitVersion (w : World) (k : BucketKey) (createdAt : Timestamp) (versionId : Text)
    (values : VersionValues) : ∃ o, Points k
      (Statements.commitVersion w.calls createdAt k.1 k.2 versionId values w.db).2 o
      (committedVersion w.calls createdAt k versionId values w.db) := by
  refine ⟨{ commitRow w.calls k w.db with latestVersionGuid := some w.calls }, ?_, ?_, rfl, rfl⟩
  · rw [commitVersion_eq, findObject_pointLatest]
    show (findObject k.1 k.2 (upsertObject w.calls k.1 k.2 w.db).2).map _ = _
    rw [findObject_upsertObject, Option.map_some, if_pos rfl]
  · have hversions := @objectVersions_commitVersion w.calls createdAt k.1 k.2 versionId values w.db
    rw [hversions]
    exact List.mem_append_right _ (List.mem_singleton_self _)

/-- A version that is not the `null` version, or belongs to another key, stays. -/
theorem mem_commitVersion_of_ne (hmem : r ∈ w.db.objectVersions)
    (hne : r.versionId ≠ nullVersionId ∨ r.objectGuid ≠ (commitRow w.calls k' w.db).guid) :
    r ∈ (Statements.commitVersion w.calls createdAt k'.1 k'.2 versionId values w.db).2.objectVersions := by
  have hversions := @objectVersions_commitVersion w.calls createdAt k'.1 k'.2 versionId values w.db
  rw [hversions, keptVersions]
  refine List.mem_append_left _ ?_
  split_ifs
  · refine List.mem_filter.mpr ⟨hmem, ?_⟩
    rcases hne with hne | hne
    · simp [hne]
    · simp [hne]
  · exact hmem

/-- A commit of another key leaves alone what a key points at. -/
theorem Points.commitVersion_other (h : Points k w.db o r) (hw : Integrity w) (hne : k' ≠ k) :
    Points k (Statements.commitVersion w.calls createdAt k'.1 k'.2 versionId values w.db).2 o r := by
  have hfresh : ∀ o ∈ w.db.objects, o.guid ≠ w.calls := fun o ho => (hw.object_lt o ho).ne
  have hguid := commitRow_guid_ne hw.object_guid hfresh hne h.found
  refine ⟨?_, mem_commitVersion_of_ne h.mem (Or.inr (h.own ▸ hguid)), h.latest, h.own⟩
  rw [findObject_commitVersion_of_ne hw.object_guid hfresh hne]
  exact h.found

/-- A commit leaves every row of a key where it is. -/
theorem findObject_commitVersion (hw : Integrity w) (hfound : findObject k.1 k.2 w.db = some o) :
    ∃ o', findObject k.1 k.2
        (Statements.commitVersion w.calls createdAt k'.1 k'.2 versionId values w.db).2 = some o' ∧
      o'.guid = o.guid := by
  by_cases hk : k' = k
  · subst hk
    obtain ⟨o', hpoints⟩ := points_commitVersion w k' createdAt versionId values
    refine ⟨o', hpoints.found, ?_⟩
    rw [← hpoints.own]
    show (commitRow w.calls k' w.db).guid = o.guid
    rw [commitRow, upsertObject_of_some hfound]
  · refine ⟨o, ?_, rfl⟩
    rw [findObject_commitVersion_of_ne hw.object_guid (fun o ho => (hw.object_lt o ho).ne) hk]
    exact hfound

/-- So does dropping another key. -/
theorem Points.purgeObject_other (h : Points k w.db o r) (hw : Integrity w) {o' : ObjectRow}
    (hfound : findObject k'.1 k'.2 w.db = some o') (hne : k' ≠ k) :
    Points k (Statements.purgeObject o'.guid w.db).2 o r := by
  have hother : ∀ p ∈ w.db.objects, (p.bucketGuid, p.key) = k → p.guid ≠ o'.guid := by
    intro p hp hk hguid
    have hsame : p = o' := List.inj_on_of_nodup_map hw.object_guid hp (List.mem_of_find?_eq_some hfound) hguid
    have hk' := List.find?_some hfound
    rw [Bool.and_eq_true, decide_eq_true_iff, decide_eq_true_iff] at hk'
    exact hne (Prod.ext (hk'.1.symm.trans (hsame ▸ congrArg Prod.fst hk))
      (hk'.2.symm.trans (hsame ▸ congrArg Prod.snd hk)))
  have hguid : o.guid ≠ o'.guid := by
    have hk := List.find?_some h.found
    rw [Bool.and_eq_true, decide_eq_true_iff, decide_eq_true_iff] at hk
    exact hother o (List.mem_of_find?_eq_some h.found) (Prod.ext hk.1 hk.2)
  refine ⟨?_, List.mem_filter.mpr ⟨h.mem, ?_⟩, h.latest, h.own⟩
  · show (w.db.objects.filter (·.guid ≠ o'.guid)).find? _ = some o
    rw [List.find?_filter, ← h.found, findObject]
    refine List.find?_congr fun p hp => ?_
    have hguid : p.bucketGuid = k.1 → p.key = k.2 → p.guid ≠ o'.guid :=
      fun h h' => hother p hp (Prod.ext h h')
    simpa using hguid
  · simpa [h.own] using hguid

end Commit

/-- What a query by the pointer finds. -/
theorem selectVersion_eq {w : World} {o : ObjectRow} {r : ObjectVersionRow}
    (hmem : r ∈ w.db.objectVersions) (hlatest : o.latestVersionGuid = some r.guid)
    (hguids : VersionGuids w) : ObjectsService.selectVersion o none w.db = some r := by
  show findVersionByGuid o.latestVersionGuid w.db = some r
  rw [hlatest, findVersionByGuid]
  cases h : w.db.objectVersions.find? fun v => some v.guid = some r.guid with
  | none =>
    have hnot := List.find?_eq_none.mp h r hmem
    simp at hnot
  | some u =>
    have hu := List.find?_some h
    rw [decide_eq_true_iff, Option.some.injEq] at hu
    rw [List.inj_on_of_nodup_map hguids.nodup (List.mem_of_find?_eq_some h) hmem hu]

/-! ## What is on record about a GET -/

/-- What a thread left on record last. -/
def lastOf (i : ℕ) (record : List (ℕ × Event)) : Option Event :=
  (record.find? (·.1 = i)).map (·.2)

/-- What was left on record since, by others. -/
def sinceLastOf (i : ℕ) (record : List (ℕ × Event)) : List (ℕ × Event) :=
  record.takeWhile (·.1 ≠ i)

def keyCommitted : Event → Option BucketKey
  | .committedVersion bucketGuid key _ _ _ => some (bucketGuid, key)
  | _ => none

def pathRemoved : Event → Option Text
  | .removedBlob path => some path
  | _ => none

theorem keyCommitted_of_offTables {x : Event} (h : x.OffTables) : keyCommitted x = none := by
  cases x <;> first | rfl | exact (h.elim id id).elim

/-- A GET is between its two queries: it has read the row of the key, and no version of the key has
been committed since. -/
structure Waiting (k : BucketKey) (i : ℕ) (record : List (ℕ × Event)) : Prop where
  last : lastOf i record = some (.readObject k.1 k.2)
  since : ∀ e ∈ sinceLastOf i record, keyCommitted e.2 ≠ some k

instance (k : BucketKey) (i : ℕ) (record : List (ℕ × Event)) : Decidable (Waiting k i record) :=
  decidable_of_iff (lastOf i record = some (.readObject k.1 k.2) ∧
      ∀ e ∈ sinceLastOf i record, keyCommitted e.2 ≠ some k)
    ⟨fun h => ⟨h.1, h.2⟩, fun h => ⟨h.1, h.2⟩⟩

/-- **A step that spares the GETs**: it does not commit a version over the `null` version that a
GET is going to look for, and does not remove a blob that a GET is going to open. -/
structure Spares (v : Shared Event World) (e : Event) : Prop where
  commits : ∀ k ∈ keyCommitted e, AtNull k v.state.db → ∀ x ∈ v.record, ¬ Waiting k x.1 v.record
  removes : ∀ path ∈ pathRemoved e, ∀ x ∈ v.record,
    lastOf x.1 v.record ≠ some (.readVersion (some path))

instance (v : Shared Event World) (e : Event) : Decidable (Spares v e) :=
  decidable_of_iff ((∀ k ∈ keyCommitted e, AtNull k v.state.db → ∀ x ∈ v.record,
        ¬ Waiting k x.1 v.record) ∧
      ∀ path ∈ pathRemoved e, ∀ x ∈ v.record, lastOf x.1 v.record ≠ some (.readVersion (some path)))
    ⟨fun h => ⟨h.1, h.2⟩, fun h => ⟨h.1, h.2⟩⟩

section Record

variable {v : Shared Event World} {i j : ℕ} {e : Option Event} {s : World} {k : BucketKey}

theorem lastOf_after_self (x : Event) : lastOf i (v.after i (some x) s).record = some x := by
  rw [lastOf, Shared.record_after_some, List.find?_cons_of_pos (by simp)]
  rfl

theorem lastOf_after (hij : i ≠ j) : lastOf i (v.after j e s).record = lastOf i v.record := by
  cases e with
  | none => rfl
  | some x =>
    rw [lastOf, Shared.record_after_some, List.find?_cons_of_neg (by simpa using hij.symm)]
    rfl

theorem mem_of_lastOf {record : List (ℕ × Event)} {x : Event} (h : lastOf i record = some x) :
    ∃ y ∈ record, y.1 = i := by
  obtain ⟨y, hy, -⟩ := Option.map_eq_some_iff.mp h
  have hi := List.find?_some hy
  exact ⟨y, List.mem_of_find?_eq_some hy, of_decide_eq_true hi⟩

/-- A GET that has just read the row of its key. -/
theorem waiting_self : Waiting k i (v.after i (some (.readObject k.1 k.2)) s).record where
  last := lastOf_after_self _
  since := by
    rw [sinceLastOf, Shared.record_after_some, List.takeWhile_cons_of_neg (by simp)]
    exact nofun

theorem Waiting.after (h : Waiting k i v.record) (hij : i ≠ j)
    (he : ∀ x, e = some x → keyCommitted x ≠ some k) : Waiting k i (v.after j e s).record where
  last := (lastOf_after hij).trans h.last
  since := by
    cases e with
    | none => exact h.since
    | some x =>
      rw [sinceLastOf, Shared.record_after_some, List.takeWhile_cons_of_pos (by simpa using hij.symm)]
      intro y hy
      rcases List.mem_cons.mp hy with rfl | hy
      · exact he x rfl
      · exact h.since y hy

end Record

/-! ## The steps of reads and overwrites -/

/-- It is not about a sweep. -/
def Unswept : Event → Prop
  | .startedSweep _ | .computedCutOff _ => False
  | _ => True

def NoSweep (v : Shared Event World) : Prop := ∀ e ∈ v.record, Unswept e.2

/-- **The steps of GETs, PUTs and completes**: the versions they commit have payloads. -/
inductive Stores (N : Node) : (World → Option Event) → (World → World) → Prop
  | offTables {event : World → Option Event} {effect : World → World} (h : OffTables N event effect) :
      Stores N event effect
  | requireUpload (bucketGuid : Guid) (uploadId : Text) :
      Stores N (fun w => (findUpload bucketGuid uploadId w.db).map (.requiredUpload ·.guid)) id
  | commit (bucketGuid : Guid) (key versionId : Text) (values : VersionValues)
      (hpath : values.storagePath.isSome) :
      Stores N (fun w => some (.committedVersion bucketGuid key values.storagePath values.size w.calls))
        fun w => { w with
          db := (Statements.commitVersion w.calls (N.now w.calls) bucketGuid key versionId values w.db).2
          calls := w.calls + 1 }
  | retire (uploadGuid : Guid) (status : MultipartUploadStatus) :
      Stores N (fun _ => some (.retiredUpload uploadGuid))
        fun w => { w with db := Statements.setUploadStatus uploadGuid status w.db }
  | dropParts (uploadGuid : Guid) : Stores N (fun _ => some (.droppedParts uploadGuid))
      fun w => { w with db := Statements.deleteParts uploadGuid w.db }

section Stores

variable {N : Node} {event : World → Option Event} {effect : World → World}

theorem Stores.atomic (h : Stores N event effect) : Atomic N event effect := by
  cases h with
  | offTables h => exact .offTables h
  | requireUpload bucketGuid uploadId => exact .requireUpload bucketGuid uploadId
  | commit bucketGuid key versionId values => exact .commit bucketGuid key versionId values
  | retire uploadGuid status => exact .retire uploadGuid status
  | dropParts uploadGuid => exact .dropParts uploadGuid

theorem stores_of_offTables {α : Type} {x : Service α} (h : x.Every (OffTables N)) :
    x.Every (Stores N) := h.mono fun _ _ => .offTables

theorem requireUpload_stores (bucketGuid : Guid) (uploadId : Text) :
    (requireUpload bucketGuid uploadId).Every (Stores N) :=
  .bind (.observe (.requireUpload bucketGuid uploadId) _) fun _ => .orThrow _ _

theorem put_stores (params : PutObjectParams) : (put N params).Every (Stores N) :=
  .bind (.require _ _) fun _ => .bind (.require _ _) fun _ =>
    .bind (stores_of_offTables (assertQuota_offTables _ _)) fun _ =>
      .bind (stores_of_offTables (write_offTables _ _)) fun _ =>
        .bind (stores_of_offTables (checkWritten_offTables _ _ _)) fun _ =>
          .bind (stores_of_offTables (nextVersionId_offTables _)) fun _ =>
            .bind (.perform (.commit _ _ _ _ rfl)) fun _ =>
              .bind (stores_of_offTables (deleteBlobs_offTables _)) fun _ => .pure _

theorem completeMultipartUpload_stores (bucket : BucketContext) (uploadId : Text)
    (parts : List CompletePart) : (completeMultipartUpload N bucket uploadId parts).Every (Stores N) := by
  refine .bind (requireUpload_stores _ _) fun u => .bind (.require _ _) fun _ =>
    .bind (stores_of_offTables (select_offTables _)) fun stored => ?_
  cases matchRequestedParts stored none parts with
  | error e => exact .throw _
  | ok ordered =>
    exact .bind (.pure _) fun _ => .bind (stores_of_offTables (concat_offTables _)) fun _ =>
      .bind (stores_of_offTables (nextVersionId_offTables _)) fun _ =>
        .bind (.perform (.commit _ _ _ _ rfl)) fun _ => .bind (.perform (.retire _ _)) fun _ =>
          .bind (.perform (.dropParts _)) fun _ =>
            .bind (stores_of_offTables (deleteBlobs_offTables _)) fun _ => .pure _

theorem getVersion_stores (bucketGuid : Guid) (key : Text) (versionId : Option Text) :
    (getVersion bucketGuid key versionId).Every (Stores N) :=
  stores_of_offTables (offTables_of_traceless (getVersion_traceless _ _ _))

/-- **What a step does to the keys**: nothing, or it commits a version with a payload. -/
theorem Stores.keys (h : Stores N event effect) (w : World) :
    ((effect w).db.objects = w.db.objects ∧ (effect w).db.objectVersions = w.db.objectVersions ∧
      ∀ x, event w = some x → keyCommitted x = none) ∨
    ∃ (k : BucketKey) (versionId : Text) (values : VersionValues), values.storagePath.isSome ∧
      event w = some (.committedVersion k.1 k.2 values.storagePath values.size w.calls) ∧
      (effect w).db =
        (Statements.commitVersion w.calls (N.now w.calls) k.1 k.2 versionId values w.db).2 := by
  cases h with
  | offTables h =>
    refine .inl ⟨congrArg Database.objects (h.db w), congrArg Database.objectVersions (h.db w), ?_⟩
    exact fun x hx => keyCommitted_of_offTables (h.event hx)
  | requireUpload bucketGuid uploadId =>
    refine .inl ⟨rfl, rfl, fun x hx => ?_⟩
    obtain ⟨_, -, rfl⟩ := Option.map_eq_some_iff.mp hx
    rfl
  | commit bucketGuid key versionId values hpath =>
    exact .inr ⟨(bucketGuid, key), versionId, values, hpath, rfl, rfl⟩
  | retire uploadGuid status =>
    refine .inl ⟨rfl, rfl, ?_⟩
    rintro x ⟨⟩
    rfl
  | dropParts uploadGuid =>
    refine .inl ⟨rfl, rfl, ?_⟩
    rintro x ⟨⟩
    rfl

/-- **What a step does to a blob**: it stays, if it is not removed. -/
theorem Stores.onDisk (h : Stores N event effect) {w : World} {path : Text}
    (hpath : (w.disk.get path).isSome) :
    ((effect w).disk.get path).isSome ∨ event w = some (.removedBlob path) := by
  cases h with
  | offTables h =>
    cases h with
    | read => exact .inl hpath
    | draw => exact .inl hpath
    | generate => exact .inl hpath
    | write t content =>
      refine .inl ?_
      by_cases heq : path = storagePathOf (N.randomUUID t)
      · rw [heq, FileTable.get_set_self]
        rfl
      · rw [FileTable.get_set_of_ne heq]
        exact hpath
    | remove path' =>
      by_cases heq : path = path'
      · exact .inr (by rw [heq])
      · refine .inl ?_
        rw [FileTable.get_remove_of_ne heq]
        exact hpath
  | requireUpload => exact .inl hpath
  | commit => exact .inl hpath
  | retire => exact .inl hpath
  | dropParts => exact .inl hpath

end Stores

section Atomic

variable {N : Node} {event : World → Option Event} {effect : World → World}

/-- A request about objects does not sweep. -/
theorem unswept_of_atomic (h : Atomic N event effect) {w : World} {x : Event} (hx : event w = some x) :
    Unswept x := by
  cases h with
  | offTables h =>
    have hoff := h.event hx
    cases x <;> first | trivial | exact (hoff.elim id id).elim
  | requireUpload bucketGuid uploadId =>
    obtain ⟨_, -, rfl⟩ := Option.map_eq_some_iff.mp hx
    trivial
  | commit | storePart | retire | dropParts =>
    cases hx
    trivial
  | removeVersion | purge | insertUpload => cases hx

theorem NoSweep.after {v : Shared Event World} (hv : NoSweep v) (h : Atomic N event effect) (i : ℕ) :
    NoSweep (v.after i (event v.state) (effect v.state)) := by
  intro e he
  rcases mem_record_after.mp he with ⟨-, he⟩ | he
  · exact unswept_of_atomic h he
  · exact hv e he

end Atomic

/-! ## What a GET goes by between two of its steps -/

/-- **A GET has read the row of its key**: the version it goes by is there.  It stays there, unless it
is the `null` version; if it is, the key still points at it. -/
structure Between (k : BucketKey) (i : ℕ) (o : ObjectRow) (r : ObjectVersionRow)
    (v : Shared Event World) : Prop where
  mem : r ∈ v.state.db.objectVersions
  still : r.versionId ≠ nullVersionId ∨ Waiting k i v.record ∧ Points k v.state.db o r

/-- **A GET has found its version**, and the blob it is going to open is there. -/
structure Opening (i : ℕ) (path : Text) (v : Shared Event World) : Prop where
  last : lastOf i v.record = some (.readVersion (some path))
  onDisk : (v.state.disk.get path).isSome

section Others

variable {N : Node} {i j : ℕ} {v : Shared Event World} {k : BucketKey} {o : ObjectRow}
  {r : ObjectVersionRow} {event : World → Option Event} {effect : World → World}

/-- A key keeps a version to read. -/
theorem readable_of_stores (h : Stores N event effect) (hw : Integrity v.state)
    (hk : Readable k v.state.db) : Readable k (effect v.state).db := by
  rcases h.keys v.state with ⟨hobjects, hversions, -⟩ | ⟨k', versionId, values, hpath, -, hdb⟩
  · obtain ⟨o, r, hpoints, hr⟩ := hk
    exact ⟨o, r, hpoints.congr hobjects hversions, hr⟩
  · rw [hdb]
    by_cases hk' : k' = k
    · subst hk'
      obtain ⟨o, hpoints⟩ := points_commitVersion v.state k' (N.now v.state.calls) versionId values
      exact ⟨o, _, hpoints, hpath⟩
    · obtain ⟨o, r, hpoints, hr⟩ := hk
      exact ⟨o, r, hpoints.commitVersion_other hw hk', hr⟩

/-- **No step of another thread that spares the GETs takes the version away.** -/
theorem between_of_stores (h : Stores N event effect) (hij : i ≠ j) (hw : Integrity v.state)
    (hspares : ∀ x, event v.state = some x → Spares v x) (hbetween : Between k i o r v) :
    Between k i o r (v.after j (event v.state) (effect v.state)) := by
  rcases h.keys v.state with ⟨hobjects, hversions, hquiet⟩ | ⟨k', versionId, values, -, hevent, hdb⟩
  · refine ⟨hversions ▸ hbetween.mem, hbetween.still.imp_right fun ⟨hwaiting, hpoints⟩ =>
      ⟨hwaiting.after hij fun x hx => ?_, hpoints.congr hobjects hversions⟩⟩
    rw [hquiet x hx]
    exact nofun
  · by_cases hnull : r.versionId = nullVersionId
    · obtain ⟨hwaiting, hpoints⟩ := hbetween.still.resolve_left (not_not_intro hnull)
      -- The key is at its `null` version, so what is committed is of another key.
      have hne : k' ≠ k := by
        rintro rfl
        obtain ⟨x, hx, rfl⟩ := mem_of_lastOf hwaiting.last
        exact (hspares _ hevent).commits k' rfl ⟨o, r, hpoints, decide_eq_true hnull⟩ x hx hwaiting
      have hother : Points k (Statements.commitVersion v.state.calls (N.now v.state.calls) k'.1 k'.2
          versionId values v.state.db).2 o r := hpoints.commitVersion_other hw hne
      rw [← hdb] at hother
      refine ⟨hother.mem, .inr ⟨hwaiting.after hij fun x hx => ?_, hother⟩⟩
      rw [hevent, Option.some.injEq] at hx
      rw [← hx]
      exact fun heq => hne (Option.some.inj heq)
    · refine ⟨?_, .inl hnull⟩
      rw [Shared.state_after, hdb]
      exact mem_commitVersion_of_ne hbetween.mem (.inl hnull)

/-- **Nor the blob.** -/
theorem opening_of_stores (h : Stores N event effect) (hij : i ≠ j)
    (hspares : ∀ x, event v.state = some x → Spares v x) {path : Text} (hopening : Opening i path v) :
    Opening i path (v.after j (event v.state) (effect v.state)) := by
  refine ⟨(lastOf_after hij).trans hopening.last, (h.onDisk hopening.onDisk).resolve_right ?_⟩
  intro hevent
  obtain ⟨x, hx, rfl⟩ := mem_of_lastOf hopening.last
  exact (hspares _ hevent).removes path rfl x hx hopening.last

end Others

/-! ## The protocol -/

/-- **What a thread may rely on.** -/
structure Spared (i : ℕ) (v v' : Shared Event World) : Prop where
  readable : ∀ k, Readable k v.state.db → Readable k v'.state.db
  between : ∀ k o r, Between k i o r v → Between k i o r v'
  opening : ∀ path, Opening i path v → Opening i path v'

/-- What holds besides rows and blobs. -/
structure Guarded (v : Shared Event World) : Prop where
  integrity : Integrity v.state
  guids : VersionGuids v.state

/-- **Reads and overwrites, as a protocol**: a move comes in a state that was `seen`. -/
def sparing (N : Node) (seen : Shared Event World → Prop) : Protocol Event World where
  permits v _ e := Spares v e ∧ seen v
  inv := Guarded
  rely := Spared
  guar _ v e s := ∃ event effect, Stores N event effect ∧ event v.state = e ∧ effect v.state = s ∧
    ∀ x, event v.state = some x → Spares v x
  refl _ _ := ⟨fun _ h => h, fun _ _ _ h => h, fun _ h => h⟩
  trans _ _ _ _ h h' := ⟨fun k hk => h'.readable k (h.readable k hk),
    fun k o r hr => h'.between k o r (h.between k o r hr),
    fun path hpath => h'.opening path (h.opening path hpath)⟩
  rely_of_guar := by
    rintro i j v e s hij hinv ⟨event, effect, hstores, rfl, rfl, hspares⟩ -
    exact ⟨fun _ hk => readable_of_stores hstores hinv.integrity hk,
      fun _ _ _ => between_of_stores hstores hij hinv.integrity hspares,
      fun _ => opening_of_stores hstores hij hspares⟩

section Steps

variable {N : Node} {start : List Text} {seen : Shared Event World → Prop} {i : ℕ}
  {v : Shared Event World} {α : Type}

theorem Guarded.after (h : Guarded v) {event : World → Option Event} {effect : World → World}
    (hstores : Stores N event effect) (e : Option Event) : Guarded (v.after i e (effect v.state)) :=
  ⟨hstores.atomic.integrity h.integrity, VersionGuids.atomic hstores.atomic h.guids⟩

/-- PUTs and completes keep to the protocol. -/
theorem stores_holds {x : Service α} (hx : x.Every (Stores N)) :
    (sparing N seen).holds i x (fun _ _ => True) (fun _ _ => True) v := by
  refine Protocol.holds_of_stable (fun _ => True) (fun event effect hstores v _ v' _ hinv hpermits => ?_) hx
    trivial
  have hinv : Guarded v' := hinv
  have hspares : ∀ x, event v'.state = some x → Spares v' x := fun x hx => (hpermits x hx).1
  exact ⟨⟨event, effect, hstores, rfl, rfl, hspares⟩, hinv.after hstores _, trivial⟩

/-- A read, among threads that keep rows and blobs together and spare the GETs. -/
theorem reads_holds (event : World → Option Event) {f : World → α}
    (hevent : ∀ w x, event w = some x → x.OfReading) {post : α → Shared Event World → Prop}
    {fail : Fault → Shared Event World → Prop}
    (h : ∀ v', Goes N 0 start i v v' → Spared i v v' → Filed N 0 start v' → Guarded v' →
      (∀ x, event v'.state = some x → seen v') →
      post (f v'.state) (v'.after i (event v'.state) v'.state)) :
    ((filing N 0 start).and (sparing N seen)).holds i (Program.observe event f : Service α) post fail v := by
  rw [Protocol.holds_observe]
  intro v' hrely hinv hpermits
  have hstores : Stores N event id := .offTables (.read hevent)
  have hstep := hinv.1.shrink (fun x hx => (hpermits x hx).1)
    (.of_reading fun x hx => hevent v'.state x hx) (.refl _) (.refl _) rfl rfl le_rfl
  have hguarded : Guarded v' := hinv.2
  exact ⟨⟨hstep.moves, event, id, hstores, rfl, rfl, fun x hx => (hpermits x hx).2.1⟩,
    ⟨hstep.filed, hguarded.after hstores _⟩,
    h v' hrely.1.1 hrely.2 hinv.1 hguarded fun x hx => (hpermits x hx).2.2⟩

end Steps

/-! ## A GET -/

/-- The read of a key failed for want of a row or a blob. -/
def Misses : Fault → Prop
  | .objectNotFound | .blobNotFound _ => True
  | _ => False

/-- **What was delivered** is the range asked for, of the payload of a version the key pointed at in a
state that was `seen`. -/
def Delivered (N : Node) (seen : Shared Event World → Prop) (k : BucketKey) (range : ℕ → Option ReadRange)
    (result : ReadResult) : Prop :=
  ∃ v o r content, seen v ∧ Points k v.state.db o r ∧
    payloadOf N v.state r.storagePath r.sse = some content ∧
    result.stream.interrupted = false ∧ result.stream.content = slice content (range r.size)

/-- A path has been given to a row; if its blob is there, it is this one. -/
structure Kept (start : List Text) (path : Text) (blob : Blob) (config : EncryptionConfig)
    (v : Shared Event World) : Prop where
  claimed : Claimed start v.record path
  encryption : v.state.encryption = config
  content : ∀ blob', v.state.disk.get path = some blob' → blob' = blob

section Get

variable {N : Node} {start : List Text} {seen : Shared Event World → Prop} {i : ℕ}
  {v : Shared Event World} {path : Text} {blob : Blob} {config : EncryptionConfig}

theorem Kept.goes {v' : Shared Event World} (h : Kept start path blob config v)
    (hgoes : Goes N 0 start i v v') : Kept start path blob config v' where
  claimed := hgoes.toRows.claimed h.claimed
  encryption := hgoes.encryption.trans h.encryption
  content blob' hblob := h.content blob' (hgoes.content path blob' h.claimed hblob)

/-- Reading does not change it. -/
theorem Kept.after (h : Kept start path blob config v) (e : Option Event) :
    Kept start path blob config (v.after i e v.state) :=
  ⟨h.claimed.mono, h.encryption, h.content⟩

/-- A blob that is going to be opened is not missed. -/
theorem read_found (hopening : Opening i path v) (range : Option ReadRange)
    (encryption : Option BlobEncryption) :
    ((filing N 0 start).and (sparing N seen)).holds i (StorageService.read N path range encryption)
      (fun _ _ => True) (fun e _ => ¬ Misses e) v := by
  have hopened : ∀ (w : World) x, some (Event.openedBlob path) = some x → x.OfReading := by
    rintro w x ⟨⟩
    exact trivial
  rw [StorageService.read, Protocol.holds_bind]
  refine reads_holds _ hopened fun v₁ _ hspared _ _ _ => ?_
  obtain ⟨blob, hblob⟩ := Option.isSome_iff_exists.mp (hspared.opening path hopening).onDisk
  rw [Protocol.holds_bind, hblob, Protocol.holds_orThrow_some]
  cases encryption with
  | none => trivial
  | some descriptor =>
    rw [Protocol.holds_bind]
    refine reads_holds (fun _ => none) (by simp) fun v₂ _ _ _ _ _ => ?_
    rw [Protocol.holds_bind, Protocol.holds_orThrow]
    exact ⟨fun _ _ => trivial, by simp [Misses]⟩

/-- **A blob that is going to be opened is read to its end.** -/
theorem read_holds (hkept : Kept start path blob config v) (hopening : Opening i path v)
    (range : Option ReadRange) (encryption : Option BlobEncryption) :
    ((filing N 0 start).and (sparing N seen)).holds i (StorageService.read N path range encryption)
      (fun result _ => ∃ content, contentOf N config blob encryption = some content ∧
        result.stream.interrupted = false ∧ result.stream.content = slice content range)
      (fun e _ => ¬ Misses e) v := by
  refine Protocol.holds_mono (Protocol.holds_and (Protocol.holds_both
    (Filing.read_holds hkept.claimed range encryption)
    (stores_holds (stores_of_offTables (read_offTables path range encryption))))
    (read_found hopening range encryption)) ?_ fun _ _ h => h.2
  rintro result - ⟨⟨⟨blob', content, hblob, hcontent, hread⟩, -⟩, -⟩
  rw [hkept.content blob' hblob, hkept.encryption] at hcontent
  exact ⟨content, hcontent, hread⟩

end Get

variable (N : Node)

/-- **A GET of a key**: the range it serves depends on the size of the version it finds. -/
def getObject (bucketGuid : Guid) (key : Text) (range : ℕ → Option ReadRange) : Service ReadResult := do
  let version ← getVersion bucketGuid key none
  readPayload N (version.storagePath.getD []) (range version.size) version.encryption

variable {N} in
/-- **A GET of a key that has a version to read.** -/
theorem getObject_holds {start : List Text} {seen : Shared Event World → Prop} {i : ℕ}
    {v : Shared Event World} {k : BucketKey} (hk : Readable k v.state.db) (range : ℕ → Option ReadRange) :
    ((filing N 0 start).and (sparing N seen)).holds i (getObject N k.1 k.2 range)
      (fun result _ => Delivered N seen k range result) (fun e _ => ¬ Misses e) v := by
  have hobject : ∀ (w : World) x, some (Event.readObject k.1 k.2) = some x → x.OfReading := by
    rintro w x ⟨⟩
    exact trivial
  rw [getObject, Protocol.holds_bind, getVersion, Protocol.holds_bind]
  refine reads_holds _ hobject fun v₁ _ hspared hfiled _ hseen => ?_
  -- What the GET goes by from here on is the version the key points at now.
  obtain ⟨o, r, hpoints, hr⟩ := hspared.readable k hk
  obtain ⟨path, hpath⟩ := Option.isSome_iff_exists.mp hr
  have hnamed : path ∈ namedPaths v₁.state.db := mem_namedPaths.mpr (.inl ⟨r, hpoints.mem, hpath⟩)
  obtain ⟨blob, hblob⟩ := Option.isSome_iff_exists.mp (hfiled.onDisk path hnamed)
  have hkept : Kept start path blob v₁.state.encryption v₁ :=
    ⟨hfiled.claimed path hnamed, rfl, fun blob' h => Option.some.inj (h.symm.trans hblob)⟩
  have hbetween : Between k i o r (v₁.after i (some (.readObject k.1 k.2)) v₁.state) :=
    ⟨hpoints.mem, .inr ⟨waiting_self, hpoints⟩⟩
  rw [Protocol.holds_bind, hpoints.found, Protocol.holds_orThrow]
  refine ⟨?_, nofun⟩
  rintro _ ⟨⟩
  rw [Protocol.holds_bind]
  refine reads_holds _ (fun w x hx => ?_) fun v₂ hgoes hspared hfiled hguarded _ => ?_
  · obtain ⟨_, -, rfl⟩ := Option.map_eq_some_iff.mp hx
    trivial
  have hmem := (hspared.between k o r hbetween).mem
  have hselect : selectVersion o none v₂.state.db = some r :=
    selectVersion_eq hmem hpoints.latest hguarded.guids
  have hopening : Opening i path (v₂.after i (some (.readVersion r.storagePath)) v₂.state) :=
    ⟨hpath ▸ lastOf_after_self _, hfiled.onDisk path (mem_namedPaths.mpr (.inl ⟨r, hmem, hpath⟩))⟩
  have hkept' := ((hkept.after (i := i) (some (.readObject k.1 k.2))).goes hgoes).after (i := i)
    (some (.readVersion r.storagePath))
  beta_reduce
  rw [hselect, Option.map_some, Protocol.holds_bind, Protocol.holds_orThrow]
  refine ⟨?_, nofun⟩
  rintro _ ⟨⟩
  rw [Protocol.holds_pure, readPayload]
  show Protocol.holds _ i (StorageService.read N (r.storagePath.getD []) _ _) _ _ _
  rw [hpath, Option.getD_some, ← hpath]
  refine Protocol.holds_mono (read_holds hkept' hopening _ _) ?_ fun _ _ h => h
  rintro result - ⟨content, hcontent, hwhole, hslice⟩
  refine ⟨v₁, o, r, content, hseen _ rfl, hpoints, ?_, hwhole, hslice⟩
  rw [payloadOf, hpath, Option.bind_some, payload_eq, hblob, Option.bind_some]
  exact hcontent

/-! ## GETs, PUTs and completes -/

/-- What is going on at the keys. -/
inductive Access where
  | get (bucketGuid : Guid) (key : Text) (range : ℕ → Option ReadRange)
  | put (params : PutObjectParams)
  | complete (bucket : BucketContext) (uploadId : Text) (parts : List CompletePart)

/-- What is done for a request; only a GET gives something back. -/
def Access.program : Access → Service (Option ReadResult)
  | .get bucketGuid key range => do
      let result ← getObject N bucketGuid key range
      return some result
  | .put params => do
      let _ ← ObjectsService.put N params
      return none
  | .complete bucket uploadId parts => do
      let _ ← completeMultipartUpload N bucket uploadId parts
      return none

abbrev AccessPool : Type := Pool Access Event Fault World (Option ReadResult)

/-- A GET comes in when its key has a version to read. -/
def Ready (v : Shared Event World) : Access → Prop
  | .get bucketGuid key _ => Readable (bucketGuid, key) v.state.db
  | _ => True

instance (v : Shared Event World) (access : Access) : Decidable (Ready v access) :=
  match access with
  | .get bucketGuid key _ => inferInstanceAs (Decidable (Readable (bucketGuid, key) v.state.db))
  | .put _ => isTrue trivial
  | .complete .. => isTrue trivial

/-- How a GET ended, if it did. -/
def outcomeOf (p : AccessPool) (i : ℕ) : Option (Except Fault ReadResult) :=
  match p.threads[i]? with
  | some ⟨.get .., some (.done (some result))⟩ => some (.ok result)
  | some ⟨.get .., some (.failed e)⟩ => some (.error e)
  | _ => none

/-- The requests that came in on a schedule, and what became of them. -/
def after (w : World) (schedule : List (Move Access)) : AccessPool :=
  (⟨⟨w, []⟩, []⟩ : AccessPool).run (Access.program N) schedule

/-- A state that came up on the schedule. -/
def Seen (w : World) (schedule : List (Move Access)) : Shared Event World → Prop :=
  (⟨⟨w, []⟩, []⟩ : AccessPool).Reached (Access.program N) schedule

/-- **Every GET that ended was served**: it did not fail for want of a row or a blob, and what it
delivered is the payload of a version its key pointed at before. -/
structure Served (w : World) (schedule : List (Move Access)) : Prop where
  found : ∀ (i : ℕ) bucketGuid key range e,
    (after N w schedule).threads[i]? = some ⟨.get bucketGuid key range, some (.failed e)⟩ → ¬ Misses e
  delivered : ∀ (i : ℕ) bucketGuid key range result,
    (after N w schedule).threads[i]? =
      some ⟨.get bucketGuid key range, some (.done (some result))⟩ →
    Delivered N (Seen N w schedule) (bucketGuid, key) range result

variable {N}

/-- Whatever is done for a request, it is done by steps of these kinds. -/
theorem program_stores (access : Access) : (access.program N).Every (Stores N) := by
  cases access with
  | get bucketGuid key range =>
    exact .bind (.bind (getVersion_stores _ _ _) fun _ =>
      stores_of_offTables (read_offTables _ _ _)) fun _ => .pure _
  | put params => exact .bind (put_stores params) fun _ => .pure _
  | complete bucket uploadId parts =>
    exact .bind (completeMultipartUpload_stores bucket uploadId parts) fun _ => .pure _

/-- How a request ends: what a GET delivers, and how it does not fail. -/
def Delivers (N : Node) (seen : Shared Event World → Prop) (access : Access)
    (answer : Option ReadResult) : Prop :=
  match access with
  | .get bucketGuid key range =>
      ∃ result, answer = some result ∧ Delivered N seen (bucketGuid, key) range result
  | _ => True

theorem program_holds {start : List Text} {seen : Shared Event World → Prop} {i : ℕ}
    {v : Shared Event World} (access : Access) (hready : Ready v access) :
    ((filing N 0 start).and (sparing N seen)).holds i (access.program N)
      (fun answer _ => Delivers N seen access answer)
      (fun e _ => (∃ bucketGuid key range, access = .get bucketGuid key range) → ¬ Misses e) v := by
  cases access with
  | get bucketGuid key range =>
    rw [Access.program, Protocol.holds_bind]
    exact Protocol.holds_mono (getObject_holds (k := (bucketGuid, key)) hready range)
      (fun result _ h => ⟨result, rfl, h⟩) fun e _ h _ => h
  | put params =>
    rw [Access.program, Protocol.holds_bind]
    exact Protocol.holds_mono (Protocol.holds_both (put_holds params) (stores_holds (put_stores params)))
      (fun _ _ _ => trivial) fun _ _ _ ⟨_, _, _, h⟩ => nomatch h
  | complete bucket uploadId parts =>
    rw [Access.program, Protocol.holds_bind]
    exact Protocol.holds_mono (Protocol.holds_both (completeMultipartUpload_holds bucket uploadId parts)
      (stores_holds (completeMultipartUpload_stores bucket uploadId parts)))
      (fun _ _ _ => trivial) fun _ _ _ ⟨_, _, _, h⟩ => nomatch h

/-- Without sweeps every payload is committed in time. -/
theorem timely_of_unswept {record : List (ℕ × Event)} (h : ∀ e ∈ record, Unswept e.2) :
    Timely N 0 record :=
  fun _ _ _ _ _ _ _ _ k _ cutOff _ hcutOff => (h (k, .computedCutOff cutOff) hcutOff).elim

theorem not_condemned_of_unswept {record : List (ℕ × Event)} (h : ∀ e ∈ record, Unswept e.2)
    (path : Text) : ¬ Condemned N 0 record path :=
  fun ⟨_, _, k, cutOff, _, hcutOff, _⟩ => h (k, .computedCutOff cutOff) hcutOff

/-- **Whatever is read while it is overwritten is found**, if no path is generated twice and every
step spares the GETs. -/
theorem served_throughout {w : World} (hplace : InPlace w) (hw : Integrity w) (hguids : VersionGuids w)
    (schedule : List (Move Access))
    (hstarts : (⟨⟨w, []⟩, []⟩ : AccessPool).StartsWhen (Access.program N) Ready schedule)
    (hspares : (⟨⟨w, []⟩, []⟩ : AccessPool).Permitted (Access.program N) (fun v _ e => Spares v e)
      schedule)
    (hunique : UniquePaths (pathsAt w) (after N w schedule).record) : Served N w schedule := by
  have hunswept : NoSweep (after N w schedule).toShared :=
    Pool.run_keeps (Access.program N) program_stores
      (fun _ _ hstores _ _ hv => hv.after hstores.atomic _) (fun t ht => absurd ht List.not_mem_nil) nofun schedule
  have hrecord := Pool.permitted_of_record (Access.program N)
    (fun new record (h : UniquePaths (pathsAt w) (new ++ record) ∧ ∀ e ∈ new ++ record, Unswept e.2) =>
      (⟨h.1.of_append, fun e he => h.2 e (List.mem_append_right _ he)⟩ : _ ∧ _)) ⟨hunique, hunswept⟩
  have hpermitted := (hrecord.and _ hspares).and _
    (Pool.permitted_reached (Access.program N) (⟨⟨w, []⟩, []⟩ : AccessPool) schedule)
  have hinv : ((filing N 0 (pathsAt w)).and (sparing N (Seen N w schedule))).inv ⟨w, []⟩ :=
    ⟨hplace.filed, hw, hguids⟩
  have hsound : ((filing N 0 (pathsAt w)).and (sparing N (Seen N w schedule))).Sound
      (fun _ access answer _ => Delivers N (Seen N w schedule) access answer)
      (fun _ access e _ => (∃ bucketGuid key range, access = .get bucketGuid key range) → ¬ Misses e)
      (after N w schedule) := Protocol.sound_of
    (fun access i v _ hready _ => program_holds access hready)
    (fun v i e _ h => ⟨⟨h.1.1.1, timely_of_unswept h.1.1.2, fun path _ =>
      not_condemned_of_unswept (fun x hx => h.1.1.2 x (List.mem_cons_of_mem _ hx)) path⟩, h.1.2, h.2⟩)
    (.of_idle hinv rfl) hstarts hpermitted
  refine ⟨fun i bucketGuid key range e hthread => ?_, fun i bucketGuid key range result hthread => ?_⟩
  · obtain ⟨v, -, hfail⟩ := hsound.threads i _ _ hthread
    exact hfail ⟨bucketGuid, key, range, rfl⟩
  · obtain ⟨v, -, result', hresult, hdelivered⟩ := hsound.threads i _ _ hthread
    cases hresult
    exact hdelivered

theorem outcomeOf_eq_error {p : AccessPool} {i : ℕ} {e : Fault} (h : outcomeOf p i = some (.error e)) :
    ∃ bucketGuid key range, p.threads[i]? = some ⟨.get bucketGuid key range, some (.failed e)⟩ := by
  unfold outcomeOf at h
  split at h
  case h_1 => cases h
  case h_2 bucketGuid key range e' hthread =>
    cases h
    exact ⟨bucketGuid, key, range, hthread⟩
  case h_3 => cases h

/-! ## A GET that is overtaken -/

/-- Nothing is stored yet. -/
def nothingStored : World where
  db := {}
  disk := ⟨[]⟩
  encryption := ⟨false, []⟩

def draft : PutObjectParams where
  bucket := ⟨⟨1, "user-1".toList, none⟩, .disabled⟩
  key := ['a']
  stream := ⟨[[1]], false⟩

def revision : PutObjectParams := { draft with stream := ⟨[[2]], false⟩ }

/-- The whole of a PUT comes between the two queries of a GET. -/
def overtaken : List (Move Access) :=
  .start (.put draft) :: List.replicate 9 (.advance 0) ++
    [.start (.get 1 ['a'] fun _ => none), .advance 1, .start (.put revision)] ++
    List.replicate 9 (.advance 2) ++ List.replicate 4 (.advance 1)

/-- A PUT commits when a GET has found its version and not opened the blob, but removes the blob it
replaced when it is open. -/
def alongside : List (Move Access) :=
  .start (.put draft) :: List.replicate 9 (.advance 0) ++
    [.start (.get 1 ['a'] fun _ => none), .start (.put revision)] ++
    List.replicate 5 (.advance 2) ++ [.advance 1, .advance 1, .advance 2, .advance 1] ++
    List.replicate 4 (.advance 2)

theorem inPlace_nothingStored : InPlace nothingStored := ⟨by decide, by decide, by decide⟩

theorem integrity_nothingStored : Integrity nothingStored :=
  ⟨by decide, by decide, by decide, by decide, by decide, by decide, by decide⟩

/-- **The key is not found** though it was readable before and after. -/
theorem overwritten_not_found :
    InPlace nothingStored ∧ Integrity nothingStored ∧ VersionGuids nothingStored ∧
    (⟨⟨nothingStored, []⟩, []⟩ : AccessPool).StartsWhen (Access.program Node.counting) Ready overtaken ∧
    UniquePaths (pathsAt nothingStored) (after Node.counting nothingStored overtaken).record ∧
    ¬ Served Node.counting nothingStored overtaken := by
  refine ⟨inPlace_nothingStored, integrity_nothingStored, ⟨by decide, by decide⟩, by decide +kernel,
    ⟨by decide +kernel, by decide +kernel⟩, fun hserved => ?_⟩
  have houtcome : outcomeOf (after Node.counting nothingStored overtaken) 1 =
      some (.error .objectNotFound) := by decide +kernel
  obtain ⟨bucketGuid, key, range, hthread⟩ := outcomeOf_eq_error houtcome
  exact hserved.found 1 bucketGuid key range _ hthread trivial

/-- The GET delivers what was there before. -/
theorem served_throughout_alongside :
    outcomeOf (after Node.counting nothingStored alongside) 1 = some (.ok ⟨⟨[[1]], false⟩, 1⟩) ∧
    Served Node.counting nothingStored alongside :=
  ⟨by decide +kernel, served_throughout inPlace_nothingStored integrity_nothingStored
    ⟨by decide, by decide⟩ alongside (by decide +kernel) (by decide +kernel)
    ⟨by decide +kernel, by decide +kernel⟩⟩

end ReadRaces
end SimpleStorage
