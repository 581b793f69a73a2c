import SimpleStorage.Library.VersionedMap
import SimpleStorage.Objects.Statements

/-!
# The tables as a versioned map

Each key of each bucket has a history: its versions, newest first.  `WellFormed` is what the
transactions keep and what the services rely on without ever checking it: rows are in the
order of their times, and a key points at the last of its rows.

* `history_commitVersion`, `history_removeVersion`, `history_purgeObject`: the transactions
  are the operations of the versioned map.
* `WellFormed.commitVersion` and its companions: they keep the tables well formed.
* `findVersionByGuid_latest`, `findVersion_eq`: the two ways to read a version are lookups.
-/

namespace SimpleStorage
namespace Statements

open ReadCommitted ObjectsTypes

/-- Keys of all buckets. -/
abbrev BucketKey := Guid × Text

/-- The guid a key's row has. -/
def objectGuid (k : BucketKey) (db : Database) : Option Guid := (findObject k.1 k.2 db).map (·.guid)

/-- **The versions of each key, newest first.** -/
def history (db : Database) : VersionedMap BucketKey ObjectVersionRow := fun k =>
  (objectGuid k db).elim [] fun guid => (versionsOf guid db).reverse

/-- **What holds of the tables between transactions.** -/
structure WellFormed (db : Database) : Prop extends db.Constraints where
  sorted : db.objectVersions.Pairwise fun v w => v.createdAt < w.createdAt
  latest : ∀ o ∈ db.objects, ∃ v, (versionsOf o.guid db).getLast? = some v ∧
    o.latestVersionGuid = some v.guid

/-- Only the rows of keys and versions matter. -/
theorem WellFormed.congr {db db' : Database} (h : WellFormed db) (hobjects : db'.objects = db.objects)
    (hversions : db'.objectVersions = db.objectVersions) : WellFormed db' where
  object_guid := hobjects ▸ h.object_guid
  object_key := hobjects ▸ h.object_key
  version_guid := hversions ▸ h.version_guid
  version_id := hversions ▸ h.version_id
  version_object := by
    rw [hobjects, hversions]
    exact h.version_object
  sorted := hversions ▸ h.sorted
  latest := by
    have hof : ∀ guid, versionsOf guid db' = versionsOf guid db := fun guid => by
      rw [versionsOf, versionsOf, hversions]
    intro o ho
    rw [hof]
    exact h.latest o (hobjects ▸ ho)

theorem history_congr {db db' : Database} (hobjects : db'.objects = db.objects)
    (hversions : db'.objectVersions = db.objectVersions) : history db' = history db := by
  funext k
  rw [history, history, objectGuid, objectGuid, findObject, findObject, hobjects]
  congr 1
  funext guid
  rw [versionsOf, versionsOf, hversions]

/-! ## Finding a key's row -/

theorem findObject_eq_some {bucketGuid : Guid} {key : Text} {db : Database} {o : ObjectRow}
    (hkeys : (db.objects.map fun o => (o.bucketGuid, o.key)).Nodup) :
    findObject bucketGuid key db = some o ↔
      o ∈ db.objects ∧ o.bucketGuid = bucketGuid ∧ o.key = key := by
  constructor
  · intro h
    have hp := List.find?_some h
    rw [Bool.and_eq_true, decide_eq_true_iff, decide_eq_true_iff] at hp
    exact ⟨List.mem_of_find?_eq_some h, hp⟩
  · rintro ⟨ho, rfl, rfl⟩
    cases h : findObject o.bucketGuid o.key db with
    | none =>
      have := List.find?_eq_none.mp h o ho
      simp at this
    | some p =>
      have hp := List.find?_some h
      rw [Bool.and_eq_true, decide_eq_true_iff, decide_eq_true_iff] at hp
      rw [List.inj_on_of_nodup_map hkeys (List.mem_of_find?_eq_some h) ho (Prod.ext hp.1 hp.2)]

theorem objectGuid_eq_some {k : BucketKey} {db : Database} {guid : Guid}
    (hkeys : (db.objects.map fun o => (o.bucketGuid, o.key)).Nodup) :
    objectGuid k db = some guid ↔
      ∃ o ∈ db.objects, o.bucketGuid = k.1 ∧ o.key = k.2 ∧ o.guid = guid := by
  rw [objectGuid, Option.map_eq_some_iff]
  constructor
  · rintro ⟨o, ho, rfl⟩
    obtain ⟨hmem, hbucket, hkey⟩ := (findObject_eq_some hkeys).mp ho
    exact ⟨o, hmem, hbucket, hkey, rfl⟩
  · rintro ⟨o, hmem, hbucket, hkey, rfl⟩
    exact ⟨o, (findObject_eq_some hkeys).mpr ⟨hmem, hbucket, hkey⟩, rfl⟩

/-- Different keys have different rows. -/
theorem objectGuid_inj {k l : BucketKey} {db : Database} {guid : Guid} (hdb : db.Constraints)
    (hk : objectGuid k db = some guid) (hl : objectGuid l db = some guid) : k = l := by
  obtain ⟨o, ho, hbucket, hkey, hguid⟩ := (objectGuid_eq_some hdb.object_key).mp hk
  obtain ⟨p, hp, hbucket', hkey', hguid'⟩ := (objectGuid_eq_some hdb.object_key).mp hl
  have hop : o = p := List.inj_on_of_nodup_map hdb.object_guid ho hp (hguid.trans hguid'.symm)
  subst hop
  exact Prod.ext (hbucket.symm.trans hbucket') (hkey.symm.trans hkey')

theorem history_of_none {k : BucketKey} {db : Database} (h : objectGuid k db = none) :
    history db k = [] := by
  rw [history, h]
  rfl

theorem history_of_some {k : BucketKey} {db : Database} {guid : Guid}
    (h : objectGuid k db = some guid) : history db k = (versionsOf guid db).reverse := by
  rw [history, h]
  rfl

theorem mem_history {k : BucketKey} {db : Database} {v : ObjectVersionRow} :
    v ∈ history db k ↔ v ∈ db.objectVersions ∧ objectGuid k db = some v.objectGuid := by
  cases h : objectGuid k db with
  | none => simp [history_of_none h]
  | some guid =>
    rw [history_of_some h, List.mem_reverse, versionsOf, List.mem_filter, decide_eq_true_iff,
      Option.some.injEq, eq_comm (a := guid)]

/-- Every version is in the history of one key. -/
theorem exists_history {db : Database} (hdb : db.Constraints) {v : ObjectVersionRow}
    (hv : v ∈ db.objectVersions) : ∃ k, v ∈ history db k := by
  obtain ⟨o, ho, hguid⟩ := hdb.version_object v hv
  exact ⟨(o.bucketGuid, o.key), mem_history.mpr ⟨hv, (objectGuid_eq_some hdb.object_key).mpr
    ⟨o, ho, rfl, rfl, hguid⟩⟩⟩

/-! ## Reading is looking up -/

theorem history_of_found {db : Database} {k : BucketKey} {o : ObjectRow}
    (ho : findObject k.1 k.2 db = some o) : history db k = (versionsOf o.guid db).reverse :=
  history_of_some (by rw [objectGuid, ho, Option.map_some])

section Reading

variable {db : Database} (hdb : WellFormed db) {k : BucketKey} {o : ObjectRow}
  (ho : findObject k.1 k.2 db = some o)
include hdb ho

/-- **What a key points at is its newest version.** -/
theorem findVersionByGuid_latest :
    findVersionByGuid o.latestVersionGuid db = (history db k).head? := by
  have hmem := ((findObject_eq_some hdb.object_key).mp ho).1
  obtain ⟨v, hv, hlatest⟩ := hdb.latest o hmem
  rw [history_of_found ho, List.head?_reverse, hv, hlatest, findVersionByGuid]
  have hv' := (List.mem_filter.mp (List.mem_of_getLast? hv)).1
  cases h : db.objectVersions.find? fun u => some u.guid = some v.guid with
  | none =>
    have := List.find?_eq_none.mp h v hv'
    simp at this
  | some u =>
    have hu := List.find?_some h
    rw [decide_eq_true_iff, Option.some.injEq] at hu
    rw [List.inj_on_of_nodup_map hdb.version_guid (List.mem_of_find?_eq_some h) hv' hu]

/-- **A version asked for is the one of the history with that id.** -/
theorem findVersion_eq (versionId : Text) :
    findVersion o.guid versionId db = (history db k).find? (·.versionId = versionId) := by
  rw [history_of_found ho]
  cases h : findVersion o.guid versionId db with
  | none =>
    symm
    rw [List.find?_eq_none]
    intro v hv hid
    rw [List.mem_reverse, versionsOf, List.mem_filter, decide_eq_true_iff] at hv
    rw [decide_eq_true_iff] at hid
    have := List.find?_eq_none.mp h v hv.1
    simp [hv.2, hid] at this
  | some v =>
    have hv := List.mem_of_find?_eq_some h
    have hp := List.find?_some h
    rw [Bool.and_eq_true, decide_eq_true_iff, decide_eq_true_iff] at hp
    symm
    cases h' : (versionsOf o.guid db).reverse.find? (·.versionId = versionId) with
    | none =>
      have := List.find?_eq_none.mp h' v (List.mem_reverse.mpr (List.mem_filter.mpr
        ⟨hv, decide_eq_true hp.1⟩))
      simp [hp.2] at this
    | some u =>
      have hu := List.mem_of_find?_eq_some h'
      have hid := List.find?_some h'
      rw [List.mem_reverse, versionsOf, List.mem_filter, decide_eq_true_iff] at hu
      rw [decide_eq_true_iff] at hid
      rw [List.inj_on_of_nodup_map hdb.version_id hu.1 hv
        (Prod.ext (hu.2.trans hp.1.symm) (hid.trans hp.2.symm))]

end Reading

/-! ## The newest version -/

theorem versionsOf_sorted {db : Database}
    (hsorted : db.objectVersions.Pairwise fun v w => v.createdAt < w.createdAt) (guid : Guid) :
    (versionsOf guid db).Pairwise fun v w => v.createdAt < w.createdAt := hsorted.filter _

/-- The newest version by its time is the last one inserted. -/
theorem newestVersion_eq {db : Database}
    (hsorted : db.objectVersions.Pairwise fun v w => v.createdAt < w.createdAt) (guid : Guid) :
    newestVersion guid db = (versionsOf guid db).getLast? := by
  cases h : (versionsOf guid db).getLast? with
  | none => rw [newestVersion, List.getLast?_eq_none_iff.mp h]; rfl
  | some v =>
    obtain ⟨older, hsplit⟩ := List.getLast?_eq_some_iff.mp h
    have hlater := versionsOf_sorted hsorted guid
    rw [newestVersion, hsplit] at *
    refine newestBy_eq (List.mem_append_right _ (List.mem_singleton_self v)) fun u hu hne => ?_
    rcases List.mem_append.mp hu with hu | hu
    · exact (List.pairwise_append.mp hlater).2.2 u hu v (List.mem_singleton_self v)
    · exact absurd (List.mem_singleton.mp hu) hne

/-! ## Pointing a key at a version -/

section Pointing

variable {db : Database} {guid versionGuid : Guid}

theorem findObject_pointLatest (bucketGuid : Guid) (key : Text) :
    findObject bucketGuid key (pointLatest guid versionGuid db) =
      (findObject bucketGuid key db).map fun o =>
        if o.guid = guid then { o with latestVersionGuid := some versionGuid } else o := by
  rw [findObject, pointLatest, List.find?_map, findObject]
  congr 2
  funext o
  rw [Function.comp_apply]
  split_ifs <;> rfl

@[simp] theorem objectGuid_pointLatest (k : BucketKey) :
    objectGuid k (pointLatest guid versionGuid db) = objectGuid k db := by
  rw [objectGuid, findObject_pointLatest, Option.map_map, objectGuid]
  congr 1
  funext o
  rw [Function.comp_apply]
  split_ifs <;> rfl

@[simp] theorem versionsOf_pointLatest (g : Guid) :
    versionsOf g (pointLatest guid versionGuid db) = versionsOf g db := rfl

theorem history_pointLatest : history (pointLatest guid versionGuid db) = history db := by
  funext k
  rw [history, objectGuid_pointLatest]
  rfl

theorem mem_pointLatest {o : ObjectRow} :
    o ∈ (pointLatest guid versionGuid db).objects ↔
      (o ∈ db.objects ∧ o.guid ≠ guid) ∨
        ∃ p ∈ db.objects, p.guid = guid ∧ o = { p with latestVersionGuid := some versionGuid } := by
  rw [pointLatest, List.mem_map]
  constructor
  · rintro ⟨p, hp, rfl⟩
    by_cases h : p.guid = guid
    · rw [if_pos h]
      exact Or.inr ⟨p, hp, h, rfl⟩
    · rw [if_neg h]
      exact Or.inl ⟨hp, h⟩
  · rintro (⟨ho, h⟩ | ⟨p, hp, h, rfl⟩)
    · exact ⟨o, ho, if_neg h⟩
    · exact ⟨p, hp, if_pos h⟩

theorem map_pointLatest {α : Type} (f : ObjectRow → α)
    (hf : ∀ o : ObjectRow, f { o with latestVersionGuid := some versionGuid } = f o) :
    (pointLatest guid versionGuid db).objects.map f = db.objects.map f := by
  rw [pointLatest, List.map_map]
  refine List.map_congr_left fun o _ => ?_
  rw [Function.comp_apply]
  split_ifs
  · exact hf o
  · rfl

/-- The constraints do not look at what a key points at. -/
theorem constraints_pointLatest (hdb : db.Constraints) :
    (pointLatest guid versionGuid db).Constraints where
  object_guid := by
    rw [map_pointLatest _ fun _ => rfl]
    exact hdb.object_guid
  object_key := by
    rw [map_pointLatest _ fun _ => rfl]
    exact hdb.object_key
  version_guid := hdb.version_guid
  version_id := hdb.version_id
  version_object := fun v hv => by
    obtain ⟨o, ho, hguid⟩ := hdb.version_object v hv
    have hmem : o.guid ∈ (pointLatest guid versionGuid db).objects.map (·.guid) := by
      rw [map_pointLatest _ fun _ => rfl]
      exact List.mem_map_of_mem ho
    obtain ⟨p, hp, hpo⟩ := List.mem_map.mp hmem
    exact ⟨p, hp, hpo.trans hguid⟩

end Pointing

end Statements
end SimpleStorage
