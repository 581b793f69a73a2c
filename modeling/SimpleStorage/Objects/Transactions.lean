import SimpleStorage.Objects.History

/-!
# The transactions are operations of the versioned map

Each of the three transactions on the object tables keeps them well formed and does to the
histories what one operation of `Library.VersionedMap` does.

* `history_commitVersion`, `WellFormed.commitVersion`: `write`, for a version with a new guid, a
  later time and an id that is either new or `null`;
* `history_removeVersion`, `WellFormed.removeVersion`: `remove`;
* `history_purgeObject`, `WellFormed.purgeObject`: `purge`.
-/

namespace SimpleStorage
namespace Statements

open ReadCommitted ObjectsTypes

/-! ## A row for the key -/

/-- The key has a row now, and every history is as it was. -/
structure Upserted (k : BucketKey) (db : Database) (row : ObjectRow) (db' : Database) : Prop where
  objectVersions : db'.objectVersions = db.objectVersions
  constraints : db'.Constraints
  objectGuid_self : objectGuid k db' = some row.guid
  history : history db' = history db
  mem : row ∈ db'.objects
  objects : ∀ o ∈ db'.objects, o = row ∨ o ∈ db.objects

theorem upsertObject_of_some {guid : Guid} {k : BucketKey} {db : Database} {row : ObjectRow}
    (h : findObject k.1 k.2 db = some row) : upsertObject guid k.1 k.2 db = (row, db) := by
  rw [upsertObject, h]

theorem upsertObject_of_none {guid : Guid} {k : BucketKey} {db : Database}
    (h : findObject k.1 k.2 db = none) : upsertObject guid k.1 k.2 db =
      (⟨guid, k.1, k.2, none⟩, { db with objects := db.objects ++ [⟨guid, k.1, k.2, none⟩] }) := by
  rw [upsertObject, h]

theorem findObject_append (bucketGuid : Guid) (key : Text) (db : Database) (row : ObjectRow) :
    findObject bucketGuid key { db with objects := db.objects ++ [row] } =
      (findObject bucketGuid key db).or
        (if row.bucketGuid = bucketGuid ∧ row.key = key then some row else none) := by
  rw [findObject, List.find?_append, findObject]
  congr 1
  by_cases h : row.bucketGuid = bucketGuid ∧ row.key = key
  · rw [if_pos h, List.find?_cons_of_pos (by simpa using h)]
  · rw [if_neg h, List.find?_cons_of_neg (by simpa using h), List.find?_nil]

theorem upsertObject_spec (guid : Guid) (k : BucketKey) {db : Database} (hdb : db.Constraints)
    (hfresh : ∀ o ∈ db.objects, o.guid ≠ guid) :
    Upserted k db (upsertObject guid k.1 k.2 db).1 (upsertObject guid k.1 k.2 db).2 := by
  cases h : findObject k.1 k.2 db with
  | some row =>
    rw [upsertObject_of_some h]
    exact ⟨rfl, hdb, by rw [objectGuid, h, Option.map_some], rfl,
      ((findObject_eq_some hdb.object_key).mp h).1, fun o ho => Or.inr ho⟩
  | none =>
    rw [upsertObject_of_none h]
    have hkeyless := List.find?_eq_none.mp h
    have hself : objectGuid k { db with objects := db.objects ++ [⟨guid, k.1, k.2, none⟩] } =
        some guid := by
      rw [objectGuid, findObject_append, h, Option.none_or, if_pos ⟨rfl, rfl⟩, Option.map_some]
    have hother : ∀ l ≠ k, objectGuid l { db with objects := db.objects ++ [⟨guid, k.1, k.2, none⟩] } =
        objectGuid l db := by
      intro l hl
      rw [objectGuid, findObject_append, if_neg, Option.or_none, objectGuid]
      rintro ⟨hbucket, hkey⟩
      exact hl (Prod.ext hbucket.symm hkey.symm)
    refine ⟨rfl, ⟨?_, ?_, hdb.version_guid, hdb.version_id, ?_⟩, hself, ?_,
      List.mem_append_right _ (List.mem_singleton_self _), fun o ho => ?_⟩
    · rw [List.map_append, List.nodup_append]
      refine ⟨hdb.object_guid, List.nodup_singleton _, ?_⟩
      rintro _ ha _ hb rfl
      obtain ⟨o, ho, hguid⟩ := List.mem_map.mp ha
      exact hfresh o ho (hguid.trans (List.mem_singleton.mp hb))
    · rw [List.map_append, List.nodup_append]
      refine ⟨hdb.object_key, List.nodup_singleton _, ?_⟩
      rintro _ ha _ hb rfl
      obtain ⟨o, ho, hkey⟩ := List.mem_map.mp ha
      have hk : (o.bucketGuid, o.key) = (k.1, k.2) := hkey.trans (List.mem_singleton.mp hb)
      obtain ⟨hbucket, hkey⟩ := Prod.mk.inj hk
      exact hkeyless o ho (by simp [hbucket, hkey])
    · intro v hv
      obtain ⟨o, ho, hguid⟩ := hdb.version_object v hv
      exact ⟨o, List.mem_append_left _ ho, hguid⟩
    · funext l
      by_cases hl : l = k
      · subst hl
        have hnone : objectGuid l db = none := by rw [objectGuid, h, Option.map_none]
        rw [history_of_some hself, history_of_none hnone, List.reverse_eq_nil_iff, versionsOf,
          List.filter_eq_nil_iff]
        intro v hv hguid
        rw [decide_eq_true_iff] at hguid
        obtain ⟨o, ho, hvo⟩ := hdb.version_object v hv
        exact hfresh o ho (hvo.trans hguid)
      · rw [history, hother l hl]
        rfl
    · rcases List.mem_append.mp ho with ho | ho
      · exact Or.inr ho
      · exact Or.inl (List.mem_singleton.mp ho)

/-! ## Committing a version -/

/-- What is new about a version about to be committed. -/
structure Fresh (guid : Guid) (createdAt : Timestamp) (versionId : Text) (db : Database) : Prop where
  object : ∀ o ∈ db.objects, o.guid ≠ guid
  version : ∀ v ∈ db.objectVersions, v.guid ≠ guid
  createdAt : ∀ v ∈ db.objectVersions, v.createdAt < createdAt
  versionId : versionId ≠ nullVersionId → ∀ v ∈ db.objectVersions, v.versionId ≠ versionId

/-- The versions a commit keeps. -/
def keptVersions (objectGuid : Guid) (versionId : Text) (vs : List ObjectVersionRow) :
    List ObjectVersionRow :=
  if versionId = nullVersionId then
    vs.filter fun v => !(v.objectGuid = objectGuid && v.versionId = nullVersionId)
  else vs

/-- The versions a commit replaces. -/
def replacedVersions (objectGuid : Guid) (versionId : Text) (vs : List ObjectVersionRow) :
    List ObjectVersionRow :=
  if versionId = nullVersionId then
    vs.filter fun v => v.objectGuid = objectGuid && v.versionId = nullVersionId
  else []

theorem keptVersions_sublist (objectGuid : Guid) (versionId : Text) (vs : List ObjectVersionRow) :
    (keptVersions objectGuid versionId vs).Sublist vs := by
  rw [keptVersions]
  split_ifs
  · exact List.filter_sublist
  · exact List.Sublist.refl vs

theorem mem_or_replaced {objectGuid : Guid} {versionId : Text} {vs : List ObjectVersionRow}
    {v : ObjectVersionRow} : v ∈ vs ↔
      v ∈ keptVersions objectGuid versionId vs ∨ v ∈ replacedVersions objectGuid versionId vs := by
  rw [keptVersions, replacedVersions]
  split_ifs
  · simp only [List.mem_filter]
    cases v.objectGuid = objectGuid && v.versionId = nullVersionId <;> simp
  · simp

section Commit

variable {guid : Guid} {createdAt : Timestamp} {k : BucketKey} {versionId : Text}
  {values : VersionValues} {db : Database}

/-- The key's row a commit finds or inserts. -/
def commitRow (guid : Guid) (k : BucketKey) (db : Database) : ObjectRow :=
  (upsertObject guid k.1 k.2 db).1

/-- The version a commit inserts. -/
def committedVersion (guid : Guid) (createdAt : Timestamp) (k : BucketKey) (versionId : Text)
    (values : VersionValues) (db : Database) : ObjectVersionRow :=
  values.row guid (commitRow guid k db).guid versionId createdAt

theorem commitVersion_eq : commitVersion guid createdAt k.1 k.2 versionId values db =
    (storagePaths (replacedVersions (commitRow guid k db).guid versionId
        (upsertObject guid k.1 k.2 db).2.objectVersions),
      pointLatest (commitRow guid k db).guid guid
        { (upsertObject guid k.1 k.2 db).2 with
          objectVersions := keptVersions (commitRow guid k db).guid versionId
            (upsertObject guid k.1 k.2 db).2.objectVersions ++
              [committedVersion guid createdAt k versionId values db] }) := by
  rw [commitVersion, keptVersions, replacedVersions]
  split_ifs
  · rfl
  · rfl

/-- A commit leaves the other tables alone. -/
theorem commitVersion_frame :
    ∃ objects objectVersions, (commitVersion guid createdAt k.1 k.2 versionId values db).2 =
      { db with objects, objectVersions } := by
  rw [commitVersion_eq]
  cases h : findObject k.1 k.2 db with
  | some row =>
    rw [upsertObject_of_some h]
    exact ⟨_, _, rfl⟩
  | none =>
    rw [upsertObject_of_none h]
    exact ⟨_, _, rfl⟩

/-- The same of a bucket and a key, which are not a pair yet. -/
theorem commitVersion_others (guid : Guid) (createdAt : Timestamp) (bucketGuid : Guid) (key versionId : Text)
    (values : VersionValues) (db : Database) :
    ∃ objects objectVersions, (commitVersion guid createdAt bucketGuid key versionId values db).2 =
      { db with objects, objectVersions } :=
  commitVersion_frame (k := (bucketGuid, key))

theorem filter_keptVersions_self (g : Guid) (vs : List ObjectVersionRow) :
    (keptVersions g versionId vs).filter (·.objectGuid = g) =
      if versionId = nullVersionId then
        (vs.filter (·.objectGuid = g)).filter (·.versionId ≠ versionId)
      else vs.filter (·.objectGuid = g) := by
  rw [keptVersions]
  by_cases h : versionId = nullVersionId
  · rw [if_pos h, if_pos h, List.filter_filter, List.filter_filter, h]
    refine List.filter_congr fun v _ => ?_
    by_cases hg : v.objectGuid = g
    · simp [hg]
    · simp [hg]
  · rw [if_neg h, if_neg h]

theorem filter_keptVersions_of_ne {g g' : Guid} (hg : g' ≠ g) (vs : List ObjectVersionRow) :
    (keptVersions g versionId vs).filter (·.objectGuid = g') = vs.filter (·.objectGuid = g') := by
  rw [keptVersions]
  split_ifs
  · rw [List.filter_filter]
    refine List.filter_congr fun v _ => ?_
    by_cases h : v.objectGuid = g'
    · simp [h, hg]
    · simp [h]
  · rfl

/-- **Committing a version is writing it to the map.** -/
theorem history_commitVersion (hdb : db.Constraints) (hfresh : ∀ o ∈ db.objects, o.guid ≠ guid) :
    history (commitVersion guid createdAt k.1 k.2 versionId values db).2 =
      VersionedMap.write (·.versionId) (versionId = nullVersionId) k
        (committedVersion guid createdAt k versionId values db) (history db) := by
  have hup := upsertObject_spec guid k hdb hfresh
  rw [commitVersion_eq, history_pointLatest, ← hup.history]
  generalize hdb₁ : (upsertObject guid k.1 k.2 db).2 = db₁ at hup ⊢
  have hself := hup.objectGuid_self
  change objectGuid k db₁ = some (commitRow guid k db).guid at hself
  funext l
  cases hl : objectGuid l db₁ with
  | none =>
    have hne : l ≠ k := by
      rintro rfl
      rw [hl] at hself
      cases hself
    rw [VersionedMap.write_of_ne hne, history_of_none hl]
    exact history_of_none hl
  | some g =>
    have hl' : objectGuid l { db₁ with
        objectVersions := keptVersions (commitRow guid k db).guid versionId db₁.objectVersions ++
          [committedVersion guid createdAt k versionId values db] } = some g := hl
    rw [history_of_some hl', versionsOf, List.filter_append, List.reverse_append]
    by_cases hlk : l = k
    · subst hlk
      have hg : g = (commitRow guid l db).guid := Option.some.inj (hl.symm.trans hself)
      rw [VersionedMap.write, Function.update_self, history_of_some hl, versionsOf, hg,
        List.filter_cons_of_pos (by simp [committedVersion, VersionValues.row]), List.filter_nil,
        List.reverse_singleton, List.singleton_append, filter_keptVersions_self]
      congr 1
      by_cases hnull : versionId = nullVersionId
      · rw [if_pos hnull, if_pos (decide_eq_true hnull), ← List.filter_reverse]
        rfl
      · rw [if_neg hnull, if_neg (by simpa using hnull)]
    · have hg : g ≠ (commitRow guid k db).guid := by
        rintro rfl
        exact hlk (objectGuid_inj hup.constraints hl hself)
      rw [VersionedMap.write_of_ne hlk, history_of_some hl, versionsOf,
        filter_keptVersions_of_ne hg,
        List.filter_cons_of_neg (fun h => hg (of_decide_eq_true h).symm), List.filter_nil]
      rfl

theorem nodup_map_append_singleton {α β : Type} {f : α → β} {xs : List α} {x : α}
    (hxs : (xs.map f).Nodup) (hx : ∀ y ∈ xs, f y ≠ f x) : ((xs ++ [x]).map f).Nodup := by
  rw [List.map_append, List.nodup_append]
  refine ⟨hxs, List.nodup_singleton _, ?_⟩
  rintro _ ha _ hb rfl
  obtain ⟨y, hy, hxy⟩ := List.mem_map.mp ha
  exact hx y hy (hxy.trans (List.mem_singleton.mp hb))

/-- **A commit keeps the constraints** if the guid is new, and the version id is new for the key. -/
theorem constraints_commitVersion (hdb : db.Constraints) (hobject : ∀ o ∈ db.objects, o.guid ≠ guid)
    (hversion : ∀ v ∈ db.objectVersions, v.guid ≠ guid)
    (hid : versionId ≠ nullVersionId → ∀ v ∈ db.objectVersions,
      v.objectGuid = (commitRow guid k db).guid → v.versionId ≠ versionId) :
    (commitVersion guid createdAt k.1 k.2 versionId values db).2.Constraints := by
  have hup := upsertObject_spec guid k hdb hobject
  rw [commitVersion_eq]
  generalize hdb₁ : (upsertObject guid k.1 k.2 db).2 = db₁ at hup ⊢
  have hvs := hup.objectVersions
  have hsub : (keptVersions (commitRow guid k db).guid versionId db₁.objectVersions).Sublist
      db.objectVersions := hvs ▸ keptVersions_sublist _ _ _
  generalize hkept : keptVersions (commitRow guid k db).guid versionId db₁.objectVersions = kept at hsub ⊢
  refine constraints_pointLatest ⟨hup.constraints.object_guid, hup.constraints.object_key, ?_, ?_, ?_⟩
  · exact nodup_map_append_singleton (hdb.version_guid.sublist (hsub.map _))
      fun v hv => hversion v (hsub.subset hv)
  · refine nodup_map_append_singleton (hdb.version_id.sublist (hsub.map _)) fun v hv heq => ?_
    obtain ⟨hguid, hversionId⟩ := Prod.mk.inj heq
    change v.versionId = versionId at hversionId
    change v.objectGuid = (commitRow guid k db).guid at hguid
    by_cases hnull : versionId = nullVersionId
    · rw [← hkept, keptVersions, if_pos hnull, List.mem_filter] at hv
      have := hv.2
      simp [hguid, hversionId, hnull] at this
    · exact hid hnull v (hsub.subset hv) hguid hversionId
  · intro v hv
    rcases List.mem_append.mp hv with hv | hv
    · exact hup.constraints.version_object v (hvs ▸ hsub.subset hv)
    · rw [List.mem_singleton.mp hv]
      exact ⟨_, hup.mem, rfl⟩

/-- **A commit keeps the tables well formed.** -/
theorem WellFormed.commitVersion (hdb : WellFormed db) (hfresh : Fresh guid createdAt versionId db) :
    WellFormed (commitVersion guid createdAt k.1 k.2 versionId values db).2 := by
  have hup := upsertObject_spec guid k hdb.toConstraints hfresh.object
  have hconstraints := @constraints_commitVersion guid createdAt k versionId values db
    hdb.toConstraints hfresh.object hfresh.version fun hnull v hv _ => hfresh.versionId hnull v hv
  rw [commitVersion_eq] at hconstraints ⊢
  generalize hdb₁ : (upsertObject guid k.1 k.2 db).2 = db₁ at hup hconstraints ⊢
  have hvs := hup.objectVersions
  have hsub : (keptVersions (commitRow guid k db).guid versionId db₁.objectVersions).Sublist
      db.objectVersions := hvs ▸ keptVersions_sublist _ _ _
  generalize hkept : keptVersions (commitRow guid k db).guid versionId db₁.objectVersions = kept
    at hsub hconstraints ⊢
  refine ⟨hconstraints, ?_, fun o ho => ?_⟩
  · refine List.pairwise_append.mpr ⟨hdb.sorted.sublist hsub, List.pairwise_singleton _ _, ?_⟩
    intro v hv w hw
    rw [List.mem_singleton.mp hw]
    exact hfresh.createdAt v (hsub.subset hv)
  · rw [versionsOf_pointLatest, versionsOf]
    rcases mem_pointLatest.mp ho with ⟨ho, hne⟩ | ⟨p, hp, hguid, rfl⟩
    · have ho' : o ∈ db.objects := by
        rcases hup.objects o ho with rfl | ho
        · exact absurd rfl hne
        · exact ho
      obtain ⟨v, hv, hlatest⟩ := hdb.latest o ho'
      refine ⟨v, ?_, hlatest⟩
      rw [List.filter_append, List.filter_cons_of_neg (fun h => hne (of_decide_eq_true h).symm),
        List.filter_nil, List.append_nil, ← hkept, filter_keptVersions_of_ne hne, hvs]
      exact hv
    · refine ⟨committedVersion guid createdAt k versionId values db, ?_, rfl⟩
      rw [List.filter_append, List.filter_cons_of_pos (by exact decide_eq_true hguid.symm),
        List.filter_nil]
      exact List.getLast?_concat

/-- The versions after a commit: the new one, and those it does not replace. -/
theorem mem_commitVersion {v : ObjectVersionRow} (hdb : db.Constraints)
    (hfresh : ∀ o ∈ db.objects, o.guid ≠ guid) :
    v ∈ (Statements.commitVersion guid createdAt k.1 k.2 versionId values db).2.objectVersions ↔
      v = committedVersion guid createdAt k versionId values db ∨
        v ∈ db.objectVersions ∧
          ¬ (versionId = nullVersionId ∧ v.versionId = nullVersionId ∧ v ∈ history db k) := by
  have hup := upsertObject_spec guid k hdb hfresh
  have hmem : v ∈ history db k ↔ v ∈ db.objectVersions ∧ v.objectGuid = (commitRow guid k db).guid := by
    rw [← hup.history, mem_history, hup.objectVersions, hup.objectGuid_self, Option.some.injEq,
      eq_comm (a := (upsertObject guid k.1 k.2 db).1.guid)]
    rfl
  rw [commitVersion_eq]
  change v ∈ keptVersions _ _ _ ++ _ ↔ _
  rw [List.mem_append, List.mem_singleton, hup.objectVersions, or_comm, hmem, keptVersions]
  by_cases hnull : versionId = nullVersionId
  · rw [if_pos hnull, List.mem_filter, Bool.not_eq_true', Bool.and_eq_false_iff,
      decide_eq_false_iff_not, decide_eq_false_iff_not]
    tauto
  · rw [if_neg hnull]
    tauto

/-- The keys' rows after a commit: those of before, and perhaps a new one. -/
theorem guid_commitVersion {o : ObjectRow} (hdb : db.Constraints)
    (hfresh : ∀ o ∈ db.objects, o.guid ≠ guid)
    (ho : o ∈ (Statements.commitVersion guid createdAt k.1 k.2 versionId values db).2.objects) :
    o.guid = guid ∨ ∃ p ∈ db.objects, p.guid = o.guid := by
  have hup := upsertObject_spec guid k hdb hfresh
  have hrow : (upsertObject guid k.1 k.2 db).1.guid = guid ∨
      (upsertObject guid k.1 k.2 db).1 ∈ db.objects := by
    cases h : findObject k.1 k.2 db with
    | some row =>
      rw [upsertObject_of_some h]
      exact Or.inr (List.mem_of_find?_eq_some h)
    | none =>
      rw [upsertObject_of_none h]
      exact Or.inl rfl
  have hold : ∀ p ∈ (upsertObject guid k.1 k.2 db).2.objects,
      p.guid = guid ∨ ∃ q ∈ db.objects, q.guid = p.guid := by
    intro p hp
    rcases hup.objects p hp with rfl | hp
    · exact hrow.imp_right fun h => ⟨_, h, rfl⟩
    · exact Or.inr ⟨p, hp, rfl⟩
  rw [commitVersion_eq] at ho
  rcases mem_pointLatest.mp ho with ⟨ho, -⟩ | ⟨p, hp, -, rfl⟩
  · exact hold o ho
  · exact hold p hp

/-- A commit returns the paths of the versions it drops. -/
theorem mem_commitVersion_paths {path : Text} (hdb : db.Constraints)
    (hfresh : ∀ o ∈ db.objects, o.guid ≠ guid) :
    path ∈ (Statements.commitVersion guid createdAt k.1 k.2 versionId values db).1 ↔
      versionId = nullVersionId ∧
        ∃ v ∈ history db k, v.versionId = nullVersionId ∧ Query.present v.storagePath = some path := by
  have hup := upsertObject_spec guid k hdb hfresh
  rw [commitVersion_eq, storagePaths, List.mem_filterMap, replacedVersions, hup.objectVersions]
  by_cases hnull : versionId = nullVersionId
  · rw [if_pos hnull]
    refine ⟨fun ⟨v, hv, hpath⟩ => ⟨hnull, v, ?_⟩, fun ⟨_, v, hv, hid, hpath⟩ => ⟨v, ?_, hpath⟩⟩
    · rw [List.mem_filter, Bool.and_eq_true, decide_eq_true_iff, decide_eq_true_iff] at hv
      refine ⟨?_, hv.2.2, hpath⟩
      rw [← hup.history, mem_history, hup.objectVersions]
      exact ⟨hv.1, hup.objectGuid_self.trans (congrArg some hv.2.1.symm)⟩
    · rw [← hup.history, mem_history, hup.objectVersions, hup.objectGuid_self,
        Option.some.injEq] at hv
      rw [List.mem_filter, Bool.and_eq_true, decide_eq_true_iff, decide_eq_true_iff]
      exact ⟨hv.1, hv.2.symm, hid⟩
  · rw [if_neg hnull]
    simp [hnull]

end Commit

/-- **What a commit did.** -/
structure Committed (k : BucketKey) (version : ObjectVersionRow) (db : Database)
    (replaced : List Text) (db' : Database) : Prop where
  wellFormed : WellFormed db'
  history : history db' =
    VersionedMap.write (·.versionId) (version.versionId = nullVersionId) k version (history db)
  mem : ∀ v, v ∈ db'.objectVersions ↔ v = version ∨ v ∈ db.objectVersions ∧
    ¬ (version.versionId = nullVersionId ∧ v.versionId = nullVersionId ∧ v ∈ Statements.history db k)
  guid : ∀ o ∈ db'.objects, o.guid = version.guid ∨ ∃ p ∈ db.objects, p.guid = o.guid
  replaced : ∀ path, path ∈ replaced ↔ version.versionId = nullVersionId ∧
    ∃ v ∈ Statements.history db k, v.versionId = nullVersionId ∧
      Query.present v.storagePath = some path
  frame : ∃ objects objectVersions, db' = { db with objects, objectVersions }

theorem commitVersion_committed {db : Database} (hdb : WellFormed db) {guid : Guid}
    {createdAt : Timestamp} {versionId : Text} (hfresh : Fresh guid createdAt versionId db)
    (k : BucketKey) (values : VersionValues) :
    Committed k (committedVersion guid createdAt k versionId values db) db
      (commitVersion guid createdAt k.1 k.2 versionId values db).1
      (commitVersion guid createdAt k.1 k.2 versionId values db).2 where
  wellFormed := hdb.commitVersion hfresh
  history := history_commitVersion hdb.toConstraints hfresh.object
  mem := fun _ => mem_commitVersion hdb.toConstraints hfresh.object
  guid := fun _ => guid_commitVersion hdb.toConstraints hfresh.object
  replaced := fun _ => mem_commitVersion_paths hdb.toConstraints hfresh.object
  frame := commitVersion_frame

/-! ## Deleting a key's row -/

theorem objectGuid_deleteObject {db : Database}
    (hkeys : (db.objects.map fun o => (o.bucketGuid, o.key)).Nodup) (guid : Guid) (k : BucketKey) :
    objectGuid k (deleteObject guid db) =
      if objectGuid k db = some guid then none else objectGuid k db := by
  have hkeys' : ((deleteObject guid db).objects.map fun o => (o.bucketGuid, o.key)).Nodup :=
    hkeys.sublist (List.filter_sublist.map _)
  by_cases h : objectGuid k db = some guid
  · rw [if_pos h, Option.eq_none_iff_forall_ne_some]
    intro g hg
    obtain ⟨o, ho, hbucket, hkey, rfl⟩ := (objectGuid_eq_some hkeys').mp hg
    obtain ⟨ho, hne⟩ := List.mem_filter.mp ho
    have ho' := (objectGuid_eq_some hkeys).mpr ⟨o, ho, hbucket, hkey, rfl⟩
    rw [h, Option.some.injEq] at ho'
    exact of_decide_eq_true hne ho'.symm
  · rw [if_neg h]
    cases hk : objectGuid k db with
    | none =>
      rw [Option.eq_none_iff_forall_ne_some]
      intro g hg
      obtain ⟨o, ho, hbucket, hkey, rfl⟩ := (objectGuid_eq_some hkeys').mp hg
      have ho' := (objectGuid_eq_some hkeys).mpr
        ⟨o, (List.mem_filter.mp ho).1, hbucket, hkey, rfl⟩
      rw [hk] at ho'
      cases ho'
    | some g =>
      obtain ⟨o, ho, hbucket, hkey, rfl⟩ := (objectGuid_eq_some hkeys).mp hk
      refine (objectGuid_eq_some hkeys').mpr ⟨o, List.mem_filter.mpr ⟨ho, decide_eq_true ?_⟩,
        hbucket, hkey, rfl⟩
      rintro rfl
      exact h hk

/-- The rows left when a key's row goes and no version of it is left. -/
theorem WellFormed.deleteObject {db : Database} {guid : Guid} (hdb : db.Constraints)
    (hsorted : db.objectVersions.Pairwise fun v w => v.createdAt < w.createdAt)
    (hlatest : ∀ o ∈ db.objects, o.guid ≠ guid → ∃ v, (versionsOf o.guid db).getLast? = some v ∧
      o.latestVersionGuid = some v.guid)
    (hnone : versionsOf guid db = []) : WellFormed (deleteObject guid db) where
  object_guid := hdb.object_guid.sublist (List.filter_sublist.map _)
  object_key := hdb.object_key.sublist (List.filter_sublist.map _)
  version_guid := hdb.version_guid
  version_id := hdb.version_id
  version_object := fun v hv => by
    obtain ⟨o, ho, hguid⟩ := hdb.version_object v hv
    refine ⟨o, List.mem_filter.mpr ⟨ho, decide_eq_true fun h => ?_⟩, hguid⟩
    exact List.filter_eq_nil_iff.mp hnone v hv (decide_eq_true (hguid.symm.trans h))
  sorted := hsorted
  latest := fun o ho => by
    obtain ⟨ho, hne⟩ := List.mem_filter.mp ho
    exact hlatest o ho (of_decide_eq_true hne)

/-- Deleting versions takes nothing from the constraints. -/
theorem constraints_deleteVersions {db : Database} (hdb : db.Constraints)
    (p : ObjectVersionRow → Bool) : (deleteVersions p db).2.Constraints where
  object_guid := hdb.object_guid
  object_key := hdb.object_key
  version_guid := hdb.version_guid.sublist (List.filter_sublist.map _)
  version_id := hdb.version_id.sublist (List.filter_sublist.map _)
  version_object := fun v hv => hdb.version_object v (List.mem_filter.mp hv).1

theorem versionsOf_deleteVersions (p : ObjectVersionRow → Bool) (guid : Guid) (db : Database) :
    versionsOf guid (deleteVersions p db).2 = (versionsOf guid db).filter (!p ·) := by
  rw [versionsOf, deleteVersions, versionsOf, List.filter_filter, List.filter_filter]
  refine List.filter_congr fun v _ => Bool.and_comm _ _

/-- Deleting versions of one key only. -/
theorem versionsOf_deleteVersions_of_ne {p : ObjectVersionRow → Bool} {guid : Guid} {db : Database}
    (hp : ∀ v ∈ db.objectVersions, p v = true → v.objectGuid ≠ guid) :
    versionsOf guid (deleteVersions p db).2 = versionsOf guid db := by
  rw [versionsOf_deleteVersions, List.filter_eq_self]
  intro v hv
  rw [versionsOf, List.mem_filter, decide_eq_true_iff] at hv
  by_contra hpv
  rw [Bool.not_eq_true', Bool.not_eq_false] at hpv
  exact hp v hv.1 hpv hv.2

/-! ## Removing a version -/

section Remove

variable {db : Database} {k : BucketKey} {version : ObjectVersionRow}

theorem removeVersion_eq (guid versionGuid : Guid) : removeVersion guid versionGuid db =
    match newestVersion guid (deleteVersions (·.guid = versionGuid) db).2 with
    | some newest => pointLatest guid newest.guid (deleteVersions (·.guid = versionGuid) db).2
    | none => deleteObject guid (deleteVersions (·.guid = versionGuid) db).2 := rfl

/-- Removing a version leaves the other tables alone. -/
theorem removeVersion_frame (guid versionGuid : Guid) :
    ∃ objects objectVersions, removeVersion guid versionGuid db =
      { db with objects, objectVersions } := by
  rw [removeVersion_eq]
  cases newestVersion guid (deleteVersions (·.guid = versionGuid) db).2 with
  | some newest => exact ⟨_, _, rfl⟩
  | none => exact ⟨_, _, rfl⟩

theorem removeVersion_objectVersions (guid versionGuid : Guid) :
    (removeVersion guid versionGuid db).objectVersions =
      db.objectVersions.filter fun v => !(v.guid = versionGuid : Bool) := by
  rw [removeVersion_eq]
  cases newestVersion guid (deleteVersions (·.guid = versionGuid) db).2 with
  | some newest => rfl
  | none => rfl

theorem guid_removeVersion {guid versionGuid : Guid} {o : ObjectRow}
    (ho : o ∈ (removeVersion guid versionGuid db).objects) : ∃ p ∈ db.objects, p.guid = o.guid := by
  rw [removeVersion_eq] at ho
  cases hnewest : newestVersion guid (deleteVersions (·.guid = versionGuid) db).2 with
  | some newest =>
    rw [hnewest] at ho
    rcases mem_pointLatest.mp ho with ⟨ho, -⟩ | ⟨p, hp, -, rfl⟩
    · exact ⟨o, ho, rfl⟩
    · exact ⟨p, hp, rfl⟩
  | none =>
    rw [hnewest] at ho
    exact ⟨o, (List.mem_filter.mp ho).1, rfl⟩

theorem filter_guid_eq_filter_versionId (hdb : db.Constraints)
    (hversion : version ∈ db.objectVersions) :
    (versionsOf version.objectGuid db).filter (fun v => !(v.guid = version.guid : Bool)) =
      (versionsOf version.objectGuid db).filter (·.versionId ≠ version.versionId) := by
  refine List.filter_congr fun v hv => ?_
  obtain ⟨hv, hobject⟩ := List.mem_filter.mp hv
  rw [decide_eq_true_iff] at hobject
  have hiff : v.guid = version.guid ↔ v.versionId = version.versionId :=
    ⟨fun h => by rw [List.inj_on_of_nodup_map hdb.version_guid hv hversion h],
      fun h => by rw [List.inj_on_of_nodup_map hdb.version_id hv hversion (Prod.ext hobject h)]⟩
  simp [hiff]

variable (hdb : WellFormed db) (hversion : version ∈ history db k)
include hdb hversion

/-- **Removing a version is removing it from the map.** -/
theorem history_removeVersion :
    history (removeVersion version.objectGuid version.guid db) =
      VersionedMap.remove (·.versionId) k version.versionId (history db) := by
  obtain ⟨hmem, hguid⟩ := mem_history.mp hversion
  have hconstraints := constraints_deleteVersions hdb.toConstraints (·.guid = version.guid)
  have hsorted : (deleteVersions (·.guid = version.guid) db).2.objectVersions.Pairwise
      fun v w => v.createdAt < w.createdAt := hdb.sorted.filter _
  have hhistory : history (deleteVersions (·.guid = version.guid) db).2 =
      VersionedMap.remove (·.versionId) k version.versionId (history db) := by
    funext l
    cases hl : objectGuid l db with
    | none =>
      have hne : l ≠ k := by
        rintro rfl
        rw [hl] at hguid
        cases hguid
      rw [VersionedMap.remove_of_ne hne, history_of_none hl]
      exact history_of_none hl
    | some g =>
      have hl' : objectGuid l (deleteVersions (·.guid = version.guid) db).2 = some g := hl
      rw [history_of_some hl']
      by_cases hlk : l = k
      · subst hlk
        obtain rfl : g = version.objectGuid := Option.some.inj (hl.symm.trans hguid)
        rw [VersionedMap.remove, Function.update_self, history_of_some hl, versionsOf_deleteVersions,
          filter_guid_eq_filter_versionId hdb.toConstraints hmem, List.filter_reverse]
      · rw [VersionedMap.remove_of_ne hlk, history_of_some hl, versionsOf_deleteVersions_of_ne]
        intro v hv hvguid hvg
        rw [List.inj_on_of_nodup_map hdb.version_guid hv hmem (of_decide_eq_true hvguid)] at hvg
        exact hlk (objectGuid_inj hdb.toConstraints (hvg ▸ hl) hguid)
  rw [removeVersion_eq]
  cases hnewest : newestVersion version.objectGuid (deleteVersions (·.guid = version.guid) db).2 with
  | some newest => exact history_pointLatest.trans hhistory
  | none =>
    rw [newestVersion_eq hsorted, List.getLast?_eq_none_iff] at hnewest
    rw [← hhistory]
    funext l
    change history (deleteObject version.objectGuid (deleteVersions (·.guid = version.guid) db).2) l = _
    rw [history, objectGuid_deleteObject hconstraints.object_key]
    split_ifs with hl
    · rw [history_of_some hl, hnewest]
      rfl
    · rfl

/-- **Removing a version keeps the tables well formed.** -/
theorem WellFormed.removeVersion :
    WellFormed (removeVersion version.objectGuid version.guid db) := by
  obtain ⟨hmem, hguid⟩ := mem_history.mp hversion
  have hconstraints := constraints_deleteVersions hdb.toConstraints (·.guid = version.guid)
  have hsorted : (deleteVersions (·.guid = version.guid) db).2.objectVersions.Pairwise
      fun v w => v.createdAt < w.createdAt := hdb.sorted.filter _
  have hlatest : ∀ o ∈ db.objects, o.guid ≠ version.objectGuid →
      ∃ v, (versionsOf o.guid (deleteVersions (·.guid = version.guid) db).2).getLast? = some v ∧
        o.latestVersionGuid = some v.guid := by
    intro o ho hne
    rw [versionsOf_deleteVersions_of_ne]
    · exact hdb.latest o ho
    · intro v hv hvguid hvo
      rw [List.inj_on_of_nodup_map hdb.version_guid hv hmem (of_decide_eq_true hvguid)] at hvo
      exact hne hvo.symm
  rw [removeVersion_eq]
  cases hnewest : newestVersion version.objectGuid (deleteVersions (·.guid = version.guid) db).2 with
  | none =>
    rw [newestVersion_eq hsorted, List.getLast?_eq_none_iff] at hnewest
    exact WellFormed.deleteObject hconstraints hsorted hlatest hnewest
  | some newest =>
    rw [newestVersion_eq hsorted] at hnewest
    refine ⟨constraints_pointLatest hconstraints, hsorted, fun o ho => ?_⟩
    rcases mem_pointLatest.mp ho with ⟨ho, hne⟩ | ⟨p, hp, hpguid, rfl⟩
    · exact hlatest o ho hne
    · exact ⟨newest, hpguid ▸ hnewest, rfl⟩

end Remove

/-! ## Dropping a key -/

section Purge

variable {db : Database} {k : BucketKey} {guid : Guid}

theorem purgeObject_frame : ∃ objects objectVersions, (purgeObject guid db).2 =
    { db with objects, objectVersions } := ⟨_, _, rfl⟩

theorem versionsOf_purged : versionsOf guid (deleteVersions (·.objectGuid = guid) db).2 = [] := by
  rw [versionsOf_deleteVersions, List.filter_eq_nil_iff]
  intro v hv
  rw [versionsOf, List.mem_filter, decide_eq_true_iff] at hv
  simp [hv.2]

theorem versionsOf_purged_of_ne {g : Guid} (hg : g ≠ guid) :
    versionsOf g (deleteVersions (·.objectGuid = guid) db).2 = versionsOf g db :=
  versionsOf_deleteVersions_of_ne fun _ _ hv hvg => hg (hvg.symm.trans (of_decide_eq_true hv))

variable (hdb : WellFormed db) (hk : objectGuid k db = some guid)
include hdb

/-- **Dropping a key keeps the tables well formed.** -/
theorem WellFormed.purgeObject : WellFormed (purgeObject guid db).2 := by
  have hlatest : ∀ o ∈ db.objects, o.guid ≠ guid →
      ∃ v, (versionsOf o.guid (deleteVersions (·.objectGuid = guid) db).2).getLast? = some v ∧
        o.latestVersionGuid = some v.guid := by
    intro o ho hne
    rw [versionsOf_purged_of_ne hne]
    exact hdb.latest o ho
  exact WellFormed.deleteObject (constraints_deleteVersions hdb.toConstraints _)
    (hdb.sorted.filter _) hlatest versionsOf_purged

include hk

/-- **Dropping a key is purging it from the map.** -/
theorem history_purgeObject :
    history (Statements.purgeObject guid db).2 = VersionedMap.purge k (history db) := by
  funext l
  change history (deleteObject guid (deleteVersions (·.objectGuid = guid) db).2) l = _
  have hobjectGuid : objectGuid l (deleteObject guid (deleteVersions (·.objectGuid = guid) db).2) =
      if objectGuid l db = some guid then none else objectGuid l db :=
    objectGuid_deleteObject (constraints_deleteVersions hdb.toConstraints _).object_key guid l
  rw [history, hobjectGuid]
  by_cases hl : objectGuid l db = some guid
  · obtain rfl := objectGuid_inj hdb.toConstraints hk hl
    rw [if_pos hl, VersionedMap.purge_self]
    rfl
  · have hlk : l ≠ k := by
      rintro rfl
      exact hl hk
    rw [if_neg hl, VersionedMap.purge_of_ne hlk, history]
    cases hg : objectGuid l db with
    | none => rfl
    | some g =>
      have hne : g ≠ guid := by
        rintro rfl
        exact hl hg
      exact congrArg List.reverse (versionsOf_purged_of_ne hne)

omit hdb in
/-- The paths of the versions that go with the key. -/
theorem mem_purgeObject_paths {path : Text} : path ∈ (Statements.purgeObject guid db).1 ↔
    ∃ v ∈ history db k, Query.present v.storagePath = some path := by
  change path ∈ storagePaths (versionsOf guid db) ↔ _
  simp only [storagePaths, List.mem_filterMap, history_of_some hk, List.mem_reverse]

end Purge

end Statements
end SimpleStorage
