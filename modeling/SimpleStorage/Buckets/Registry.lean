import Mathlib.Logic.Function.Basic
import SimpleStorage.Buckets.Grants
import SimpleStorage.Policies.PoliciesService

/-!
# The settings of the buckets

What can be set on a bucket is spread over two tables: its row, and the row of its policy.  To
those who set it, it is one record for each name, and names are all they know: `Registry`.

* `Change`: what may be done to a record, and when it is possible.
* `registry`: the registry two tables stand for.
* `registry_updateBucket`, `registry_deleteBucket`, `registry_insertBucket`, `registry_policies`: each
  statement changes one record.
-/

namespace SimpleStorage

open BucketsService PoliciesService

/-! ## The registry -/

/-- **What can be set on a bucket.**  As it is here, it is set on a new one. -/
structure Settings where
  acl : BucketAcl := .privateAcl
  versioning : BucketVersioning := .disabled
  quotaBytes : Option ℤ := none
  cors : Option S3Types.CorsConfiguration := none
  policy : Option PoliciesTypes.PolicyDocument := none
  deriving DecidableEq

/-- The settings of the bucket of a name, if there is one. -/
abbrev Registry := Text → Option Settings

/-- The record of one name is changed, if it is there. -/
def Registry.modify (m : Registry) (name : Text) (f : Settings → Settings) : Registry :=
  Function.update m name ((m name).map f)

/-- One of the settings. -/
inductive Setting where
  | acl (acl : BucketAcl)
  | versioning (versioning : BucketVersioning)
  | quotaBytes (quotaBytes : Option ℤ)
  | cors (cors : Option S3Types.CorsConfiguration)
  | policy (policy : Option PoliciesTypes.PolicyDocument)

def Setting.apply : Setting → Settings → Settings
  | .acl value, s => { s with acl := value }
  | .versioning value, s => { s with versioning := value }
  | .quotaBytes value, s => { s with quotaBytes := value }
  | .cors value, s => { s with cors := value }
  | .policy value, s => { s with policy := value }

/-- What is stored can be used: versioning is not taken back, rules and statements say something. -/
def Setting.Valid : Setting → Prop
  | .versioning value => value ≠ .disabled
  | .cors (some value) => ValidCors value
  | .policy (some value) => PoliciesService.Valid value
  | _ => True

/-- **What may be done** to the bucket of a name. -/
inductive Change where
  | create (acl : BucketAcl)
  | delete
  | set (setting : Setting)

def Change.apply (name : Text) : Change → Registry → Registry
  | .create acl, m => Function.update m name (some { acl })
  | .delete, m => Function.update m name none
  | .set setting, m => m.modify name setting.apply

def Change.Possible (name : Text) : Change → Registry → Prop
  | .create _, m => m name = none ∧ BucketsTypes.BucketNamePattern name
  | .delete, m => m name ≠ none
  | .set setting, m => m name ≠ none ∧ setting.Valid

/-- An ACL set on a new bucket might as well have been its first. -/
theorem Change.set_acl_create (name : Text) (acl : BucketAcl) (m : Registry) :
    (Change.set (.acl acl)).apply name ((Change.create .privateAcl).apply name m) =
      (Change.create acl).apply name m := by
  show Registry.modify (Function.update m name _) name _ = Function.update m name _
  rw [Registry.modify, Function.update_self, Function.update_idem]
  rfl

/-! ## What stays valid -/

/-- Whatever is set is valid, and set on a bucket whose name is. -/
def Registry.Valid (m : Registry) : Prop :=
  ∀ name s, m name = some s → BucketsTypes.BucketNamePattern name ∧
    (∀ cors, s.cors = some cors → ValidCors cors) ∧
    ∀ policy, s.policy = some policy → PoliciesService.Valid policy

theorem Registry.Valid.apply {m : Registry} (hm : m.Valid) {name : Text} {change : Change}
    (hpossible : change.Possible name m) : (change.apply name m).Valid := by
  intro n s hs
  by_cases hn : n = name
  swap
  · refine hm n s ?_
    cases change <;> simpa [Change.apply, Registry.modify, hn] using hs
  subst hn
  cases change with
  | create acl =>
    rw [Change.apply, Function.update_self, Option.some.injEq] at hs
    subst hs
    exact ⟨hpossible.2, by simp, by simp⟩
  | delete =>
    rw [Change.apply, Function.update_self] at hs
    cases hs
  | set setting =>
    rw [Change.apply, Registry.modify, Function.update_self, Option.map_eq_some_iff] at hs
    obtain ⟨s, hs, rfl⟩ := hs
    obtain ⟨hname, hcors, hpolicy⟩ := hm n s hs
    have hvalid := hpossible.2
    cases setting with
    | cors value =>
      refine ⟨hname, fun cors hset => ?_, hpolicy⟩
      have hvalue : value = some cors := hset
      rw [hvalue] at hvalid
      exact hvalid
    | policy value =>
      refine ⟨hname, hcors, fun policy hset => ?_⟩
      have hvalue : value = some policy := hset
      rw [hvalue] at hvalid
      exact hvalid
    | _ => exact ⟨hname, hcors, hpolicy⟩

/-! ## The tables -/

def settingsOf (db : Database) (row : BucketRow) : Settings where
  acl := row.acl
  versioning := row.versioning
  quotaBytes := row.quotaBytes
  cors := row.cors
  policy := findPolicy row.guid db

/-- **The registry the tables stand for.** -/
def registry (db : Database) : Registry := fun name => (findBucket name db).map (settingsOf db)

theorem registry_congr {db db' : Database} (hbuckets : db'.buckets = db.buckets)
    (hpolicies : db'.bucketPolicies = db.bucketPolicies) : registry db' = registry db := by
  have hsettings : settingsOf db' = settingsOf db := by
    funext row
    rw [settingsOf, settingsOf, findPolicy, findPolicy, hpolicies]
  funext name
  rw [registry, registry, findBucket, findBucket, hbuckets, hsettings]

theorem registry_of_found {name : Text} {db : Database} {row : BucketRow}
    (h : findBucket name db = some row) : registry db name = some (settingsOf db row) := by
  rw [registry, h, Option.map_some]

theorem registry_eq_none_iff {name : Text} {db : Database} :
    registry db name = none ↔ findBucket name db = none := Option.map_eq_none_iff

/-! ## Statements -/

section Statements

variable {db : Database} {name : Text} {row : BucketRow}

/-- Nothing happens to the buckets of other names. -/
theorem findBucket_updateBucket_of_ne (hguids : (db.buckets.map (·.guid)).Nodup)
    (hrow : findBucket name db = some row) {f : BucketRow → BucketRow} (hname : ∀ b, (f b).name = b.name)
    {n : Text} (hn : n ≠ name) : findBucket n (updateBucket row.guid f db) = findBucket n db := by
  obtain ⟨hmem, hfound, -⟩ := findBucket_eq_some hrow
  -- The row of this guid has another name.
  have hmap : (updateBucket row.guid f db).buckets =
      db.buckets.map fun b => if b.guid = row.guid && b.name = name then f b else b := by
    refine List.map_congr_left fun b hb => ?_
    by_cases hguid : b.guid = row.guid
    · have hsame := List.inj_on_of_nodup_map hguids hb hmem hguid
      simp [hsame, hfound]
    · simp [hguid]
  rw [findBucket, findBucket, hmap]
  refine Join.find?_update_other (p := fun b : BucketRow => b.guid = row.guid && b.name = name)
    (fun b hb => ?_) _
  have hb' : b.name = name := of_decide_eq_true (Bool.and_eq_true_iff.mp hb).2
  simp [hname, hb', hn.symm]

/-- Something is set on the bucket of a name. -/
theorem registry_updateBucket (hguids : (db.buckets.map (·.guid)).Nodup)
    (hrow : findBucket name db = some row) {f : BucketRow → BucketRow} (hname : ∀ b, (f b).name = b.name)
    (hdeleted : ∀ b, (f b).deletedAt = b.deletedAt) {g : Settings → Settings}
    (hg : settingsOf db (f row) = g (settingsOf db row)) :
    registry (updateBucket row.guid f db) = (registry db).modify name g := by
  funext n
  rw [registry, Registry.modify]
  by_cases hn : n = name
  · rw [hn, Function.update_self, registry_of_found hrow, findBucket_updateBucket hname hdeleted, hrow,
      Option.map_some, if_pos rfl]
    exact congrArg some hg
  · rw [Function.update_of_ne hn, findBucket_updateBucket_of_ne hguids hrow hname hn]
    rfl

/-- The bucket of a name is deleted. -/
theorem registry_deleteBucket (hguids : (db.buckets.map (·.guid)).Nodup)
    (hnames : (db.buckets.map (·.name)).Nodup) (hrow : findBucket name db = some row) (now : Timestamp) :
    registry (updateBucket row.guid (fun b => { b with deletedAt := some now }) db) =
      Function.update (registry db) name none := by
  funext n
  by_cases hn : n = name
  · obtain ⟨hmem, hfound, -⟩ := findBucket_eq_some hrow
    rw [hn, Function.update_self, registry_eq_none_iff, findBucket, updateBucket, List.find?_eq_none]
    intro changed hchanged
    obtain ⟨b, hb, rfl⟩ := List.mem_map.mp hchanged
    by_cases hguid : b.guid = row.guid
    · simp [hguid]
    · have hother : b.name ≠ name := by
        intro h
        rw [List.inj_on_of_nodup_map hnames hb hmem (h.trans hfound.symm)] at hguid
        exact hguid rfl
      simp [hguid, hother]
  · have hsame := findBucket_updateBucket_of_ne (f := fun b => { b with deletedAt := some now }) hguids hrow
      (fun _ => rfl) hn
    rw [Function.update_of_ne hn, registry, hsame]
    rfl

/-- A bucket of a new name is there, as it is set. -/
theorem registry_insertBucket (hpolicies : ∀ p ∈ db.bucketPolicies, p.bucketGuid ≠ row.guid)
    (hlive : row.deletedAt = none) (hnew : ∀ b ∈ db.buckets, b.name ≠ row.name) :
    registry { db with buckets := db.buckets ++ [row] } =
      Function.update (registry db) row.name (some { settingsOf db row with policy := none }) := by
  have hpolicy : findPolicy row.guid db = none := by
    rw [findPolicy, Option.map_eq_none_iff, List.find?_eq_none]
    exact fun p hp => by simpa using hpolicies p hp
  funext n
  rw [registry, findBucket, List.find?_append]
  by_cases hn : n = row.name
  · have hnone : db.buckets.find? (fun b => b.name = n && b.deletedAt.isNone) = none := by
      rw [List.find?_eq_none]
      intro b hb
      simp [hn, hnew b hb]
    rw [hnone, hn, Function.update_self, Option.none_or, List.find?_singleton, hlive]
    simp [settingsOf, ← hpolicy]
    rfl
  · have hother : [row].find? (fun b => b.name = n && b.deletedAt.isNone) = none := by
      simp [Ne.symm hn]
    rw [hother, Option.or_none, Function.update_of_ne hn]
    rfl

theorem findPolicy_upsertPolicy_of_ne {bucketGuid guid : Guid} (h : guid ≠ bucketGuid)
    (document : PoliciesTypes.PolicyDocument) (db : Database) :
    findPolicy guid (upsertPolicy bucketGuid document db) = findPolicy guid db := by
  rw [findPolicy, findPolicy, upsertPolicy]
  dsimp only
  split_ifs
  · have hother : ∀ p : BucketPolicyRow, decide (p.bucketGuid = bucketGuid) = true →
        decide (p.bucketGuid = guid) = false ∧ decide (p.bucketGuid = guid) = false := by
      intro p hp
      rw [of_decide_eq_true hp]
      simpa using h.symm
    have hfind := Join.find?_update_other (f := fun p : BucketPolicyRow => { p with document }) hother
      db.bucketPolicies
    simp only [decide_eq_true_eq] at hfind
    rw [hfind]
  · rw [List.find?_append, List.find?_singleton, decide_eq_false h.symm]
    simp

theorem mem_upsertPolicy {bucketGuid : Guid} {document : PoliciesTypes.PolicyDocument} {p : BucketPolicyRow}
    (hp : p ∈ (upsertPolicy bucketGuid document db).bucketPolicies) :
    (∃ p' ∈ db.bucketPolicies, p'.bucketGuid = p.bucketGuid) ∨ p.bucketGuid = bucketGuid := by
  rw [upsertPolicy] at hp
  dsimp only at hp
  split_ifs at hp
  · obtain ⟨p', hp', rfl⟩ := List.mem_map.mp hp
    refine .inl ⟨p', hp', ?_⟩
    split_ifs <;> rfl
  · rcases List.mem_append.mp hp with hp | hp
    · exact .inl ⟨p, hp, rfl⟩
    · rw [List.mem_singleton.mp hp]
      exact .inr rfl

theorem findPolicy_removePolicy (bucketGuid guid : Guid) (db : Database) :
    findPolicy guid { db with bucketPolicies := db.bucketPolicies.filter (·.bucketGuid ≠ bucketGuid) } =
      if guid = bucketGuid then none else findPolicy guid db := by
  rw [findPolicy, findPolicy, List.find?_filter]
  split_ifs with h
  · rw [Option.map_eq_none_iff, List.find?_eq_none]
    simp [h]
  · congr 2
    funext p
    by_cases hp : p.bucketGuid = guid
    · simp [hp, h]
    · simp [hp]

/-- A policy is set on the bucket of a name, or its policy is changed in some other way. -/
theorem registry_policies (hguids : (db.buckets.map (·.guid)).Nodup)
    (hrow : findBucket name db = some row) {db' : Database} (hbuckets : db'.buckets = db.buckets)
    (hothers : ∀ guid ≠ row.guid, findPolicy guid db' = findPolicy guid db) :
    registry db' = (registry db).modify name fun s => { s with policy := findPolicy row.guid db' } := by
  have hfind : ∀ n, findBucket n db' = findBucket n db := by
    intro n
    rw [findBucket, findBucket, hbuckets]
  funext n
  rw [Registry.modify, registry, hfind]
  by_cases hn : n = name
  · rw [hn, Function.update_self, registry_of_found hrow, hrow]
    rfl
  · rw [Function.update_of_ne hn, registry]
    cases hrow' : findBucket n db with
    | none => rfl
    | some row' =>
      have hguid : row'.guid ≠ row.guid := by
        obtain ⟨hmem, hname, -⟩ := findBucket_eq_some hrow
        obtain ⟨hmem', hname', -⟩ := findBucket_eq_some hrow'
        intro hguid
        rw [List.inj_on_of_nodup_map hguids hmem' hmem hguid] at hname'
        exact hn (hname'.symm.trans hname)
      rw [Option.map_some, Option.map_some, settingsOf, settingsOf, hothers _ hguid]

end Statements
end SimpleStorage
