import SimpleStorage.Objects.Integrity
import SimpleStorage.Objects.MoveKeys
import SimpleStorage.Objects.TableEffects
import SimpleStorage.Objects.UploadPages
import Mathlib.Data.List.Find

/-!
# What is done under a prefix

The listings, the deletion of a folder and the keys a folder is copied by are selected by `LIKE` on
an escaped prefix.  Whatever wildcards and backslashes the prefix is made of, the pattern is read as
the characters of the prefix and then any text.  So nothing outside the prefix is shown or deleted.

* `AllUnder` is kept by the loops of the three listings, from any rows under the prefix
  (`scanBatch_under`, `versionsLoop_under`, `uploadsLoop_under`).
* `delete_rowsOf`: deleting one key leaves the rows of the others alone.
* `staysUnder`: what holds of the pattern, the listings and the deletion together.
-/

namespace SimpleStorage
namespace ObjectsService

open ObjectsTypes Program Query Statements StorageService

variable {N : Node}

/-! ## The pattern -/

/-- **The pattern of a prefix** is read as its characters, each for itself, and then any text. -/
theorem likeTokens_prefix (pre : Text) :
    likeTokens (escapeLike pre ++ ['%']) = some (pre.map Wildcard.Token.lit ++ [.many]) := by
  rw [likeTokens_escapeLike]
  rfl

/-! ## Listings -/

/-- The keys and the common prefixes of a page are under the prefix. -/
def AllUnder (pre : Text) (keys commonPrefixes : List Text) : Prop :=
  (∀ key ∈ keys, pre <+: key) ∧ ∀ folder ∈ commonPrefixes, pre <+: folder

section Listings

variable {pre : Text} {keys commonPrefixes : List Text}

theorem AllUnder.key (h : AllUnder pre keys commonPrefixes) {key : Text} (hkey : pre <+: key) :
    AllUnder pre (keys ++ [key]) commonPrefixes :=
  ⟨by simpa [or_imp, forall_and] using ⟨h.1, hkey⟩, h.2⟩

theorem AllUnder.folder (h : AllUnder pre keys commonPrefixes) {folder : Text} (hfolder : pre <+: folder) :
    AllUnder pre keys (commonPrefixes ++ [folder]) :=
  ⟨h.1, by simpa [or_imp, forall_and] using ⟨h.2, hfolder⟩⟩

/-- A key is only grouped under a folder under the prefix. -/
theorem isPrefix_of_groupOf {pre delimiter : Option Text} {key folder : Text}
    (h : groupOf pre delimiter key = some folder) : pre.getD [] <+: folder := by
  obtain ⟨hgroup, -⟩ := present_eq_some_iff.mp h
  obtain ⟨d, -, hcommon⟩ := Option.bind_eq_some_iff.mp hgroup
  rw [commonPrefixOf] at hcommon
  cases hindex : indexOf d (key.drop (pre.getD []).length) with
  | none =>
    simp only [hindex] at hcommon
    cases hcommon
  | some index =>
    simp only [hindex, Option.some.injEq] at hcommon
    rw [← hcommon]
    exact List.prefix_append _ _

/-- One batch of a listing. -/
theorem scanBatch_under (q : ListQuery) {rows : List JoinedRow} (hrows : ∀ row ∈ rows, q.pre.getD [] <+: row.key)
    {s : ListState} (hs : AllUnder (q.pre.getD []) (s.objects.map (·.key)) s.commonPrefixes) :
    AllUnder (q.pre.getD []) ((scanBatch q rows s).1.objects.map (·.key))
      (scanBatch q rows s).1.commonPrefixes := by
  induction rows generalizing s with
  | nil => exact hs
  | cons row rows ih =>
    obtain ⟨hrow, hrest⟩ := List.forall_mem_cons.mp hrows
    rw [scanBatch]
    cases hgroup : groupOf q.pre q.delimiter row.key with
    | some folder => exact hs.folder (isPrefix_of_groupOf hgroup)
    | none =>
      refine ih hrest ?_
      rw [List.map_append]
      exact hs.key hrow

theorem fetchLatestVersions_under (db : Database) (q : LatestQuery) {row : JoinedRow}
    (hrow : row ∈ fetchLatestVersions db q) : q.pre.getD [] <+: row.key := by
  have hmem := (List.mem_insertionSort _).mp (List.mem_of_mem_take hrow)
  have hadmits := (List.mem_filter.mp hmem).2
  simp only [LatestQuery.admits, Bool.and_eq_true] at hadmits
  exact all_likePrefix_iff.mp hadmits.1.1.2

theorem listLoop_under (db : Database) (q : ListQuery) (limit : ℕ) (n : ℕ) {s : ListState}
    (hs : AllUnder (q.pre.getD []) (s.objects.map (·.key)) s.commonPrefixes) :
    AllUnder (q.pre.getD []) ((listLoop db q limit n s).objects.map (·.key))
      (listLoop db q limit n s).commonPrefixes := by
  induction n generalizing s with
  | zero => exact hs
  | succ n ih =>
    rw [listLoop]
    by_cases hmore : (s.count < limit && !s.exhausted) = true
    · rw [if_pos hmore]
      refine ih ?_
      rw [listStep]
      have hscanned := scanBatch_under q (fun row hrow => fetchLatestVersions_under db
        (latestQuery q s (limit - s.count)) hrow) hs
      by_cases hempty : (fetchLatestVersions db (latestQuery q s (limit - s.count))).length = 0
      · rw [if_pos hempty]
        exact hs
      · rw [if_neg hempty]
        dsimp only
        split_ifs
        · exact hscanned
        · exact hscanned
    · rw [if_neg hmore]
      exact hs

/-- **Nothing outside the prefix is listed.** -/
theorem list_under (db : Database) (q : ListQuery) :
    AllUnder (q.pre.getD []) ((list db q).objects.map (·.key)) (list db q).commonPrefixes :=
  listLoop_under db q _ _ ⟨nofun, nofun⟩

theorem versionsLoop_under (q : ListVersionsQuery) (limit : ℕ) {rows : List JoinedRow}
    (hrows : ∀ row ∈ rows, q.pre.getD [] <+: row.key) {s : VersionsState}
    (hs : AllUnder (q.pre.getD []) (s.versions.map (·.key)) s.commonPrefixes) :
    AllUnder (q.pre.getD []) ((versionsLoop q limit rows s).versions.map (·.key))
      (versionsLoop q limit rows s).commonPrefixes := by
  induction rows generalizing s with
  | nil => exact hs
  | cons row rows ih =>
    obtain ⟨hrow, hrest⟩ := List.forall_mem_cons.mp hrows
    rw [versionsLoop]
    cases hgroup : groupOf q.pre q.delimiter row.key with
    | some folder =>
      dsimp only
      split_ifs
      · exact ih hrest hs
      · exact ih hrest hs
      · exact ih hrest hs
      · exact ih hrest hs
      · exact hs
      · exact ih hrest (hs.folder (isPrefix_of_groupOf hgroup))
    | none =>
      dsimp only
      split_ifs
      · exact ih hrest hs
      · exact ih hrest hs
      · exact ih hrest hs
      · exact hs
      · refine ih hrest ?_
        rw [List.map_append]
        exact hs.key hrow

/-- **Nor are versions.** -/
theorem listAllVersions_under (db : Database) (q : ListVersionsQuery) :
    AllUnder (q.pre.getD []) ((listAllVersions db q).versions.map (·.key))
      (listAllVersions db q).commonPrefixes := by
  refine versionsLoop_under q _ (fun row hrow => ?_) ⟨nofun, nofun⟩
  have hmem := (List.mem_insertionSort _).mp (List.mem_of_mem_take hrow)
  have hadmits := (List.mem_filter.mp hmem).2
  simp only [ListVersionsQuery.admits, Bool.and_eq_true] at hadmits
  exact all_likePrefix_iff.mp hadmits.1.2

theorem uploadsLoop_under (q : ListUploadsQuery) (limit : ℕ) {rows : List MultipartUploadRow}
    (hrows : ∀ row ∈ rows, q.pre.getD [] <+: row.key) {s : UploadsState}
    (hs : AllUnder (q.pre.getD []) (s.uploads.map (·.key)) s.commonPrefixes) :
    AllUnder (q.pre.getD []) ((uploadsLoop q limit rows s).uploads.map (·.key))
      (uploadsLoop q limit rows s).commonPrefixes := by
  induction rows generalizing s with
  | nil => exact hs
  | cons row rows ih =>
    obtain ⟨hrow, hrest⟩ := List.forall_mem_cons.mp hrows
    rw [uploadsLoop]
    cases hgroup : groupOf q.pre q.delimiter row.key with
    | some folder =>
      dsimp only
      split_ifs
      · exact ih hrest hs
      · exact ih hrest hs
      · exact ih hrest hs
      · exact hs
      · exact ih hrest (hs.folder (isPrefix_of_groupOf hgroup))
    | none =>
      dsimp only
      split_ifs
      · exact ih hrest hs
      · exact ih hrest hs
      · exact hs
      · refine ih hrest ?_
        rw [List.map_append]
        exact hs.key hrow

/-- **Nor are uploads**, however their ids are ordered. -/
theorem listMultipartUploads_under (idLe : Text → Text → Prop) [DecidableRel idLe] (db : Database)
    (q : ListUploadsQuery) :
    AllUnder (q.pre.getD []) ((listMultipartUploads idLe db q).uploads.map (·.key))
      (listMultipartUploads idLe db q).commonPrefixes := by
  refine uploadsLoop_under q _ (fun row hrow => ?_) ⟨nofun, nofun⟩
  have hmem := (List.mem_insertionSort _).mp (List.mem_of_mem_take hrow)
  have hadmits := (List.mem_filter.mp hmem).2
  simp only [ListUploadsQuery.admits, Bool.and_eq_true] at hadmits
  exact all_likePrefix_iff.mp hadmits.1.2

end Listings

/-! ## Deleting -/

/-- What the tables say of a key: its row and its versions. -/
def rowsOf (k : BucketKey) (db : Database) : Option ObjectRow × List ObjectVersionRow :=
  (findObject k.1 k.2 db, history db k)

theorem rowsOf_congr {k : BucketKey} {db db' : Database}
    (hfound : findObject k.1 k.2 db' = findObject k.1 k.2 db)
    (hversions : ∀ o, findObject k.1 k.2 db = some o → versionsOf o.guid db' = versionsOf o.guid db) :
    rowsOf k db' = rowsOf k db := by
  rw [rowsOf, rowsOf, history, history, objectGuid, objectGuid, hfound]
  cases ho : findObject k.1 k.2 db with
  | none => rfl
  | some o =>
    rw [Option.map_some, Option.elim_some, Option.elim_some, hversions o ho]

section Tables

variable {w : World} (hw : Integrity w) {k k' : BucketKey} (hne : k' ≠ k)
include hw hne

theorem rowsOf_commitVersion {call : ℕ} (hcall : w.calls ≤ call) (createdAt : Timestamp) (versionId : Text)
    (values : VersionValues) :
    rowsOf k (Statements.commitVersion call createdAt k'.1 k'.2 versionId values w.db).2 = rowsOf k w.db := by
  have hfresh : ∀ o ∈ w.db.objects, o.guid ≠ call := fun o ho => ((hw.object_lt o ho).trans_le hcall).ne
  refine rowsOf_congr (findObject_commitVersion_of_ne hw.object_guid hfresh hne) fun o ho => ?_
  have hguid := commitRow_guid_ne hw.object_guid hfresh hne ho
  have hversions := @objectVersions_commitVersion call createdAt k'.1 k'.2 versionId values w.db
  rw [versionsOf, hversions, List.filter_append, filter_keptVersions_of_ne hguid,
    List.filter_cons_of_neg (by simpa [committedVersion, VersionValues.row] using hguid.symm),
    List.filter_nil, List.append_nil]
  rfl

theorem rowsOf_purgeObject {o' : ObjectRow} (ho' : findObject k'.1 k'.2 w.db = some o') :
    rowsOf k (Statements.purgeObject o'.guid w.db).2 = rowsOf k w.db := by
  have hguid : ∀ o ∈ w.db.objects, (o.bucketGuid = k.1 && o.key = k.2) = true → o.guid ≠ o'.guid := by
    intro o ho hk hsame
    obtain rfl : o = o' := List.inj_on_of_nodup_map hw.object_guid ho (List.mem_of_find?_eq_some ho') hsame
    have hk' := List.find?_some ho'
    rw [Bool.and_eq_true, decide_eq_true_iff, decide_eq_true_iff] at hk hk'
    exact hne (Prod.ext (hk'.1.symm.trans hk.1) (hk'.2.symm.trans hk.2))
  refine rowsOf_congr ?_ fun o ho => ?_
  swap
  · have hk := List.find?_some ho
    exact versionsOf_purged_of_ne (hguid o (List.mem_of_find?_eq_some ho) hk)
  show (w.db.objects.filter (·.guid ≠ o'.guid)).find? _ = w.db.objects.find? _
  rw [List.find?_filter]
  refine List.find?_congr fun o ho => ?_
  by_cases hk : (o.bucketGuid = k.1 && o.key = k.2) = true
  · simpa [hk] using hguid o ho hk
  · simp [Bool.not_eq_true _ ▸ hk]

/-- **Deleting a key leaves the rows of the others alone.** -/
theorem delete_rowsOf (bucket : BucketContext) (hk' : k'.1 = bucket.guid) (accessKeyId : Option Text) :
    wp (delete N bucket k'.2 none accessKeyId) (fun _ w' => rowsOf k w'.db = rowsOf k w.db)
      (fun _ w' => rowsOf k w'.db = rowsOf k w.db) w := by
  refine wp_mono (delete_tables bucket k'.2 none accessKeyId w) (fun _ w' h => ?_) fun _ w' h => by rw [h]
  generalize w'.db = db' at h
  cases h with
  | absent => rfl
  | version hid => cases hid
  | purged _ _ ho => exact rowsOf_purgeObject hw hne (hk' ▸ ho)
  | marked _ _ h =>
    obtain ⟨call, versionId, values, hcall, -, -, rfl⟩ := h
    rw [← hk']
    exact rowsOf_commitVersion hw hne hcall _ _ _

end Tables

/-- **Deleting a folder leaves the rows of keys outside it alone.** -/
theorem deleteByPrefix_rowsOf {w : World} (hw : Integrity w) (bucket : BucketContext) (pre : Text)
    (accessKeyId : Option Text) {k : BucketKey} (hk : k.1 = bucket.guid → ¬ pre <+: k.2) :
    rowsOf k (stateAfter (deleteByPrefix N bucket pre accessKeyId) w).db = rowsOf k w.db := by
  have hdelete : ∀ key, pre <+: key →
      Keeps (fun w' : World => Integrity w' ∧ rowsOf k w'.db = rowsOf k w.db)
        (delete N bucket key none accessKeyId) := by
    intro key hkey w' hw'
    have hne : (bucket.guid, key) ≠ k := by
      rintro rfl
      exact hk rfl hkey
    refine wp_mono (wp_and ((delete_atomic bucket key none accessKeyId).wp_keeps
      (fun _ _ h _ => h.integrity) hw'.1) (delete_rowsOf hw'.1 hne bucket rfl accessKeyId)) ?_ ?_
    · exact fun _ _ h => ⟨h.1, h.2.trans hw'.2⟩
    · exact fun _ _ h => ⟨h.1, h.2.trans hw'.2⟩
  refine (stateAfter_of_wp (p := fun w' => Integrity w' ∧ rowsOf k w'.db = rowsOf k w.db) ?_).2
  rw [deleteByPrefix, wp_bind, wp_require]
  refine ⟨fun _ => ?_, fun _ => ⟨hw, rfl⟩⟩
  rw [wp_bind, World.select, wp_query, wp_bind]
  refine wp_mono (deleteMany_keeps (fun entry hentry => ?_) w ⟨hw, rfl⟩) (fun _ _ h => h) fun _ _ h => h
  obtain ⟨key, hkey, rfl⟩ := List.mem_map.mp hentry
  exact hdelete key (mem_keysUnder.mp hkey).1

/-- What a client sees of them stays, too. -/
theorem deleteByPrefix_versions {w : World} (hw : Inv N w) (bucket : BucketContext) (pre : Text)
    (accessKeyId : Option Text)
    (hdistinct : N.Distinct (w.calls + callsPerRequest * (keysUnder bucket.guid pre w.db).length))
    {k : BucketKey} (hk : k.1 = bucket.guid → ¬ pre <+: k.2) :
    versions N (stateAfter (deleteByPrefix N bucket pre accessKeyId) w) k = versions N w k := by
  refine stateAfter_of_wp (p := fun w' => versions N w' k = versions N w k) ?_
  rw [deleteByPrefix, wp_bind, wp_require]
  refine ⟨fun _ => ?_, fun _ => rfl⟩
  rw [wp_bind, World.select, wp_query, wp_bind]
  refine wp_mono (deleteMany_spec hw bucket accessKeyId _ hdistinct) ?_ fun _ _ h => h.elim
  rintro _ w' hdeleted
  refine hdeleted.kept k fun key hkey => ?_
  rintro rfl
  exact hk rfl (mem_keysUnder.mp hkey).1

/-! ## The prefix alone -/

variable (N) in
/-- **What is done under a prefix is done under it alone.** -/
structure StaysUnder (pre : Text) : Prop where
  /-- `LIKE` with the escaped prefix and a `%` is `starts with`. -/
  like : ∀ key, likePrefix key pre = true ↔ pre <+: key
  /-- `NOT LIKE` is its negation. -/
  notLike : ∀ key, notLikePrefix key pre = true ↔ ¬ pre <+: key
  list : ∀ db q, q.pre = some pre →
    AllUnder pre ((list db q).objects.map (·.key)) (list db q).commonPrefixes
  listAllVersions : ∀ db q, q.pre = some pre →
    AllUnder pre ((listAllVersions db q).versions.map (·.key)) (listAllVersions db q).commonPrefixes
  listMultipartUploads : ∀ idLe [DecidableRel idLe] db q, q.pre = some pre →
    AllUnder pre ((listMultipartUploads idLe db q).uploads.map (·.key))
      (listMultipartUploads idLe db q).commonPrefixes
  /-- A folder is copied and deleted key by key. -/
  keysUnder : ∀ bucketGuid db key, key ∈ keysUnder bucketGuid pre db ↔
    pre <+: key ∧ ∃ o ∈ db.objects, o.bucketGuid = bucketGuid ∧ o.key = key
  /-- Deleting it leaves the rows of keys outside alone. -/
  rows : ∀ w, Integrity w → ∀ (bucket : BucketContext) accessKeyId (k : BucketKey),
    (k.1 = bucket.guid → ¬ pre <+: k.2) →
    rowsOf k (stateAfter (deleteByPrefix N bucket pre accessKeyId) w).db = rowsOf k w.db
  /-- What a client sees of them, their payloads too, stays as long as random values differ. -/
  versions : ∀ w, Inv N w → ∀ (bucket : BucketContext) accessKeyId,
    N.Distinct (w.calls + callsPerRequest * (Statements.keysUnder bucket.guid pre w.db).length) →
    ∀ k : BucketKey, (k.1 = bucket.guid → ¬ pre <+: k.2) →
    versions N (stateAfter (deleteByPrefix N bucket pre accessKeyId) w) k = versions N w k

/-- **The prefix filter is exactly `starts with`**, whatever the prefix is made of. -/
theorem staysUnder (N : Node) (pre : Text) : StaysUnder N pre where
  like _ := likePrefix_iff
  notLike _ := notLikePrefix_iff
  list db q hq := by simpa [hq] using list_under db q
  listAllVersions db q hq := by simpa [hq] using listAllVersions_under db q
  listMultipartUploads idLe _ db q hq := by simpa [hq] using listMultipartUploads_under idLe db q
  keysUnder _ _ _ := mem_keysUnder
  rows _ hw bucket accessKeyId _ hk := deleteByPrefix_rowsOf hw bucket pre accessKeyId hk
  versions _ hw bucket accessKeyId hdistinct _ hk :=
    deleteByPrefix_versions hw bucket pre accessKeyId hdistinct hk

/-- One key under `100%`, and one that `100%` matches where `%` is a wildcard. -/
def percentFolders : World where
  db := {
    objects := [⟨1, 7, "100%/a.txt".toList, some 3⟩, ⟨2, 7, "100x/b.txt".toList, some 4⟩]
    objectVersions := [
      { guid := 3, objectGuid := 1, versionId := nullVersionId, etag := ['e']
        storagePath := some ['p'], createdAt := 0 },
      { guid := 4, objectGuid := 2, versionId := nullVersionId, etag := ['f']
        storagePath := some ['q'], createdAt := 1 }] }
  disk := ⟨[(['p'], ⟨[1], 0⟩), (['q'], ⟨[2], 0⟩)]⟩
  encryption := ⟨false, []⟩
  calls := 5

/-- The folder goes, the other key stays. -/
theorem staysUnder_percent :
    let w' := stateAfter (deleteByPrefix Node.counting ⟨⟨7, "user-1".toList, none⟩, .disabled⟩
      "100%".toList none) percentFolders
    rowsOf (7, "100%/a.txt".toList) w'.db = (none, []) ∧
    rowsOf (7, "100x/b.txt".toList) w'.db = rowsOf (7, "100x/b.txt".toList) percentFolders.db :=
  ⟨by decide +kernel, (staysUnder Node.counting "100%".toList).rows percentFolders
    ⟨by decide, by decide, by decide, by decide, by decide, by decide, by decide⟩ _ none _
    fun _ => by decide⟩

end ObjectsService
end SimpleStorage
