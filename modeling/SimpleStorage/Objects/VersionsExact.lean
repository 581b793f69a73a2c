import SimpleStorage.Objects.VersionPages

/-!
# Walking through `listAllVersions`

The cursor of a page is its last *version*, and the batch behind it has a fixed size.  So
two things can go wrong that cannot with `list`.

* A page that ends in a common prefix is resumed behind the version before it, or at
  the very start if there is none.
* The rows of one common prefix, or the newer versions of the marked key, may use up the
  batch.  Then fewer entries begin in it than the page has room for, the page is not
  truncated, and the walk ends early.

`listAllVersions_exact_iff` says that a walk is exact if and only if neither happens at any
page a walk that goes well would come to.
-/

namespace SimpleStorage
namespace ObjectsService

open Query Collapse

/-! ## The walk -/

/-- A page, and the markers to come back with. -/
def versionsPage (db : Database) (q : ListVersionsQuery) (cursor : Option Text × Option Text) :
    ListVersionsResult × Option (Option Text × Option Text) :=
  let r := listAllVersions db (resumeVersions q cursor)
  (r, if r.isTruncated then some (r.nextKeyMarker, r.nextVersionIdMarker) else none)

/-- The pages a client gets that starts without markers and sends at most `n` requests. -/
def listEveryVersion (db : Database) (q : ListVersionsQuery) (n : ℕ) :
    Option (List ListVersionsResult) :=
  Paging.walk (versionsPage db q) n (none, none)

variable (db : Database) (q : ListVersionsQuery)

abbrev versionPage (i : ℕ) : List (Entry JoinedRow Char) :=
  (batchEntries db q i).take (resolveLimit q.maxKeys)

/-- The index at which the listing goes on after a truncated page at `i`. -/
def versionResume (i : ℕ) : ℕ :=
  if items (versionPage db q i) = [] then 0 else i + lastItemEnd (versionPage db q i)

variable {db q}

theorem batchEntries_length_le (hdb : VersionSnapshot db) (i : ℕ) :
    (batchEntries db q i).length ≤ (versionEntries db q).length - i := by
  rw [← List.length_drop]
  exact (batchEntries_isPrefix hdb i).length_le

theorem versionPage_length (db : Database) (q : ListVersionsQuery) (i : ℕ) :
    (versionPage db q i).length = min (resolveLimit q.maxKeys) (batchEntries db q i).length :=
  List.length_take

/-- The pages, as spans of indices of the whole listing. -/
def versionSpans (hdb : VersionSnapshot db) (q : ListVersionsQuery) :
    Paging.Spans (versionEntries db q).length where
  stop i := i + (versionPage db q i).length
  next i :=
    if resolveLimit q.maxKeys < (batchEntries db q i).length then some (versionResume db q i)
    else none
  le_stop _ := Nat.le_add_right _ _
  stop_le {i} hi := by
    have := batchEntries_length_le (q := q) hdb i
    have := versionPage_length db q i
    omega
  next_of_empty {i} hi hempty := by
    have := resolveLimit_pos q.maxKeys
    have := versionPage_length db q i
    exact if_neg (by omega)
  next_le {i j} hi h := by
    have hle := batchEntries_length_le (q := q) hdb i
    have hlast := lastItemEnd_le (versionPage db q i)
    have hlen := versionPage_length db q i
    split_ifs at h with hmore
    rw [Option.some.injEq] at h
    subst h
    rw [versionResume]
    split_ifs <;> omega

theorem versionPage_isPrefix (hdb : VersionSnapshot db) (i : ℕ) :
    versionPage db q i <+: (versionEntries db q).drop i :=
  (List.take_prefix _ _).trans (batchEntries_isPrefix hdb i)

/-- A truncated page hands out a cursor that stands where the listing goes on. -/
theorem versionsPage_next (hdb : VersionSnapshot db) {cursor : Option Text × Option Text} {i : ℕ}
    (h : VersionMarkerAt db q cursor i) :
    (versionsPage db q cursor).2 =
      if resolveLimit q.maxKeys < (batchEntries db q i).length then
        some ((items (versionPage db q i)).getLast?.map (·.key),
          (items (versionPage db q i)).getLast?.map (·.version.versionId))
      else none := by
  obtain ⟨-, -, htruncated, hmarkers⟩ := listAllVersions_at hdb h
  by_cases hmore : resolveLimit q.maxKeys < (batchEntries db q i).length
  · obtain ⟨hkey, hid⟩ := hmarkers (htruncated.mpr hmore)
    rw [if_pos hmore]
    refine (if_pos (htruncated.mpr hmore)).trans ?_
    rw [hkey, hid]
  · rw [if_neg hmore]
    exact if_neg (mt htruncated.mp hmore)

theorem versionMarkerAt_resume (hdb : VersionSnapshot db) {i : ℕ} (hi : i ≤ (versionEntries db q).length) :
    VersionMarkerAt db q ((items (versionPage db q i)).getLast?.map (·.key),
      (items (versionPage db q i)).getLast?.map (·.version.versionId)) (versionResume db q i) := by
  cases hlast : (items (versionPage db q i)).getLast? with
  | none =>
    have hnil := List.getLast?_eq_none_iff.mp hlast
    exact Or.inl ⟨rfl, if_pos hnil⟩
  | some row =>
    obtain ⟨A, B, hAB, hlen⟩ := lastItemEnd_spec hlast
    have hne : items (versionPage db q i) ≠ [] := fun hnil => by
      rw [hnil] at hlast
      cases hlast
    obtain ⟨rest, hrest⟩ := versionPage_isPrefix (q := q) hdb i
    refine Or.inr ⟨(versionEntries db q).take i ++ A, row, B ++ rest, ?_, ?_, rfl⟩
    · rw [hAB] at hrest
      conv_lhs => rw [← List.take_append_drop i (versionEntries db q), ← hrest]
      simp
    · rw [versionResume, if_neg hne, ← hlen, List.length_append, List.length_take]
      omega

/-! ## What the client sees -/

def VersionsPageShows (r : ListVersionsResult) (es : List (Entry JoinedRow Char)) : Prop :=
  r.versions = (items es).map toVersionListItem ∧ r.commonPrefixes = folders es

theorem versionsPage_follows (hdb : VersionSnapshot db) (q : ListVersionsQuery) :
    (versionSpans hdb q).Follows (versionsPage db q) VersionsPageShows (versionEntries db q)
      (VersionMarkerAt db q) where
  at_le h := h.le_length
  shows {cursor i} h := by
    obtain ⟨hversions, hcommon, -⟩ := listAllVersions_at hdb h
    have hpick : Paging.Spans.pick (versionEntries db q)
        (List.range' i ((versionSpans hdb q).stop i - i)) = versionPage db q i := by
      have hstop : (versionSpans hdb q).stop i - i = (versionPage db q i).length :=
        Nat.add_sub_cancel_left i _
      rw [Paging.Spans.pick_range', hstop]
      exact (List.prefix_iff_eq_take.mp (versionPage_isPrefix hdb i)).symm
    rw [hpick]
    exact ⟨hversions, hcommon⟩
  next_none {cursor i} h hnone := by
    rw [versionsPage_next hdb h] at hnone
    split_ifs at hnone with hmore
    exact if_neg hmore
  next_some {cursor i next} h hnext := by
    rw [versionsPage_next hdb h] at hnext
    split_ifs at hnext with hmore
    cases hnext
    exact ⟨_, if_pos hmore, versionMarkerAt_resume hdb h.le_length⟩

/-- **Exact.**  The pages show every version of every eligible key without a delimiter exactly once,
newest first within a key and keys in byte order, every common prefix of the others exactly
once, and nothing else; and a truncated page carries its markers. -/
structure VersionsExact (db : Database) (q : ListVersionsQuery) (pages : List ListVersionsResult) :
    Prop where
  versions_order : (pages.flatMap (·.versions)).Pairwise fun v w =>
    Utf8.encode v.key < Utf8.encode w.key ∨ (v.key = w.key ∧ w.lastModified < v.lastModified)
  versions : ∀ v, v ∈ pages.flatMap (·.versions) ↔
    ∃ row ∈ versionRows db, row.object.bucketGuid = q.bucketGuid ∧ q.pre.getD [] <+: row.key ∧
      IsLeaf q.pre q.delimiter row.key ∧ v = toVersionListItem row
  commonPrefixes_nodup : (pages.flatMap (·.commonPrefixes)).Nodup
  commonPrefixes : ∀ f, f ∈ pages.flatMap (·.commonPrefixes) ↔
    ∃ row ∈ versionRows db, row.object.bucketGuid = q.bucketGuid ∧ q.pre.getD [] <+: row.key ∧
      IsCommonPrefix q.pre q.delimiter row.key f
  markers : ∀ r ∈ pages, r.isTruncated = true →
    r.nextKeyMarker.isSome = true ∧ r.nextVersionIdMarker.isSome = true

theorem folder_of_mem_allRows {row : JoinedRow} (h : row ∈ allRows db q.bucketGuid q.pre) :
    (folding q.pre q.delimiter).folder row.key = groupOf q.pre q.delimiter row.key :=
  folding_folder (mem_allRows.mp h).2.2

/-- The rows shown as themselves. -/
theorem mem_items_versionEntries {row : JoinedRow} :
    row ∈ items (versionEntries db q) ↔ row ∈ versionRows db ∧
      row.object.bucketGuid = q.bucketGuid ∧ q.pre.getD [] <+: row.key ∧
      IsLeaf q.pre q.delimiter row.key := by
  rw [mem_items, versionEntries, versionListing, item_mem_collapse, ← groupOf_eq_none_iff]
  constructor
  · rintro ⟨hrow, hfolder⟩
    rw [folder_of_mem_allRows hrow] at hfolder
    obtain ⟨hmem, hbucket, hpre⟩ := mem_allRows.mp hrow
    exact ⟨hmem, hbucket, hpre, hfolder⟩
  · rintro ⟨hmem, hbucket, hpre, hgroup⟩
    exact ⟨mem_allRows.mpr ⟨hmem, hbucket, hpre⟩, (folding_folder hpre).trans hgroup⟩

/-- The folders shown in place of the others. -/
theorem mem_folders_versionEntries {f : Text} :
    f ∈ folders (versionEntries db q) ↔ ∃ row ∈ versionRows db,
      row.object.bucketGuid = q.bucketGuid ∧ q.pre.getD [] <+: row.key ∧
      IsCommonPrefix q.pre q.delimiter row.key f := by
  rw [mem_folders, versionEntries, versionListing, folder_mem_collapse]
  constructor
  · rintro ⟨row, hrow, hfolder⟩
    rw [folder_of_mem_allRows hrow] at hfolder
    obtain ⟨hmem, hbucket, hpre⟩ := mem_allRows.mp hrow
    exact ⟨row, hmem, hbucket, hpre, (groupOf_eq_some_iff hpre).mp hfolder⟩
  · rintro ⟨row, hmem, hbucket, hpre, hcommon⟩
    exact ⟨row, mem_allRows.mpr ⟨hmem, hbucket, hpre⟩,
      (folding_folder hpre).trans ((groupOf_eq_some_iff hpre).mpr hcommon)⟩

theorem flatMap_versions {rs : List ListVersionsResult} {cs : List (List (Entry JoinedRow Char))}
    (h : List.Forall₂ VersionsPageShows rs cs) :
    rs.flatMap (·.versions) = (items cs.flatten).map toVersionListItem ∧
      rs.flatMap (·.commonPrefixes) = folders cs.flatten := by
  induction h with
  | nil => exact ⟨rfl, rfl⟩
  | cons hr _ ih =>
    rw [List.flatMap_cons, List.flatMap_cons, List.flatten_cons, items_append, folders_append,
      List.map_append, ih.1, ih.2, hr.1, hr.2]
    exact ⟨rfl, rfl⟩

theorem versionEntries_nodup (hdb : VersionSnapshot db) (q : ListVersionsQuery) :
    (versionEntries db q).Nodup := by
  refine nodup_iff_items_folders.mpr ⟨?_, ?_⟩
  · rw [versionEntries, versionListing, items_collapse]
    exact (allRows_nodup hdb.constraints _ _).filter _
  · exact (folders_pairwise_collapse
      (allRows_pairwise_key hdb.constraints hdb.createdAt _ _)).imp ne_of_lt

theorem toVersionListItem_inj (hdb : VersionSnapshot db) {r s : JoinedRow}
    (hr : r ∈ allRows db q.bucketGuid q.pre) (hs : s ∈ allRows db q.bucketGuid q.pre)
    (h : toVersionListItem r = toVersionListItem s) : r = s :=
  allRows_anti hdb.constraints hdb.createdAt hr hs (congrArg VersionListItem.key h)
    (congrArg VersionListItem.lastModified h)

/-- Exact pages show every entry once. -/
theorem VersionsExact.once (hdb : VersionSnapshot db) {rs : List ListVersionsResult}
    {cs : List (List (Entry JoinedRow Char))} (hshows : List.Forall₂ VersionsPageShows rs cs)
    (hsub : ∀ e ∈ cs.flatten, e ∈ versionEntries db q) (h : VersionsExact db q rs) :
    cs.flatten.Nodup ∧ ∀ e ∈ versionEntries db q, e ∈ cs.flatten := by
  obtain ⟨hversions, hcommon⟩ := flatMap_versions hshows
  obtain ⟨horder, hmem, hnodup, hfmem, -⟩ := h
  rw [hversions] at horder hmem
  rw [hcommon] at hnodup hfmem
  have hrows : ∀ row ∈ items (versionEntries db q), row ∈ allRows db q.bucketGuid q.pre :=
    fun row hrow => (item_mem_collapse.mp (mem_items.mp hrow)).1
  refine ⟨nodup_iff_items_folders.mpr ⟨?_, hnodup⟩, fun e he => ?_⟩
  · refine List.Nodup.of_map toVersionListItem (horder.imp fun {v w} hvw heq => ?_)
    subst heq
    exact hvw.elim (fun h => lt_irrefl _ (Utf8.encode_lt_encode_iff.mp h)) fun h => lt_irrefl _ h.2
  · cases e with
    | item row =>
      have hrow := mem_items.mpr he
      obtain ⟨hver, hbucket, hpre, hleaf⟩ := mem_items_versionEntries.mp hrow
      obtain ⟨row', hrow', heq⟩ := List.mem_map.mp
        ((hmem (toVersionListItem row)).mpr ⟨row, hver, hbucket, hpre, hleaf, rfl⟩)
      have hin := hrows row' (mem_items.mpr (hsub _ (mem_items.mp hrow')))
      rw [← toVersionListItem_inj hdb hin (hrows row hrow) heq]
      exact mem_items.mp hrow'
    | folder f =>
      exact mem_folders.mp ((hfmem f).mpr (mem_folders_versionEntries.mp (mem_folders.mpr he)))

/-! ## When it is exact -/

/-- A page that neither stops early nor falls back: as many entries begin in its batch as it needs
to see, and if it is full and something follows it ends in a version. -/
def BatchReaches (db : Database) (q : ListVersionsQuery) (limit i : ℕ) : Prop :=
  min (limit + 1) ((versionEntries db q).length - i) ≤ (batchEntries db q i).length ∧
    (i + limit < (versionEntries db q).length →
      ∃ row, (((versionEntries db q).drop i).take limit).getLast? = some (.item row))

theorem versionSpans_good_iff (hdb : VersionSnapshot db) {i : ℕ} :
    (versionSpans hdb q).Good i ↔ BatchReaches db q (resolveLimit q.maxKeys) i := by
  have hL := resolveLimit_pos q.maxKeys
  have hle := batchEntries_length_le (q := q) hdb i
  have hlen := versionPage_length db q i
  have hstop : (versionSpans hdb q).stop i = i + (versionPage db q i).length := rfl
  by_cases hmore : resolveLimit q.maxKeys < (batchEntries db q i).length
  · have hnext : (versionSpans hdb q).next i = some (versionResume db q i) := if_pos hmore
    have hfull : (versionPage db q i).length = resolveLimit q.maxKeys := by omega
    have hne : versionPage db q i ≠ [] := List.length_pos_iff.mp (by omega)
    have hpage := List.prefix_iff_eq_take.mp (versionPage_isPrefix (q := q) hdb i)
    rw [hfull] at hpage
    rw [Paging.Spans.good_iff_of_lt (by omega), hnext, hstop, Option.some.injEq, BatchReaches,
      ← hpage, ← lastItemEnd_eq_length_iff hne, versionResume]
    constructor
    · intro h
      refine ⟨by omega, fun _ => ?_⟩
      split_ifs at h <;> omega
    · rintro ⟨-, h⟩
      have hlast := h (by omega)
      rw [if_neg fun hnil => ?_]
      · omega
      · rw [lastItemEnd_eq_zero_iff.mpr hnil] at hlast
        omega
  · have hnext : (versionSpans hdb q).next i = none := if_neg hmore
    rw [BatchReaches]
    by_cases hend : (versionEntries db q).length ≤ (versionSpans hdb q).stop i
    · rw [Paging.Spans.good_iff_of_le hend]
      exact iff_of_true hnext ⟨by omega, fun h => by omega⟩
    · rw [Paging.Spans.good_iff_of_lt (by omega), hnext]
      exact iff_of_false (by simp) fun h => by omega

/-- Pages that are all good and show the entries in their order are exact. -/
theorem versionsExact_of_good (hdb : VersionSnapshot db) {rs : List ListVersionsResult}
    {cs : List (List (Entry JoinedRow Char))} (hshows : List.Forall₂ VersionsPageShows rs cs)
    (heq : cs.flatten = versionEntries db q)
    (hgood : ∀ r ∈ rs, ∃ cursor i, VersionMarkerAt db q cursor i ∧ (versionSpans hdb q).Good i ∧
      r = (versionsPage db q cursor).1) : VersionsExact db q rs := by
  obtain ⟨hversions, hcommon⟩ := flatMap_versions hshows
  rw [heq] at hversions hcommon
  refine ⟨?_, fun v => ?_, ?_, fun f => ?_, fun r hr htruncated => ?_⟩
  · rw [hversions, List.pairwise_map, versionEntries, versionListing, items_collapse]
    refine ((allRows_pairwise hdb.constraints hdb.createdAt _ _).filter _).imp fun h => ?_
    exact h.imp Utf8.encode_lt_encode_iff.mpr id
  · rw [hversions, List.mem_map]
    simp only [mem_items_versionEntries]
    constructor
    · rintro ⟨row, ⟨hmem, hbucket, hpre, hleaf⟩, rfl⟩
      exact ⟨row, hmem, hbucket, hpre, hleaf, rfl⟩
    · rintro ⟨row, hmem, hbucket, hpre, hleaf, rfl⟩
      exact ⟨row, ⟨hmem, hbucket, hpre, hleaf⟩, rfl⟩
  · rw [hcommon]
    exact (nodup_iff_items_folders.mp (versionEntries_nodup hdb q)).2
  · rw [hcommon, mem_folders_versionEntries]
  · obtain ⟨cursor, i, hat, hi, rfl⟩ := hgood r hr
    obtain ⟨-, -, hmore, hmarkers⟩ := listAllVersions_at hdb hat
    obtain ⟨hkey, hid⟩ := hmarkers htruncated
    have hnext : (versionSpans hdb q).next i = some (versionResume db q i) :=
      if_pos (hmore.mp htruncated)
    -- a page without a version would be resumed at the start
    have hitems : items (versionPage db q i) ≠ [] := by
      intro hnil
      have hstop := (versionSpans hdb q).next_le hat.le_length hnext
      rw [Paging.Spans.good_iff_of_lt hstop.2, hnext, Option.some.injEq, versionResume,
        if_pos hnil] at hi
      have hlen := versionPage_length db q i
      have hL := resolveLimit_pos q.maxKeys
      have hbatch := hmore.mp htruncated
      change 0 = i + (versionPage db q i).length at hi
      omega
    obtain ⟨row, hrow⟩ := Option.ne_none_iff_exists'.mp
      (mt List.getLast?_eq_none_iff.mp hitems)
    rw [hrow] at hkey hid
    change (listAllVersions db (resumeVersions q cursor)).nextKeyMarker.isSome = true ∧
      (listAllVersions db (resumeVersions q cursor)).nextVersionIdMarker.isSome = true
    rw [hkey, hid]
    exact ⟨rfl, rfl⟩

/-- **Walking through `ListObjectVersions` is exact if and only if every page a walk that goes well
comes to finds the entries it has to see in its batch, and ends in a version if it is cut
off.** -/
theorem listAllVersions_exact_iff (db : Database) (hdb : VersionSnapshot db) (q : ListVersionsQuery)
    (maxKeys : ℤ) (hq : q.maxKeys = some maxKeys) (hpos : 1 ≤ maxKeys) :
    (∃ n pages, listEveryVersion db q n = some pages ∧ VersionsExact db q pages) ↔
      ∀ g, (g = 0 ∨ g * min maxKeys.toNat 1000 < (versionEntries db q).length) →
        BatchReaches db q (min maxKeys.toNat 1000) (g * min maxKeys.toNat 1000) := by
  have hlimit : resolveLimit q.maxKeys = min maxKeys.toNat 1000 := by
    rw [hq]
    exact if_neg (by omega)
  rw [← hlimit]
  obtain ⟨hcovers, hreads⟩ := (versionSpans hdb q).covers_zero_iff (resolveLimit_pos q.maxKeys)
    (fun i => by
      have := versionPage_length db q i
      change i + (versionPage db q i).length ≤ _
      omega)
    (fun i j h => by
      have hlen := versionPage_length db q i
      change (if resolveLimit q.maxKeys < (batchEntries db q i).length then _ else none) = _ at h
      change i + (versionPage db q i).length = _
      split_ifs at h
      omega)
  refine ((versionsPage_follows hdb q).exactlyOnce_iff (versionEntries_nodup hdb q) rfl
    (fun rs cs hshows hsub h => h.once hdb hshows hsub)
    (fun rs cs hshows heq hgood => versionsExact_of_good hdb hshows heq hgood) hreads
    (Or.inl ⟨rfl, rfl⟩)).trans (hcovers.trans ?_)
  exact forall₂_congr fun g _ => versionSpans_good_iff hdb

/-! ## A folder as long as the batch -/

/-- Three keys in a folder, then a key outside. -/
def longFolder : Database where
  objects :=
    [⟨1, 0, "a/1".toList, some 11⟩, ⟨2, 0, "a/2".toList, some 12⟩, ⟨3, 0, "a/3".toList, some 13⟩,
      ⟨4, 0, "b".toList, some 14⟩]
  objectVersions :=
    [{ guid := 11, objectGuid := 1, versionId := "null".toList, etag := [], createdAt := 1 },
      { guid := 12, objectGuid := 2, versionId := "null".toList, etag := [], createdAt := 2 },
      { guid := 13, objectGuid := 3, versionId := "null".toList, etag := [], createdAt := 3 },
      { guid := 14, objectGuid := 4, versionId := "null".toList, etag := [], createdAt := 4 }]

/-- A listing of it by `/`, one entry a page. -/
def oneVersionPerPage : ListVersionsQuery :=
  { bucketGuid := 0, delimiter := some "/".toList, maxKeys := some 1 }

theorem longFolder_snapshot : VersionSnapshot longFolder where
  constraints := ⟨by decide, by decide, by decide, by decide, by decide⟩
  key_ne_nil := by decide
  versionId_ne_nil := by decide
  createdAt := by unfold DistinctCreatedAt; decide

theorem listAllVersions_exact_iff_longFolder :
    (∃ n pages, listEveryVersion longFolder oneVersionPerPage n = some pages ∧
      VersionsExact longFolder oneVersionPerPage pages) ↔
      ∀ g, (g = 0 ∨ g * min (1 : ℤ).toNat 1000 <
          (versionEntries longFolder oneVersionPerPage).length) →
        BatchReaches longFolder oneVersionPerPage (min (1 : ℤ).toNat 1000)
          (g * min (1 : ℤ).toNat 1000) :=
  listAllVersions_exact_iff longFolder longFolder_snapshot oneVersionPerPage 1 rfl (by decide)

/-- **The key behind the folder is never listed**: the first page says it is the last one. -/
theorem listAllVersions_longFolder_incomplete :
    ¬ ∃ n pages, listEveryVersion longFolder oneVersionPerPage n = some pages ∧
      VersionsExact longFolder oneVersionPerPage pages := by
  have hnone : (versionsPage longFolder oneVersionPerPage (none, none)).2 = none := by decide
  have hversions : (versionsPage longFolder oneVersionPerPage (none, none)).1.versions = [] := by
    decide
  rintro ⟨n, pages, hwalk, hexact⟩
  cases n with
  | zero => cases hwalk
  | succ n =>
    rw [listEveryVersion, Paging.walk_succ_of_none hnone, Option.some.injEq] at hwalk
    subst hwalk
    have hb := (hexact.versions _).mpr ⟨⟨⟨4, 0, "b".toList, some 14⟩,
      { guid := 14, objectGuid := 4, versionId := "null".toList, etag := [], createdAt := 4 }⟩,
      by decide, rfl, List.nil_prefix, groupOf_eq_none_iff.mp (by decide), rfl⟩
    rw [List.flatMap_singleton, hversions] at hb
    cases hb

end ObjectsService
end SimpleStorage
