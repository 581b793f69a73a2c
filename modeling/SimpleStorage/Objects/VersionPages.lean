import SimpleStorage.Objects.ListPages

/-!
# What one page of `listAllVersions` shows

The loop remembers the common prefixes it has shown, so over sorted rows it is the pass of
`Library.Collapse` cut off after `limit` entries (`versionsLoop_fill`).

A page that resumes at a version reads its batch from the first version of that key,
passes over it up to the marked version, and shows what is left of the batch.
`versionBatch` is that rest, by the index of the first entry of the page, and
`page_spec` says what the page shows and where it says to come back.
-/

namespace SimpleStorage
namespace ObjectsService

open Query Collapse

/-! ## The loop -/

abbrev versionListing (q : ListVersionsQuery) (rows : List JoinedRow) : List (Entry JoinedRow Char) :=
  collapse (folding q.pre q.delimiter) JoinedRow.key rows

/-- The row a cursor names. -/
def rowMarker (row : JoinedRow) : Text × Text := (row.key, row.version.versionId)

/-- What the local variables say when `es` has been shown. -/
structure VersionsShown (s : VersionsState) (es : List (Entry JoinedRow Char)) : Prop where
  versions : s.versions = (items es).map toVersionListItem
  commonPrefixes : s.commonPrefixes = folders es
  last : s.last = (items es).getLast?.map rowMarker

theorem VersionsShown.count {s : VersionsState} {es : List (Entry JoinedRow Char)}
    (h : VersionsShown s es) : s.count = es.length := by
  rw [VersionsState.count, h.versions, h.commonPrefixes, List.length_map,
    length_items_add_length_folders]

theorem VersionsShown.item {s : VersionsState} {es : List (Entry JoinedRow Char)}
    (h : VersionsShown s es) (row : JoinedRow) :
    VersionsShown { s with
      versions := s.versions ++ [toVersionListItem row]
      last := some (row.key, row.version.versionId) } (es ++ [.item row]) where
  versions := by simp [h.versions, items]
  commonPrefixes := by simp [h.commonPrefixes, folders]
  last := by simp [items, rowMarker]

theorem VersionsShown.folder {s : VersionsState} {es : List (Entry JoinedRow Char)}
    (h : VersionsShown s es) (f : Text) :
    VersionsShown { s with commonPrefixes := s.commonPrefixes ++ [f] } (es ++ [.folder f]) where
  versions := by simp [h.versions, items]
  commonPrefixes := by simp [h.commonPrefixes, folders]
  last := by simp [h.last, items]

/-- A row the loop does not pass over. -/
theorem versionsLoop_cons {q : ListVersionsQuery}
    (hmarker : (present q.keyMarker).isSome = true → (present q.versionIdMarker).isSome = true)
    (limit : ℕ) (row : JoinedRow) (rows : List JoinedRow) {s : VersionsState}
    (hskipping : s.skipping = false) :
    versionsLoop q limit (row :: rows) s =
      match groupOf q.pre q.delimiter row.key with
      | some f =>
          if f ∈ s.commonPrefixes then versionsLoop q limit rows s
          else if limit ≤ s.count then { s with isTruncated := true }
          else versionsLoop q limit rows { s with commonPrefixes := s.commonPrefixes ++ [f] }
      | none =>
          if limit ≤ s.count then { s with isTruncated := true }
          else versionsLoop q limit rows
            { s with
              versions := s.versions ++ [toVersionListItem row]
              last := some (row.key, row.version.versionId) } := by
  have hnot : ((present q.keyMarker).isSome && (present q.versionIdMarker).isNone
      && q.keyMarker = some row.key) = false := by
    cases hk : (present q.keyMarker).isSome with
    | false => rfl
    | true => simp [Option.isNone_eq_false_iff.mpr (hmarker hk)]
  rw [versionsLoop]
  refine (if_neg ?_).trans (if_neg ?_)
  · rw [hskipping]
    exact Bool.false_ne_true
  · rw [hnot]
    exact Bool.false_ne_true

/-- The loop fills a page. -/
theorem versionsLoop_fill {q : ListVersionsQuery} {limit : ℕ} {rows : List JoinedRow}
    (hmarker : (present q.keyMarker).isSome = true → (present q.versionIdMarker).isSome = true)
    (hpre : ∀ row ∈ rows, q.pre.getD [] <+: row.key) {s : VersionsState}
    {es : List (Entry JoinedRow Char)} (hs : VersionsShown s es) (hskipping : s.skipping = false)
    (htruncated : s.isTruncated = false) :
    VersionsShown (versionsLoop q limit rows s)
        (fill (folding q.pre q.delimiter) JoinedRow.key limit es rows).1 ∧
      (versionsLoop q limit rows s).isTruncated =
        (fill (folding q.pre q.delimiter) JoinedRow.key limit es rows).2 := by
  induction rows generalizing s es with
  | nil => exact ⟨hs, htruncated⟩
  | cons row rows ih =>
    obtain ⟨hrow, hrows⟩ := List.forall_mem_cons.mp hpre
    have hfolder : (folding q.pre q.delimiter).folder row.key = groupOf q.pre q.delimiter row.key :=
      folding_folder hrow
    have hfull : VersionsShown { s with isTruncated := true } es :=
      ⟨hs.versions, hs.commonPrefixes, hs.last⟩
    rw [versionsLoop_cons hmarker limit row rows hskipping]
    cases hgroup : groupOf q.pre q.delimiter row.key with
    | none =>
      rw [fill_item (hfolder.trans hgroup)]
      dsimp only
      by_cases hlimit : limit ≤ es.length
      · rw [if_pos (hs.count ▸ hlimit), if_pos hlimit]
        exact ⟨hfull, rfl⟩
      · rw [if_neg (hs.count ▸ hlimit), if_neg hlimit]
        exact ih hrows (hs.item row) hskipping htruncated
    | some f =>
      rw [fill_folder (hfolder.trans hgroup), ← hs.commonPrefixes]
      dsimp only
      by_cases hseen : f ∈ s.commonPrefixes
      · rw [if_pos hseen, if_pos hseen]
        exact ih hrows hs hskipping htruncated
      · rw [if_neg hseen, if_neg hseen]
        by_cases hlimit : limit ≤ es.length
        · rw [if_pos (hs.count ▸ hlimit), if_pos hlimit]
          exact ⟨hfull, rfl⟩
        · rw [if_neg (hs.count ▸ hlimit), if_neg hlimit]
          exact ih hrows (hs.folder f) hskipping htruncated

/-- What is left of a batch behind the row a page resumes at. -/
def behindRow (row : JoinedRow) (rows : List JoinedRow) : List JoinedRow :=
  (rows.dropWhile fun r => ¬ r = row).tail

/-- **The loop passes over the rows up to the marked one.** -/
theorem versionsLoop_skipping {q : ListVersionsQuery} {limit : ℕ} {row : JoinedRow}
    {rows : List JoinedRow} (hkey : q.keyMarker = some row.key)
    (hid : q.versionIdMarker = some row.version.versionId)
    (hrow : ∀ r ∈ rows, r.key = row.key → r.version.versionId = row.version.versionId → r = row)
    {s : VersionsState} (hs : s.skipping = true) :
    versionsLoop q limit rows s =
      versionsLoop q limit (behindRow row rows) { s with skipping := false } ∨
    (behindRow row rows = [] ∧ versionsLoop q limit rows s = s) := by
  induction rows with
  | nil => exact Or.inr ⟨rfl, rfl⟩
  | cons r rows ih =>
    obtain ⟨hr, hrows⟩ := List.forall_mem_cons.mp hrow
    by_cases heq : r = row
    · subst heq
      refine Or.inl ?_
      simp [versionsLoop, hs, hkey, hid, behindRow]
    · have hmark : ¬ (q.keyMarker = some r.key ∧ q.versionIdMarker = some r.version.versionId) := by
        rw [hkey, hid, Option.some.injEq, Option.some.injEq]
        exact fun h => heq (hr h.1.symm h.2.symm)
      have hbehind : behindRow row (r :: rows) = behindRow row rows := by
        rw [behindRow, List.dropWhile_cons_of_pos (by simpa using heq)]
        rfl
      rw [hbehind]
      simpa [versionsLoop, hs, hmark] using ih hrows

/-! ## The batch of a page -/

theorem behindRow_isPrefix {row : JoinedRow} {X Y rows : List JoinedRow} (hX : row ∉ X)
    (h : rows <+: X ++ row :: Y) : behindRow row rows <+: Y := by
  induction X generalizing rows with
  | nil =>
    cases rows with
    | nil => exact List.nil_prefix
    | cons r rows =>
      obtain ⟨rfl, hrest⟩ := List.cons_prefix_cons.mp h
      simpa [behindRow] using hrest
  | cons x X ih =>
    rw [List.mem_cons, not_or] at hX
    cases rows with
    | nil => exact List.nil_prefix
    | cons r rows =>
      obtain ⟨rfl, hrest⟩ := List.cons_prefix_cons.mp h
      rw [behindRow, List.dropWhile_cons_of_pos (by simpa using Ne.symm hX.1)]
      exact ih hX.2 hrest

variable (db : Database) (q : ListVersionsQuery)

/-- The whole listing, in order. -/
abbrev versionEntries : List (Entry JoinedRow Char) :=
  versionListing q (allRows db q.bucketGuid q.pre)

/-- The rows a page may show whose first entry has the given index: of the batch read from the
first version of a key on, what is behind the version before that entry. -/
def versionBatch (i : ℕ) : List JoinedRow :=
  let rows := allRows db q.bucketGuid q.pre
  let size := resolveLimit q.maxKeys * 2 + 1
  match i with
  | 0 => rows.take size
  | i + 1 =>
      match (versionEntries db q)[i]? with
      | some (.item row) => behindRow row ((rowsFrom (some row.key) rows).take size)
      | _ => []

/-- The entries that begin in the batch. -/
abbrev batchEntries (i : ℕ) : List (Entry JoinedRow Char) := versionListing q (versionBatch db q i)

/-- A snapshot a listing of versions is about. -/
structure VersionSnapshot (db : Database) : Prop extends Snapshot db where
  versionId_ne_nil : ∀ v ∈ db.objectVersions, v.versionId ≠ []
  createdAt : DistinctCreatedAt db

variable {db q}

theorem allRows_nodup (hdb : db.Constraints) (bucketGuid : Guid) (pre : Option Text) :
    (allRows db bucketGuid pre).Nodup :=
  (List.perm_insertionSort versionOrder _).nodup_iff.mpr ((versionRows_nodup hdb).filter _)

/-- Where a row of the listing stands among the rows. -/
theorem split_allRows (hdb : VersionSnapshot db) {A B : List (Entry JoinedRow Char)}
    {row : JoinedRow} (h : versionEntries db q = A ++ .item row :: B) :
    ∃ X Y, allRows db q.bucketGuid q.pre = X ++ row :: Y ∧ versionListing q Y = B ∧
      rowsFrom (some row.key) (allRows db q.bucketGuid q.pre) =
        rowsFrom (some row.key) X ++ row :: Y ∧ row ∉ X := by
  obtain ⟨X, Y, hrows, hY⟩ := split_at_item h
  have hsorted := allRows_pairwise_key hdb.constraints hdb.createdAt q.bucketGuid q.pre
  have hnodup := allRows_nodup hdb.constraints q.bucketGuid q.pre
  rw [hrows] at hsorted hnodup
  have hne : row.key ≠ [] := by
    have hmem : row ∈ allRows db q.bucketGuid q.pre := by rw [hrows]; simp
    exact hdb.key_ne_nil _ (mem_versionRows.mp (mem_allRows.mp hmem).1).1
  refine ⟨X, Y, hrows, hY, ?_, fun hX =>
    (List.nodup_append.mp hnodup).2.2 row hX row List.mem_cons_self rfl⟩
  have hbehind := (List.pairwise_cons.mp (List.pairwise_append.mp hsorted).2.1).1
  rw [hrows, rowsFrom, List.filter_append]
  congr 1
  refine List.filter_eq_self.mpr fun s hs => ?_
  rw [present_of_ne_nil hne, Option.all_some, decide_eq_true_iff]
  rcases List.mem_cons.mp hs with rfl | hs
  · exact le_rfl
  · exact hbehind s hs

/-- **What begins in the batch is what the listing goes on with.** -/
theorem batchEntries_isPrefix (hdb : VersionSnapshot db) (i : ℕ) :
    batchEntries db q i <+: (versionEntries db q).drop i := by
  match i with
  | 0 => exact collapseFrom_isPrefix none (List.take_prefix _ _)
  | i + 1 =>
    cases he : (versionEntries db q)[i]? with
    | none =>
      simp only [batchEntries, versionBatch, he]
      exact List.nil_prefix
    | some e =>
      cases e with
      | folder f =>
        simp only [batchEntries, versionBatch, he]
        exact List.nil_prefix
      | item row =>
        obtain ⟨hlt, hget⟩ := List.getElem?_eq_some_iff.mp he
        have hsplit : versionEntries db q =
            (versionEntries db q).take i ++ .item row :: (versionEntries db q).drop (i + 1) := by
          rw [← hget, ← List.drop_eq_getElem_cons hlt, List.take_append_drop]
        obtain ⟨X, Y, hrows, hY, hfrom, hX⟩ := split_allRows hdb hsplit
        simp only [batchEntries, versionBatch, he]
        rw [← hY]
        refine collapseFrom_isPrefix none (behindRow_isPrefix (X := rowsFrom (some row.key) X)
          (fun h => hX (List.mem_filter.mp h).1) ?_)
        rw [← hfrom]
        exact List.take_prefix _ _

/-! ## One page -/

/-- What the client asks for at a cursor. -/
def resumeVersions (q : ListVersionsQuery) (cursor : Option Text × Option Text) :
    ListVersionsQuery :=
  { q with keyMarker := cursor.1, versionIdMarker := cursor.2 }

/-- A cursor stands at an index of the listing: at the start, or behind a version. -/
def VersionMarkerAt (db : Database) (q : ListVersionsQuery) (cursor : Option Text × Option Text)
    (i : ℕ) : Prop :=
  (cursor = (none, none) ∧ i = 0) ∨
    ∃ A row B, versionEntries db q = A ++ .item row :: B ∧ i = A.length + 1 ∧
      cursor = (some row.key, some row.version.versionId)

theorem VersionMarkerAt.le_length {cursor : Option Text × Option Text} {i : ℕ}
    (h : VersionMarkerAt db q cursor i) : i ≤ (versionEntries db q).length := by
  rcases h with ⟨-, rfl⟩ | ⟨A, row, B, h, rfl, -⟩
  · exact Nat.zero_le _
  · rw [h, List.length_append, List.length_cons]
    omega

theorem versionBatch_sublist (i : ℕ) :
    (versionBatch db q i).Sublist (allRows db q.bucketGuid q.pre) := by
  match i with
  | 0 => exact List.take_sublist _ _
  | i + 1 =>
    rw [versionBatch]
    split
    · exact (List.tail_sublist _).trans ((List.dropWhile_sublist _).trans
        ((List.take_sublist _ _).trans List.filter_sublist))
    · exact List.nil_sublist _

/-- The row a cursor names is the only one it names. -/
theorem row_eq_of_rowMarker_eq (hdb : db.Constraints) {r s : JoinedRow}
    (hr : r ∈ allRows db q.bucketGuid q.pre) (hs : s ∈ allRows db q.bucketGuid q.pre)
    (hkey : r.key = s.key) (hid : r.version.versionId = s.version.versionId) : r = s := by
  obtain ⟨hr, hrb, -⟩ := mem_allRows.mp hr
  obtain ⟨hs, hsb, -⟩ := mem_allRows.mp hs
  obtain ⟨hro, hrv, hrguid⟩ := mem_versionRows.mp hr
  obtain ⟨hso, hsv, hsguid⟩ := mem_versionRows.mp hs
  have hobject := object_eq_of_key_eq hdb hro hso (hrb.trans hsb.symm) hkey
  have hversion := List.inj_on_of_nodup_map hdb.version_id hrv hsv
    (Prod.ext (by rw [hrguid, hsguid, hobject]) hid)
  obtain ⟨o, v⟩ := r
  obtain ⟨p, w⟩ := s
  cases hobject
  cases hversion
  rfl

/-- The loop at a cursor that stands at an index ends as it does over the batch of that index. -/
theorem versionsLoop_at (hdb : VersionSnapshot db) {cursor : Option Text × Option Text} {i : ℕ}
    (h : VersionMarkerAt db q cursor i) :
    let q' := resumeVersions q cursor
    ((present q'.keyMarker).isSome = true → (present q'.versionIdMarker).isSome = true) ∧
      (versionsLoop q' (resolveLimit q.maxKeys) (fetchVersions db q') (versionsStart q') =
        versionsLoop q' (resolveLimit q.maxKeys) (versionBatch db q i) { skipping := false } ∨
      (versionBatch db q i = [] ∧
        versionsLoop q' (resolveLimit q.maxKeys) (fetchVersions db q') (versionsStart q') =
          { skipping := true })) := by
  intro q'
  have hfetch := fetchVersions_eq hdb.constraints hdb.createdAt q'
  rcases h with ⟨rfl, rfl⟩ | ⟨A, row, B, hsplit, rfl, rfl⟩
  · refine ⟨(fun h => nomatch h), Or.inl ?_⟩
    have hall : rowsFrom none (allRows db q.bucketGuid q.pre) = allRows db q.bucketGuid q.pre :=
      List.filter_eq_self.mpr fun _ _ => rfl
    rw [hfetch]
    change versionsLoop q' _ ((rowsFrom none (allRows db q.bucketGuid q.pre)).take _) _ = _
    rw [hall]
    rfl
  · have hrow : row ∈ allRows db q.bucketGuid q.pre :=
      (item_mem_collapse.mp (hsplit ▸ List.mem_append_right A List.mem_cons_self)).1
    obtain ⟨hobject, hversion, -⟩ := mem_versionRows.mp (mem_allRows.mp hrow).1
    have hkey := present_of_ne_nil (hdb.key_ne_nil _ hobject)
    have hid := present_of_ne_nil (hdb.versionId_ne_nil _ hversion)
    have hstart : versionsStart q' = { skipping := true } := by
      change ({ skipping := (present (some row.object.key)).isSome &&
        (present (some row.version.versionId)).isSome } : VersionsState) = _
      rw [hkey, hid]
      rfl
    have hbatch : versionBatch db q (A.length + 1) = behindRow row (fetchVersions db q') := by
      have hget : (versionEntries db q)[A.length]? = some (.item row) := by
        rw [hsplit]
        simp
      simp only [versionBatch, hget]
      rw [hfetch]
      rfl
    refine ⟨fun _ => by change (present (some row.version.versionId)).isSome = true; rw [hid]; rfl, ?_⟩
    rw [hbatch, hstart]
    refine versionsLoop_skipping rfl rfl (fun r hr hk hv => ?_) rfl
    rw [hfetch] at hr
    exact row_eq_of_rowMarker_eq hdb.constraints
      (List.mem_filter.mp ((List.take_sublist _ _).subset hr)).1 hrow hk hv

/-- **What a page shows.**  At a cursor that stands at an index, the page shows the first entries
of that index's batch, is truncated exactly if more of them begin there, and then hands out
the last version it shows. -/
theorem listAllVersions_at (hdb : VersionSnapshot db) {cursor : Option Text × Option Text} {i : ℕ}
    (h : VersionMarkerAt db q cursor i) :
    let r := listAllVersions db (resumeVersions q cursor)
    let page := (batchEntries db q i).take (resolveLimit q.maxKeys)
    r.versions = (items page).map toVersionListItem ∧ r.commonPrefixes = folders page ∧
    (r.isTruncated = true ↔ resolveLimit q.maxKeys < (batchEntries db q i).length) ∧
    (r.isTruncated = true →
      r.nextKeyMarker = (items page).getLast?.map (·.key) ∧
      r.nextVersionIdMarker = (items page).getLast?.map (·.version.versionId)) := by
  intro r page
  have hsorted : (versionBatch db q i).Pairwise fun r s => r.key ≤ s.key :=
    (allRows_pairwise_key hdb.constraints hdb.createdAt q.bucketGuid q.pre).sublist
      (versionBatch_sublist i)
  have hpre : ∀ row ∈ versionBatch db q i, q.pre.getD [] <+: row.key := fun row hrow =>
    (mem_allRows.mp ((versionBatch_sublist i).subset hrow)).2.2
  obtain ⟨hmarker, hloop⟩ := versionsLoop_at hdb h
  have hstart : VersionsShown { skipping := false } [] := ⟨rfl, rfl, rfl⟩
  have hspec := @versionsLoop_fill (resumeVersions q cursor) (resolveLimit q.maxKeys) _ hmarker hpre _ _ hstart rfl rfl
  rw [show fill (folding (resumeVersions q cursor).pre (resumeVersions q cursor).delimiter)
    JoinedRow.key (resolveLimit q.maxKeys) [] (versionBatch db q i) =
      (page, decide (resolveLimit q.maxKeys < (batchEntries db q i).length)) from
    fill_sorted hsorted] at hspec
  have hr : VersionsShown (versionsLoop (resumeVersions q cursor) (resolveLimit q.maxKeys)
        (fetchVersions db (resumeVersions q cursor)) (versionsStart (resumeVersions q cursor))) page ∧
      ((versionsLoop (resumeVersions q cursor) (resolveLimit q.maxKeys)
        (fetchVersions db (resumeVersions q cursor))
        (versionsStart (resumeVersions q cursor))).isTruncated = true ↔
          resolveLimit q.maxKeys < (batchEntries db q i).length) := by
    rcases hloop with heq | ⟨hnil, heq⟩
    · rw [heq]
      exact ⟨hspec.1, by rw [hspec.2, decide_eq_true_iff]⟩
    · have hempty : batchEntries db q i = [] := by rw [batchEntries, hnil]; rfl
      rw [heq]
      refine ⟨?_, ?_⟩
      · simp only [page, hempty, List.take_nil]
        exact ⟨rfl, rfl, rfl⟩
      · rw [hempty]
        exact iff_of_false Bool.false_ne_true (Nat.not_lt_zero _)
  obtain ⟨hshown, htruncated⟩ := hr
  refine ⟨hshown.versions, hshown.commonPrefixes, htruncated, fun h => ⟨?_, ?_⟩⟩
  · exact (if_pos h).trans ((congrArg (Option.map Prod.fst) hshown.last).trans (Option.map_map _ _ _))
  · exact (if_pos h).trans ((congrArg (Option.map Prod.snd) hshown.last).trans (Option.map_map _ _ _))

end ObjectsService
end SimpleStorage
