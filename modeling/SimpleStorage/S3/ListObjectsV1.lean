import SimpleStorage.Objects.ListExact

/-!
# `ListObjects` (V1): resuming at `NextMarker`

The first version of the listing hands out a plain key instead of a token: the key of
the last object on the page, or its last common prefix if it has no object.  The
next request passes it as the key to start after.

So the marker says less than a token.  A page that ends in a folder behind an object is
resumed at the *object*, and a folder at the end of a page of folders is resumed at the
folder's name, which comes before the keys in it.  `nextMarker_stands` works out where the
next page begins in each case, and `listObjectsV1_exact_iff` is what follows for a
client that walks through the pages: it gets every entry exactly once if and only if no
page it cuts off is of one of these two kinds.
-/

namespace SimpleStorage
namespace S3ResponseService

open ObjectsService Query Collapse

/-! ## The response -/

/-- The elements of a `ListBucketResult` a client pages by. -/
structure ListBucketResultV1 where
  contents : List ObjectItem
  commonPrefixes : List Text
  isTruncated : Bool
  nextMarker : Option Text
  deriving DecidableEq, Repr

def listObjectsV1 (result : ListResult) : ListBucketResultV1 :=
  let lastEntry := (result.objects.getLast?.map (·.key)).or result.commonPrefixes.getLast?
  { contents := result.objects
    commonPrefixes := result.commonPrefixes
    isTruncated := result.isTruncated
    nextMarker := if result.isTruncated then lastEntry else none }

/-- `GET ?marker=...` on a bucket, without `list-type=2`. -/
def getListObjectsV1 (db : Database) (q : ListQuery) (marker : Option Text) : ListBucketResultV1 :=
  listObjectsV1 (list db { q with continuationToken := none, startAfter := marker })

/-- A page, and the marker to come back with. -/
def markerPage (db : Database) (q : ListQuery) (marker : Option Text) :
    ListBucketResultV1 × Option (Option Text) :=
  let r := getListObjectsV1 db q marker
  (r, r.nextMarker.map some)

/-- The pages a client gets that starts without a marker and sends at most `n` requests. -/
def listAllV1 (db : Database) (q : ListQuery) (n : ℕ) : Option (List ListBucketResultV1) :=
  Paging.walk (markerPage db q) n none

/-! ## Where a page resumes -/

variable (db : Database) (q : ListQuery)

/-- Some live key under the prefix lies in the folder without being the folder's name. -/
def FolderContinues (f : Text) : Prop :=
  ∃ row ∈ liveRows db q.bucketGuid q.pre, f <+: row.key ∧ f ≠ row.key

instance (f : Text) : Decidable (FolderContinues db q f) :=
  inferInstanceAs (Decidable (∃ row ∈ liveRows db q.bucketGuid q.pre, _))

/-- The whole listing, in order. -/
abbrev allEntries : List (Entry JoinedRow Char) := listing q (liveRows db q.bucketGuid q.pre)

abbrev pageOf (i : ℕ) : List (Entry JoinedRow Char) :=
  ((allEntries db q).drop i).take (resolveLimit q.maxKeys)

/-- The index at which the listing goes on after the page at `i`. -/
def resumeIndex (i : ℕ) : ℕ :=
  if items (pageOf db q i) = [] then
    match (folders (pageOf db q i)).getLast? with
    | some f =>
        if FolderContinues db q f then i + resolveLimit q.maxKeys - 1
        else i + resolveLimit q.maxKeys
    | none => i + resolveLimit q.maxKeys
  else i + lastItemEnd (pageOf db q i)

/-- The pages, as spans of indices of the whole listing. -/
def markerSpans : Paging.Spans (allEntries db q).length where
  stop i := min (i + resolveLimit q.maxKeys) (allEntries db q).length
  next i :=
    if i + resolveLimit q.maxKeys < (allEntries db q).length then some (resumeIndex db q i) else none
  le_stop hi := by omega
  stop_le hi := by omega
  next_of_empty hi hempty := by
    have := resolveLimit_pos q.maxKeys
    omega
  next_le {i j} hi h := by
    have hpage := lastItemEnd_le (pageOf db q i)
    have hlen : (pageOf db q i).length ≤ resolveLimit q.maxKeys := List.length_take_le _ _
    split_ifs at h with hmore
    rw [Option.some.injEq] at h
    subst h
    rw [resumeIndex]
    refine ⟨?_, by omega⟩
    split_ifs
    · split
      · split_ifs <;> omega
      · omega
    · omega

variable {db q}

/-! ## Standing at an index -/

/-- Behind the first entry left. -/
theorem standsBehind_head (hdb : Snapshot db) {cursor excludePrefix : Option Text}
    {S : List JoinedRow} (hS : StandsAt db q cursor excludePrefix S)
    {e : Entry JoinedRow Char} {B : List (Entry JoinedRow Char)} (h : listing q S = e :: B) :
    ∃ S', StandsBehind db q (pageEnd e) S' ∧ listing q S' = B := by
  have hstart : Assembled db q S { cursor, excludePrefix } [] S :=
    Assembled.start hS rfl rfl rfl
  cases S with
  | nil => cases h
  | cons row S =>
    cases hrow : groupOf q.pre q.delimiter row.key with
    | none =>
      have hnext := Assembled.item hdb hstart hrow
      obtain ⟨rfl, rfl⟩ := List.cons.inj (h.symm.trans hnext.listing_eq)
      exact ⟨S, hnext.behind _ rfl, rfl⟩
    | some f =>
      obtain ⟨S', hnext⟩ := Assembled.folder hdb hstart hrow
      obtain ⟨rfl, rfl⟩ := List.cons.inj (h.symm.trans hnext.listing_eq)
      exact ⟨S', hnext.behind _ rfl, rfl⟩

/-- Behind any entry of the listing. -/
theorem standsBehind_split (hdb : Snapshot db) {A B : List (Entry JoinedRow Char)}
    {e : Entry JoinedRow Char} {cursor excludePrefix : Option Text} {S : List JoinedRow}
    (hS : StandsAt db q cursor excludePrefix S) (h : listing q S = A ++ e :: B) :
    ∃ S', StandsBehind db q (pageEnd e) S' ∧ listing q S' = B := by
  induction A generalizing cursor excludePrefix S with
  | nil => exact standsBehind_head hdb hS h
  | cons a A ih =>
    obtain ⟨S', hS', hlisting⟩ := standsBehind_head hdb hS h
    exact ih hS'.2 hlisting

theorem standsAt_start (db : Database) (q : ListQuery) :
    StandsAt db q none none (liveRows db q.bucketGuid q.pre) where
  rows := List.filter_eq_self.mpr fun row _ => by simp [Past, present]
  excluded_le := fun _ hf => nomatch hf

/-- A marker stands at an index of the listing. -/
def MarkerAt (db : Database) (q : ListQuery) (marker : Option Text) (i : ℕ) : Prop :=
  i ≤ (allEntries db q).length ∧
    ∃ S, StandsAt db q marker none S ∧ listing q S = (allEntries db q).drop i

theorem markerAt_none (db : Database) (q : ListQuery) : MarkerAt db q none 0 :=
  ⟨Nat.zero_le _, _, standsAt_start db q, rfl⟩

theorem allEntries_sorted (hdb : Snapshot db) (q : ListQuery) :
    (allEntries db q).Pairwise fun e e' => e.name JoinedRow.key < e'.name JoinedRow.key :=
  name_pairwise_collapse (liveRows_pairwise hdb.constraints q.bucketGuid q.pre)

/-- The key of a row stands behind the row. -/
theorem markerAt_item (hdb : Snapshot db) {A B : List (Entry JoinedRow Char)} {row : JoinedRow}
    (h : allEntries db q = A ++ .item row :: B) : MarkerAt db q (some row.key) (A.length + 1) := by
  obtain ⟨S, hS, hlisting⟩ := standsBehind_split hdb (standsAt_start db q) h
  refine ⟨by rw [h]; simp, S, hS.2, ?_⟩
  rw [hlisting, h, ← List.drop_drop, List.drop_left, List.drop_one, List.tail_cons]

theorem pageEnd_value (e : Entry JoinedRow Char) : (pageEnd e).value = e.name JoinedRow.key := by
  cases e <;> rfl

/-- A cursor in front of a folder, at a smaller name. -/
theorem exists_standsAt_folder (hdb : Snapshot db) {A B : List (Entry JoinedRow Char)} {f : Text}
    (h : allEntries db q = A ++ .folder f :: B) :
    ∃ cursor excludePrefix S, StandsAt db q cursor excludePrefix S ∧
      listing q S = .folder f :: B ∧ ∀ v, present cursor = some v → v < f := by
  rcases List.eq_nil_or_concat A with rfl | ⟨A', a, rfl⟩
  · exact ⟨none, none, _, standsAt_start db q, h, fun _ hv => nomatch hv⟩
  · obtain ⟨S, hS, hlisting⟩ := standsBehind_split hdb (standsAt_start db q)
      (A := A') (e := a) (B := .folder f :: B) (by rw [← List.concat_append]; exact h)
    refine ⟨_, _, S, hS.2, hlisting, fun v hv => ?_⟩
    have hsorted := allEntries_sorted hdb q
    rw [h, List.concat_append, List.pairwise_append] at hsorted
    have hlt := (List.pairwise_cons.mp hsorted.2.1).1 (.folder f) List.mem_cons_self
    rw [← Option.some.inj (present_eq_some_iff.mp hv).1, pageEnd_value]
    exact hlt

/-- **The name of a folder stands behind the folder, unless the folder continues**; then it stands
in front of it. -/
theorem markerAt_folder (hdb : Snapshot db) {A B : List (Entry JoinedRow Char)} {f : Text}
    (h : allEntries db q = A ++ .folder f :: B) :
    MarkerAt db q (some f)
      (if FolderContinues db q f then A.length else A.length + 1) := by
  have hsorted := liveRows_pairwise hdb.constraints q.bucketGuid q.pre
  obtain ⟨cursor, excludePrefix, S, hS, hlisting, hlt⟩ := exists_standsAt_folder hdb h
  cases S with
  | nil => cases hlisting
  | cons row S =>
    have hrow : (folding q.pre q.delimiter).folder row.key = some f := by
      cases hrow : (folding q.pre q.delimiter).folder row.key with
      | none => rw [listing, collapse_cons_item hrow] at hlisting; cases hlisting
      | some g =>
        rw [listing, collapse_cons_folder hrow, List.cons.injEq, Entry.folder.injEq] at hlisting
        rw [hlisting.1]
    have hfnil : f ≠ [] := by
      rw [folder_of_mem_liveRows (Stands.mem hS).1] at hrow
      exact groupOf_ne_nil hrow
    have hrest : listing q (S.dropWhile fun s => f <+: s.key) = B := by
      rw [listing, collapse_cons_folder hrow, collapseFrom_some hrow] at hlisting
      exact (List.cons.inj hlisting).2
    have hback := Stands.before_folder hS hrow hlt
    have hcontinues : FolderContinues db q f ↔ ∃ s ∈ row :: S, f <+: s.key ∧ f ≠ s.key := by
      constructor
      · rintro ⟨s, hs, hfs, hne⟩
        have hmem : s ∈ (row :: S).filter fun s => f < s.key := by
          rw [← hback.rows]
          refine List.mem_filter.mpr ⟨hs, decide_eq_true ⟨fun v hv => ?_, by simp⟩⟩
          exact Option.some.inj hv ▸ PrefixOrder.lt_of_isPrefix_of_ne hfs hne
        exact ⟨s, (List.mem_filter.mp hmem).1, hfs, hne⟩
      · rintro ⟨s, hs, hfs, hne⟩
        refine ⟨s, ?_, hfs, hne⟩
        rw [← hS.rows] at hs
        exact (List.mem_filter.mp hs).1
    have hcollapse := collapse_filter_lt hrow (hS.pairwise hsorted)
    have hdrop : (allEntries db q).drop A.length = .folder f :: B := by rw [h, List.drop_left]
    have hlen : A.length + 1 ≤ (allEntries db q).length := by rw [h]; simp
    refine ⟨by split_ifs <;> omega, (row :: S).filter fun s => f < s.key, ?_, ?_⟩
    · rw [StandsAt, present_of_ne_nil hfnil]
      exact hback
    · rw [listing, hcollapse]
      by_cases hcont : FolderContinues db q f
      · rw [if_pos hcont, if_pos (hcontinues.mp hcont), hdrop]
        exact hlisting
      · rw [if_neg hcont, if_neg (mt hcontinues.mpr hcont), ← List.drop_drop, hdrop, List.drop_one,
          List.tail_cons]
        exact hrest

/-! ## One page -/

theorem pageOf_eq_nil_iff {i : ℕ} :
    pageOf db q i = [] ↔ (allEntries db q).length ≤ i := by
  have := resolveLimit_pos q.maxKeys
  rw [pageOf, List.take_eq_nil_iff, List.drop_eq_nil_iff]
  omega

/-- What the response says at a marker that stands at `i`. -/
theorem getListObjectsV1_at (hdb : Snapshot db) {marker : Option Text} {i : ℕ}
    (h : MarkerAt db q marker i) :
    let r := getListObjectsV1 db q marker
    r.contents = (items (pageOf db q i)).map toObjectItem ∧
    r.commonPrefixes = folders (pageOf db q i) ∧
    (r.isTruncated = true ↔ i + resolveLimit q.maxKeys < (allEntries db q).length) := by
  intro r
  obtain ⟨-, S, hS, hlisting⟩ := h
  have hS' : StandsAt db { q with continuationToken := none, startAfter := marker }
      (listStart { q with continuationToken := none, startAfter := marker }).cursor
      (listStart { q with continuationToken := none, startAfter := marker }).excludePrefix S := hS
  obtain ⟨hobjects, hcommon, -, -⟩ := list_spec hdb hS'
  have htruncated := isTruncated_iff hdb hS'
  have hpage : (listing q S).take (resolveLimit q.maxKeys) = pageOf db q i := by rw [hlisting]
  have hlen : (listing q S).length = (allEntries db q).length - i := by
    rw [hlisting, List.length_drop]
  refine ⟨?_, ?_, ?_⟩
  · rw [← hpage]
    exact hobjects
  · rw [← hpage]
    exact hcommon
  · change _ ↔ resolveLimit q.maxKeys < (listing q S).length at htruncated
    refine htruncated.trans ?_
    omega

theorem getLast?_map_key {rs : List JoinedRow} :
    ((rs.map toObjectItem).getLast?.map (·.key)) = rs.getLast?.map (·.key) := by
  rw [List.getLast?_map, Option.map_map]
  rfl

/-- **Where `NextMarker` stands.**  A truncated page hands one out, and it stands at the index
`resumeIndex` says. -/
theorem nextMarker_stands (hdb : Snapshot db) {marker : Option Text} {i : ℕ}
    (h : MarkerAt db q marker i)
    (hmore : i + resolveLimit q.maxKeys < (allEntries db q).length) :
    ∃ next, (getListObjectsV1 db q marker).nextMarker = some next ∧
      MarkerAt db q (some next) (resumeIndex db q i) := by
  have hL := resolveLimit_pos q.maxKeys
  obtain ⟨hcontents, hcommon, htruncated⟩ := getListObjectsV1_at hdb h
  have hnext : (getListObjectsV1 db q marker).nextMarker =
      ((items (pageOf db q i)).getLast?.map (·.key)).or (folders (pageOf db q i)).getLast? := by
    have hunfold : (getListObjectsV1 db q marker).nextMarker =
        if (getListObjectsV1 db q marker).isTruncated = true then
          ((getListObjectsV1 db q marker).contents.getLast?.map (·.key)).or
            (getListObjectsV1 db q marker).commonPrefixes.getLast?
        else none := rfl
    rw [hunfold, if_pos (htruncated.mpr hmore), hcontents, hcommon, getLast?_map_key]
  have hsplit : allEntries db q =
      (allEntries db q).take i ++ (pageOf db q i ++ (allEntries db q).drop (i + resolveLimit q.maxKeys)) := by
    rw [pageOf, ← List.drop_drop, List.take_append_drop, List.take_append_drop]
  have htake : ((allEntries db q).take i).length = i := by
    rw [List.length_take]
    omega
  have hpagelen : (pageOf db q i).length = resolveLimit q.maxKeys := by
    rw [pageOf, List.length_take, List.length_drop]
    omega
  by_cases hitems : items (pageOf db q i) = []
  · -- a page of folders: the marker is the name of the last one
    have hfolders : (folders (pageOf db q i)).length = resolveLimit q.maxKeys := by
      have := length_items_add_length_folders (pageOf db q i)
      rw [hitems, List.length_nil] at this
      omega
    obtain ⟨f, hf⟩ : ∃ f, (folders (pageOf db q i)).getLast? = some f := by
      refine Option.ne_none_iff_exists'.mp fun hnone => ?_
      rw [List.getLast?_eq_none_iff.mp hnone, List.length_nil] at hfolders
      omega
    rw [hitems, hf] at hnext
    refine ⟨f, hnext, ?_⟩
    obtain ⟨A, hA⟩ : ∃ A, pageOf db q i = A ++ [.folder f] := by
      rcases List.eq_nil_or_concat (pageOf db q i) with hnil | ⟨A, e, hA⟩
      · rw [hnil, List.length_nil] at hpagelen
        omega
      · rw [List.concat_eq_append] at hA
        refine ⟨A, ?_⟩
        cases e with
        | item row => rw [hA, items_append] at hitems; simp [items] at hitems
        | folder g =>
          rw [hA, folders_append] at hf
          simp only [folders, List.getLast?_concat, Option.some.injEq] at hf
          rw [hA, hf]
    have hstands := markerAt_folder hdb
      (A := (allEntries db q).take i ++ A)
      (B := (allEntries db q).drop (i + resolveLimit q.maxKeys)) (f := f)
      (by conv_lhs => rw [hsplit, hA]
          simp)
    have hAlen : A.length + 1 = resolveLimit q.maxKeys := by
      rw [← hpagelen, hA, List.length_append, List.length_singleton]
    rw [List.length_append, htake] at hstands
    simp only [resumeIndex, hitems, if_true, hf]
    convert hstands using 2
    · omega
    · omega
  · -- a page with an object: the marker is the key of the last one
    obtain ⟨row, hrow⟩ : ∃ row, (items (pageOf db q i)).getLast? = some row :=
      Option.ne_none_iff_exists'.mp fun hnone => hitems (List.getLast?_eq_none_iff.mp hnone)
    rw [hrow] at hnext
    refine ⟨row.key, hnext, ?_⟩
    obtain ⟨A, B, hAB, hlen⟩ := lastItemEnd_spec hrow
    have hwhole : allEntries db q = ((allEntries db q).take i ++ A) ++
        .item row :: (B ++ (allEntries db q).drop (i + resolveLimit q.maxKeys)) := by
      conv_lhs => rw [hsplit, hAB]
      simp
    have hstands := markerAt_item hdb hwhole
    rw [List.length_append, htake] at hstands
    rw [resumeIndex, if_neg hitems, ← hlen]
    exact hstands

/-! ## The walk -/

def V1Shows (r : ListBucketResultV1) (es : List (Entry JoinedRow Char)) : Prop :=
  r.contents = (items es).map toObjectItem ∧ r.commonPrefixes = folders es

theorem markerPage_follows (hdb : Snapshot db) (q : ListQuery) :
    (markerSpans db q).Follows (markerPage db q) V1Shows (allEntries db q) (MarkerAt db q) where
  at_le h := h.1
  shows {marker i} h := by
    obtain ⟨hcontents, hcommon, -⟩ := getListObjectsV1_at hdb h
    have hpage : Paging.Spans.pick (allEntries db q)
        (List.range' i ((markerSpans db q).stop i - i)) = pageOf db q i := by
      rw [Paging.Spans.pick_range', pageOf, List.take_eq_take_iff, List.length_drop]
      simp only [markerSpans]
      omega
    rw [hpage]
    exact ⟨hcontents, hcommon⟩
  next_none {marker i} h hnone := by
    refine if_neg fun hmore => ?_
    obtain ⟨next, hnext, -⟩ := nextMarker_stands hdb h hmore
    rw [markerPage, hnext] at hnone
    cases hnone
  next_some {marker i next} h hnext := by
    have hmore : i + resolveLimit q.maxKeys < (allEntries db q).length := by
      rw [← (getListObjectsV1_at hdb h).2.2]
      by_contra hnot
      have hnone : (getListObjectsV1 db q marker).nextMarker = none := if_neg hnot
      rw [markerPage, hnone] at hnext
      cases hnext
    obtain ⟨next', hnext', hstands⟩ := nextMarker_stands hdb h hmore
    rw [markerPage, hnext'] at hnext
    cases hnext
    exact ⟨_, if_pos hmore, hstands⟩

/-- **Each once.**  The pages show every eligible key without a delimiter exactly once, every common
prefix of the others exactly once, and nothing else. -/
structure EachOnce (db : Database) (q : ListQuery) (pages : List ListBucketResultV1) : Prop where
  contents_nodup : (pages.flatMap fun r => r.contents.map (·.key)).Nodup
  contents : ∀ key, key ∈ (pages.flatMap fun r => r.contents.map (·.key)) ↔
    (IsLive db q.bucketGuid key ∧ q.pre.getD [] <+: key) ∧ IsLeaf q.pre q.delimiter key
  commonPrefixes_nodup : (pages.flatMap (·.commonPrefixes)).Nodup
  commonPrefixes : ∀ f, f ∈ pages.flatMap (·.commonPrefixes) ↔
    ∃ key, (IsLive db q.bucketGuid key ∧ q.pre.getD [] <+: key) ∧
      IsCommonPrefix q.pre q.delimiter key f

theorem flatMap_contents {rs : List ListBucketResultV1} {cs : List (List (Entry JoinedRow Char))}
    (h : List.Forall₂ V1Shows rs cs) :
    (rs.flatMap fun r => r.contents.map (·.key)) = (items cs.flatten).map JoinedRow.key := by
  induction h with
  | nil => rfl
  | cons hr _ ih =>
    rw [List.flatMap_cons, List.flatten_cons, items_append, List.map_append, ih, hr.1, List.map_map]
    rfl

theorem flatMap_v1_commonPrefixes {rs : List ListBucketResultV1}
    {cs : List (List (Entry JoinedRow Char))} (h : List.Forall₂ V1Shows rs cs) :
    rs.flatMap (·.commonPrefixes) = folders cs.flatten := by
  induction h with
  | nil => rfl
  | cons hr _ ih => rw [List.flatMap_cons, List.flatten_cons, folders_append, ih, hr.2]

theorem eligible_without_start {key : Text} :
    Eligible db { q with startAfter := none } key ↔
      IsLive db q.bucketGuid key ∧ q.pre.getD [] <+: key := by
  constructor
  · rintro ⟨hlive, hpre, -⟩
    exact ⟨hlive, hpre⟩
  · rintro ⟨hlive, hpre⟩
    exact ⟨hlive, hpre, fun _ hv => nomatch hv⟩

theorem eligibleRows_without_start (db : Database) (q : ListQuery) :
    eligibleRows db { q with startAfter := none } = liveRows db q.bucketGuid q.pre :=
  (standsAt_start db q).rows

/-- Pages that show pieces of the listing show each entry once exactly if the pieces do. -/
theorem eachOnce_iff (hdb : Snapshot db) {rs : List ListBucketResultV1}
    {cs : List (List (Entry JoinedRow Char))} (h : List.Forall₂ V1Shows rs cs)
    (hsub : ∀ e ∈ cs.flatten, e ∈ allEntries db q) :
    EachOnce db q rs ↔ cs.flatten.Nodup ∧ ∀ e ∈ allEntries db q, e ∈ cs.flatten := by
  have hcontents : ∀ key, (∃ row ∈ items (allEntries db q), row.key = key) ↔
      (IsLive db q.bucketGuid key ∧ q.pre.getD [] <+: key) ∧ IsLeaf q.pre q.delimiter key := by
    intro key
    have hiff := @mem_items_listing_iff db { q with startAfter := none } hdb key
    rwa [eligibleRows_without_start, eligible_without_start] at hiff
  have hfolders : ∀ f, f ∈ folders (allEntries db q) ↔
      ∃ key, (IsLive db q.bucketGuid key ∧ q.pre.getD [] <+: key) ∧
        IsCommonPrefix q.pre q.delimiter key f := by
    intro f
    have hiff := mem_folders_listing_iff (q := { q with startAfter := none }) (f := f) hdb
    simp only [eligible_without_start] at hiff
    rwa [eligibleRows_without_start] at hiff
  have hlive : ∀ row ∈ items cs.flatten, row ∈ liveRows db q.bucketGuid q.pre := fun row hr =>
    (item_mem_collapse.mp (hsub _ (mem_items.mp hr))).1
  have hkeys : ((items cs.flatten).map JoinedRow.key).Nodup ↔ (items cs.flatten).Nodup :=
    ⟨List.Nodup.of_map _, List.Nodup.map_on fun r hr s hs heq =>
      liveRows_anti hdb.constraints (hlive r hr) (hlive s hs) heq⟩
  rw [nodup_iff_items_folders, ← hkeys, ← flatMap_contents h, ← flatMap_v1_commonPrefixes h]
  constructor
  · rintro ⟨hnodup, hmem, hfnodup, hfmem⟩
    refine ⟨⟨hnodup, hfnodup⟩, fun e he => ?_⟩
    cases e with
    | item row =>
      have hkey := (hmem row.key).mpr ((hcontents row.key).mp ⟨row, mem_items.mpr he, rfl⟩)
      rw [flatMap_contents h] at hkey
      obtain ⟨row', hrow', heq⟩ := List.mem_map.mp hkey
      rw [← liveRows_anti hdb.constraints (hlive row' hrow') (item_mem_collapse.mp he).1 heq]
      exact mem_items.mp hrow'
    | folder f =>
      have hf := (hfmem f).mpr ((hfolders f).mp (mem_folders.mpr he))
      rw [flatMap_v1_commonPrefixes h] at hf
      exact mem_folders.mp hf
  · rintro ⟨⟨hnodup, hfnodup⟩, hall⟩
    refine ⟨hnodup, fun key => ?_, hfnodup, fun f => ?_⟩
    · rw [← hcontents, flatMap_contents h, List.mem_map]
      refine exists_congr fun row => and_congr_left fun _ => ?_
      rw [mem_items, mem_items]
      exact ⟨hsub _, hall _⟩
    · rw [← hfolders, flatMap_v1_commonPrefixes h, mem_folders, mem_folders]
      exact ⟨hsub _, hall _⟩

/-- A full page behind which the listing goes on, and behind which `NextMarker` then stands: it
ends in a key, or it shows only common prefixes and no live key under the prefix extends the
last of them by something. -/
def MarkerSafe (db : Database) (q : ListQuery) (es : List (Entry JoinedRow Char)) : Prop :=
  (∃ row, es.getLast? = some (.item row)) ∨
    (items es = [] ∧ ∀ f, es.getLast? = some (.folder f) → ¬ FolderContinues db q f)

theorem getLast?_folders {es : List (Entry JoinedRow Char)} (h : items es = []) {f : Text} :
    (folders es).getLast? = some f ↔ es.getLast? = some (.folder f) := by
  rcases List.eq_nil_or_concat es with rfl | ⟨A, e, rfl⟩
  · exact iff_of_false (by simp [folders]) (by simp)
  · rw [List.concat_eq_append] at h ⊢
    cases e with
    | item row => simp [items] at h
    | folder g => simp [folders]

theorem resumeIndex_eq_iff {i : ℕ} (hmore : i + resolveLimit q.maxKeys < (allEntries db q).length) :
    resumeIndex db q i = i + resolveLimit q.maxKeys ↔ MarkerSafe db q (pageOf db q i) := by
  have hL := resolveLimit_pos q.maxKeys
  have hlen : (pageOf db q i).length = resolveLimit q.maxKeys := by
    rw [pageOf, List.length_take, List.length_drop]
    omega
  have hne : pageOf db q i ≠ [] := List.length_pos_iff.mp (by omega)
  by_cases hitems : items (pageOf db q i) = []
  · have hnoitem : ¬ ∃ row, (pageOf db q i).getLast? = some (.item row) := by
      rw [← lastItemEnd_eq_length_iff hne, lastItemEnd_eq_zero_iff.mpr hitems]
      omega
    simp only [resumeIndex, hitems, if_true, MarkerSafe, hnoitem, false_or, true_and]
    cases hf : (folders (pageOf db q i)).getLast? with
    | none =>
      refine iff_of_true rfl fun f hlast => ?_
      rw [(getLast?_folders hitems).mpr hlast] at hf
      cases hf
    | some f =>
      have hlast := (getLast?_folders hitems).mp hf
      rw [hlast]
      simp only [Option.some.injEq, Entry.folder.injEq, forall_eq']
      split_ifs with hcont
      · exact iff_of_false (by omega) (fun h => h hcont)
      · exact iff_of_true rfl hcont
  · rw [resumeIndex, if_neg hitems, MarkerSafe, ← lastItemEnd_eq_length_iff hne, hlen]
    constructor
    · intro h
      exact Or.inl (by omega)
    · rintro (h | ⟨h, -⟩)
      · omega
      · exact absurd h hitems

theorem markerSpans_full (db : Database) (q : ListQuery) (i j : ℕ)
    (h : (markerSpans db q).next i = some j) :
    (markerSpans db q).stop i = i + resolveLimit q.maxKeys := by
  simp only [markerSpans] at h ⊢
  split_ifs at h with hmore
  omega

theorem markerSpans_good_iff (db : Database) (q : ListQuery) (i : ℕ) :
    (markerSpans db q).Good i ↔
      (i + resolveLimit q.maxKeys < (allEntries db q).length → MarkerSafe db q (pageOf db q i)) := by
  have hstop : (markerSpans db q).stop i = min (i + resolveLimit q.maxKeys) (allEntries db q).length :=
    rfl
  by_cases hmore : i + resolveLimit q.maxKeys < (allEntries db q).length
  · rw [← resumeIndex_eq_iff hmore, imp_iff_right hmore,
      Paging.Spans.good_iff_of_lt (by rw [hstop]; omega), hstop, min_eq_left hmore.le]
    simp only [markerSpans, if_pos hmore, Option.some.injEq]
  · rw [Paging.Spans.good_iff_of_le (by rw [hstop]; omega)]
    exact iff_of_true (if_neg hmore) fun h => absurd h hmore

/-- **Walking through `ListObjects` is exact if and only if every page it cuts off ends in a key,
or shows only common prefixes and its last one has no live key past its own name.** -/
theorem listObjectsV1_exact_iff (db : Database) (hdb : Snapshot db) (q : ListQuery) (maxKeys : ℤ)
    (hq : q.maxKeys = some maxKeys) (hpos : 1 ≤ maxKeys) :
    (∃ n pages, listAllV1 db q n = some pages ∧ EachOnce db q pages) ↔
      ∀ g, (g + 1) * min maxKeys.toNat 1000 < (allEntries db q).length →
        MarkerSafe db q (((allEntries db q).drop (g * min maxKeys.toNat 1000)).take
          (min maxKeys.toNat 1000)) := by
  have hlimit : resolveLimit q.maxKeys = min maxKeys.toNat 1000 := by
    rw [hq]
    exact if_neg (by omega)
  rw [← hlimit]
  have hnodup : (allEntries db q).Nodup :=
    (allEntries_sorted hdb q).imp fun {a b} h heq => absurd h (by rw [heq]; exact lt_irrefl _)
  obtain ⟨hcovers, hreads⟩ := (markerSpans db q).covers_zero_iff (resolveLimit_pos q.maxKeys)
    (fun i => min_le_left _ _) (markerSpans_full db q)
  refine ((markerPage_follows hdb q).exactlyOnce_iff hnodup rfl
    (fun ps cs hshows hsub => (eachOnce_iff hdb hshows hsub).mp)
    (fun ps cs hshows heq _ => (eachOnce_iff hdb hshows (heq ▸ fun _ he => he)).mpr
      ⟨heq ▸ hnodup, fun _ he => heq ▸ he⟩) hreads (markerAt_none db q)).trans (hcovers.trans ?_)
  constructor
  · intro h g hg
    rw [Nat.succ_mul] at hg
    exact (markerSpans_good_iff db q _).mp (h g (Or.inr (by omega))) hg
  · intro h g _
    refine (markerSpans_good_iff db q _).mpr fun hmore => h g ?_
    rwa [Nat.succ_mul]

/-! ## A page that ends in a folder -/

/-- A folder, then a key. -/
def folderThenKey : Database where
  objects := [⟨1, 0, "a/1".toList, some 11⟩, ⟨2, 0, "b".toList, some 12⟩]
  objectVersions :=
    [{ guid := 11, objectGuid := 1, versionId := "null".toList, etag := [], createdAt := 1 },
      { guid := 12, objectGuid := 2, versionId := "null".toList, etag := [], createdAt := 2 }]

/-- A listing of it by `/`, one entry a page. -/
def onePerPage : ListQuery := { bucketGuid := 0, delimiter := some "/".toList, maxKeys := some 1 }

theorem folderThenKey_snapshot : Snapshot folderThenKey :=
  ⟨⟨by decide, by decide, by decide, by decide, by decide⟩, by decide⟩

theorem listObjectsV1_exact_iff_folderThenKey :
    (∃ n pages, listAllV1 folderThenKey onePerPage n = some pages ∧
      EachOnce folderThenKey onePerPage pages) ↔
      ∀ g, (g + 1) * min (1 : ℤ).toNat 1000 < (allEntries folderThenKey onePerPage).length →
        MarkerSafe folderThenKey onePerPage
          (((allEntries folderThenKey onePerPage).drop (g * min (1 : ℤ).toNat 1000)).take
            (min (1 : ℤ).toNat 1000)) :=
  listObjectsV1_exact_iff folderThenKey folderThenKey_snapshot onePerPage 1 rfl (by decide)

/-- The marker of the first page is the folder, and so is the marker of every later one. -/
theorem markerPage_folderThenKey (marker : Option Text) (h : marker = none ∨ marker = some "a/".toList) :
    (markerPage folderThenKey onePerPage marker).2 = some (some "a/".toList) := by
  rcases h with rfl | rfl <;> decide

/-- **A client that walks through it never gets to the end**: it is sent back to the folder. -/
theorem listObjectsV1_folderThenKey_diverges :
    ¬ ∃ n pages, listAllV1 folderThenKey onePerPage n = some pages ∧
      EachOnce folderThenKey onePerPage pages := by
  have hnone : ∀ n marker, (marker = none ∨ marker = some "a/".toList) →
      Paging.walk (markerPage folderThenKey onePerPage) n marker = none := by
    intro n
    induction n with
    | zero => exact fun _ _ => rfl
    | succ n ih =>
      intro marker hmarker
      rw [Paging.walk_succ_of_some (markerPage_folderThenKey marker hmarker), ih _ (Or.inr rfl)]
      rfl
  rintro ⟨n, pages, hwalk, -⟩
  rw [listAllV1, hnone n none (Or.inl rfl)] at hwalk
  cases hwalk

end S3ResponseService
end SimpleStorage
