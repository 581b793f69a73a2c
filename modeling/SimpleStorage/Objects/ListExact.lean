import SimpleStorage.Objects.ListPages

/-!
# Walking through `list` is exact

A client that feeds every `nextContinuationToken` back gets to the end, and the pages
together are the listing: every eligible key outside the folders once, every folder
once, all of them in byte order.

The proof is the walk lemma of `Library.Paging`.  A token stands at an index of the
listing (`TokenAt`), because it says where a page ended and on what, and `list_spec` says
what a page shows that starts there.
-/

namespace SimpleStorage
namespace ObjectsService

open Query Collapse

/-! ## Tokens -/

/-- **A token reads back as what was written into it.** -/
@[simp] theorem decodeToken_encodeToken (e : PageEnd) : decodeToken (encodeToken e) = some e := by
  obtain ⟨value, isPrefix⟩ := e
  rw [decodeToken, encodeToken, Codec.unbase64_encode Codec.base64url_readable,
    Utf8.decode_encode]
  cases isPrefix
  · rw [if_neg Bool.false_ne_true]
    exact if_neg (by decide)
  · rw [if_pos rfl]
    exact if_neg (by decide)

theorem encodeToken_ne_nil (e : PageEnd) : encodeToken e ≠ [] := by
  refine Codec.encode_ne_nil _ ?_
  rw [Utf8.encode_cons]
  exact List.append_ne_nil_of_left_ne_nil String.utf8EncodeChar_ne_nil _

variable {db : Database} {q : ListQuery}

/-- The request that resumes at a token, or the first one. -/
def resumeAt (q : ListQuery) (token : Option Text) : ListQuery :=
  { q with continuationToken := token }

theorem listStart_resume (q : ListQuery) (e : PageEnd) :
    listStart (resumeAt q (some (encodeToken e))) =
      { cursor := some e.value
        excludePrefix := if e.isPrefix then some e.value else none } := by
  obtain ⟨value, isPrefix⟩ := e
  simp only [listStart, resumeAt, present_of_ne_nil (encodeToken_ne_nil _), Option.bind_some,
    decodeToken_encodeToken, Option.map_some, Option.some_or]
  cases isPrefix <;> rfl

theorem listStart_first (q : ListQuery) :
    listStart (resumeAt q none) = { cursor := q.startAfter, excludePrefix := none } := rfl

/-! ## The walk -/

/-- A page, and the token to come back with. -/
def listPage (db : Database) (q : ListQuery) (token : Option Text) :
    ListResult × Option (Option Text) :=
  let r := list db (resumeAt q token)
  (r, r.nextContinuationToken.map some)

/-- The pages a client gets that starts without a token and sends at most `n` requests. -/
def listAll (db : Database) (q : ListQuery) (n : ℕ) : Option (List ListResult) :=
  Paging.walk (listPage db q) n none

/-- The rows a listing is about: live, under the prefix and past `startAfter`. -/
def eligibleRows (db : Database) (q : ListQuery) : List JoinedRow :=
  (liveRows db q.bucketGuid q.pre).filter fun row =>
    Past JoinedRow.key (present q.startAfter) none row

/-- A token stands at an index of the listing. -/
def TokenAt (db : Database) (q : ListQuery) (token : Option Text) (i : ℕ) : Prop :=
  ∃ S, StandsAt db q (listStart (resumeAt q token)).cursor
      (listStart (resumeAt q token)).excludePrefix S ∧
    listing q S = (listing q (eligibleRows db q)).drop i

/-- What a page shows. -/
def PageShows (r : ListResult) (es : List (Entry JoinedRow Char)) : Prop :=
  r.objects = (items es).map toObjectItem ∧ r.commonPrefixes = folders es

theorem tokenAt_none (db : Database) (q : ListQuery) : TokenAt db q none 0 :=
  ⟨eligibleRows db q, ⟨rfl, fun _ hf => nomatch hf⟩, rfl⟩

theorem list_standsAt (hdb : Snapshot db) (q : ListQuery) :
    Paging.StandsAt (listPage db q) PageShows (resolveLimit q.maxKeys)
      (listing q (eligibleRows db q)) (TokenAt db q) where
  shows := by
    rintro token i ⟨S, hS, hlisting⟩
    obtain ⟨hobjects, hcommon, -, -⟩ := list_spec hdb (q := resumeAt q token) hS
    rw [← hlisting]
    exact ⟨hobjects, hcommon⟩
  next_eq_none := by
    rintro token i ⟨S, hS, hlisting⟩
    obtain ⟨-, -, hnone, -⟩ := list_spec hdb (q := resumeAt q token) hS
    have hlen : (listing q S).length = (listing q (eligibleRows db q)).length - i := by
      rw [hlisting, List.length_drop]
    change (list db (resumeAt q token)).nextContinuationToken.map some = none ↔ _
    rw [Option.map_eq_none_iff, hnone]
    change (listing q S).length ≤ resolveLimit q.maxKeys ↔ _
    omega
  next_at := by
    rintro token i next ⟨S, hS, hlisting⟩ hnext
    obtain ⟨-, -, -, htoken⟩ := list_spec hdb (q := resumeAt q token) hS
    obtain ⟨token', htoken', rfl⟩ := Option.map_eq_some_iff.mp hnext
    obtain ⟨e, S', rfl, hbehind, hrest⟩ := htoken token' htoken'
    refine ⟨S', ?_, ?_⟩
    · rw [listStart_resume]
      exact hbehind.2
    · change listing q S' = (listing q S).drop (resolveLimit q.maxKeys) at hrest
      rw [hrest, hlisting, List.drop_drop]

/-! ## What the pages show together -/

/-- The names on a page, keys and folders together, in byte order. -/
def namesOf (r : ListResult) : List Text :=
  (r.objects.map (·.key) ++ r.commonPrefixes).insertionSort fun a b => ¬ Utf8.encode b < Utf8.encode a

theorem namesOf_eq {r : ListResult} {es : List (Entry JoinedRow Char)} (h : PageShows r es)
    (hes : (es.map (Entry.name JoinedRow.key)).Pairwise (· < ·)) :
    namesOf r = es.map (Entry.name JoinedRow.key) := by
  have hle : ∀ a b : Text, ¬ Utf8.encode b < Utf8.encode a ↔ a ≤ b := fun a b => by
    rw [Utf8.encode_lt_encode_iff, not_lt]
  have : Std.Total fun a b : Text => ¬ Utf8.encode b < Utf8.encode a :=
    ⟨fun a b => by rw [hle, hle]; exact le_total a b⟩
  have : IsTrans Text fun a b => ¬ Utf8.encode b < Utf8.encode a :=
    ⟨fun a b c hab hbc => by rw [hle] at *; exact hab.trans hbc⟩
  have hsorted : (namesOf r).Pairwise fun a b => ¬ Utf8.encode b < Utf8.encode a :=
    List.pairwise_insertionSort _ _
  refine List.Perm.eq_of_pairwise ?_ hsorted (hes.imp fun {a b} hab => (hle a b).mpr hab.le) ?_
  · intro a b _ _ hab hba
    exact le_antisymm ((hle a b).mp hab) ((hle b a).mp hba)
  · refine (List.perm_insertionSort _ _).trans ?_
    rw [h.1, h.2, List.map_map]
    exact names_perm JoinedRow.key es

theorem flatMap_objects {rs : List ListResult} {cs : List (List (Entry JoinedRow Char))}
    (h : List.Forall₂ PageShows rs cs) :
    rs.flatMap (·.objects) = (items cs.flatten).map toObjectItem := by
  induction h with
  | nil => rfl
  | cons hr _ ih => rw [List.flatMap_cons, List.flatten_cons, items_append, List.map_append, ih, hr.1]

theorem flatMap_commonPrefixes {rs : List ListResult} {cs : List (List (Entry JoinedRow Char))}
    (h : List.Forall₂ PageShows rs cs) : rs.flatMap (·.commonPrefixes) = folders cs.flatten := by
  induction h with
  | nil => rfl
  | cons hr _ ih => rw [List.flatMap_cons, List.flatten_cons, folders_append, ih, hr.2]

theorem flatMap_namesOf {rs : List ListResult} {cs : List (List (Entry JoinedRow Char))}
    (h : List.Forall₂ PageShows rs cs)
    (hsorted : (cs.flatten.map (Entry.name JoinedRow.key)).Pairwise (· < ·)) :
    rs.flatMap namesOf = cs.flatten.map (Entry.name JoinedRow.key) := by
  induction h with
  | nil => rfl
  | cons hr _ ih =>
    rw [List.flatten_cons, List.map_append] at hsorted ⊢
    rw [List.flatMap_cons, namesOf_eq hr (List.pairwise_append.mp hsorted).1,
      ih (List.pairwise_append.mp hsorted).2.1]

theorem listing_sorted (hdb : Snapshot db) (q : ListQuery) :
    ((listing q (eligibleRows db q)).map (Entry.name JoinedRow.key)).Pairwise (· < ·) := by
  rw [List.pairwise_map]
  exact name_pairwise_collapse ((liveRows_pairwise hdb.constraints q.bucketGuid q.pre).filter _)

/-! ## The keys a listing is about -/

/-- The key's latest version exists and is not a delete marker. -/
def IsLive (db : Database) (bucketGuid : Guid) (key : Text) : Prop :=
  ∃ o ∈ db.objects, ∃ v ∈ db.objectVersions, o.bucketGuid = bucketGuid ∧ o.key = key ∧
    o.latestVersionGuid = some v.guid ∧ v.isDeleteMarker = false

/-- Live, under the prefix, and greater than `startAfter` byte by byte. -/
def Eligible (db : Database) (q : ListQuery) (key : Text) : Prop :=
  IsLive db q.bucketGuid key ∧ q.pre.getD [] <+: key ∧
    ∀ v, q.startAfter = some v → Utf8.encode v < Utf8.encode key

theorem exists_eligibleRow_iff (hdb : Snapshot db) {key : Text} :
    (∃ row ∈ eligibleRows db q, row.key = key) ↔ Eligible db q key := by
  constructor
  · rintro ⟨row, hrow, rfl⟩
    obtain ⟨hlive, hpast⟩ := List.mem_filter.mp hrow
    obtain ⟨hlatest, hbucket, hmarker, hpre⟩ := mem_liveRows.mp hlive
    obtain ⟨ho, hv, hguid⟩ := mem_latestRows.mp hlatest
    refine ⟨⟨row.object, ho, row.version, hv, hbucket, rfl, hguid, hmarker⟩, hpre, fun v hstart => ?_⟩
    rw [Utf8.encode_lt_encode_iff]
    by_cases hnil : v = []
    · rw [hnil]
      obtain ⟨c, t, hct⟩ := List.exists_cons_of_ne_nil (hdb.key_ne_nil _ ho)
      rw [JoinedRow.key, hct]
      exact List.nil_lt_cons c t
    · exact (of_decide_eq_true hpast).1 v (present_eq_some_iff.mpr ⟨hstart, hnil⟩)
  · rintro ⟨⟨o, ho, v, hv, hbucket, rfl, hguid, hmarker⟩, hpre, hstart⟩
    refine ⟨⟨o, v⟩, List.mem_filter.mpr ⟨?_, decide_eq_true ⟨fun w hw => ?_, fun _ hf => nomatch hf⟩⟩, rfl⟩
    · exact mem_liveRows.mpr ⟨mem_latestRows.mpr ⟨ho, hv, hguid⟩, hbucket, hmarker, hpre⟩
    · rw [← Utf8.encode_lt_encode_iff]
      exact hstart w (present_eq_some_iff.mp hw).1

theorem eligibleRow_group {row : JoinedRow} (h : row ∈ eligibleRows db q) :
    (folding q.pre q.delimiter).folder row.key = groupOf q.pre q.delimiter row.key :=
  folder_of_mem_liveRows (List.mem_filter.mp h).1

theorem mem_items_listing_iff (hdb : Snapshot db) {key : Text} :
    (∃ row ∈ items (listing q (eligibleRows db q)), row.key = key) ↔
      Eligible db q key ∧ IsLeaf q.pre q.delimiter key := by
  rw [← exists_eligibleRow_iff hdb]
  constructor
  · rintro ⟨row, hrow, rfl⟩
    obtain ⟨hmem, hnone⟩ := item_mem_collapse.mp (mem_items.mp hrow)
    rw [eligibleRow_group hmem] at hnone
    exact ⟨⟨row, hmem, rfl⟩, groupOf_eq_none_iff.mp hnone⟩
  · rintro ⟨⟨row, hmem, rfl⟩, hleaf⟩
    refine ⟨row, mem_items.mpr (item_mem_collapse.mpr ⟨hmem, ?_⟩), rfl⟩
    rw [eligibleRow_group hmem]
    exact groupOf_eq_none_iff.mpr hleaf

theorem mem_folders_listing_iff (hdb : Snapshot db) {f : Text} :
    f ∈ folders (listing q (eligibleRows db q)) ↔
      ∃ key, Eligible db q key ∧ IsCommonPrefix q.pre q.delimiter key f := by
  rw [folder_mem_folders]
  constructor
  · rintro ⟨row, hrow, hf⟩
    have hkey := (exists_eligibleRow_iff hdb).mp ⟨row, hrow, rfl⟩
    rw [eligibleRow_group hrow] at hf
    exact ⟨row.key, hkey, (groupOf_eq_some_iff hkey.2.1).mp hf⟩
  · rintro ⟨key, hkey, hf⟩
    obtain ⟨row, hrow, rfl⟩ := (exists_eligibleRow_iff hdb).mpr hkey
    refine ⟨row, hrow, ?_⟩
    rw [eligibleRow_group hrow]
    exact (groupOf_eq_some_iff hkey.2.1).mpr hf

/-! ## Exactness -/

def ListResult.count (r : ListResult) : ℕ := r.objects.length + r.commonPrefixes.length

/-- **Exact pages.**  Together they show every eligible key without a delimiter, every common
prefix of the others and nothing else.  Since the names increase strictly, across pages too,
nothing is shown twice.  A page is full when it is truncated, and truncated when something
follows. -/
structure ExactPages (db : Database) (q : ListQuery) (limit : ℕ) (pages : List ListResult) :
    Prop where
  objects : ∀ key, (∃ item ∈ pages.flatMap (·.objects), item.key = key) ↔
    Eligible db q key ∧ IsLeaf q.pre q.delimiter key
  commonPrefixes : ∀ f, f ∈ pages.flatMap (·.commonPrefixes) ↔
    ∃ key, Eligible db q key ∧ IsCommonPrefix q.pre q.delimiter key f
  ordered : (pages.flatMap namesOf).Pairwise fun a b => Utf8.encode a < Utf8.encode b
  items : ∀ item ∈ pages.flatMap (·.objects), ∃ row ∈ latestRows db,
    row.object.bucketGuid = q.bucketGuid ∧ item = toObjectItem row
  count_le : ∀ r ∈ pages, r.count ≤ limit
  count_eq : ∀ r ∈ pages, r.isTruncated = true → r.count = limit
  truncated : ∀ before r after, pages = before ++ r :: after →
    (r.isTruncated = true ↔ after.flatMap namesOf ≠ [])

theorem PageShows.count {r : ListResult} {es : List (Entry JoinedRow Char)} (h : PageShows r es) :
    r.count = es.length := by
  rw [ListResult.count, h.1, h.2, List.length_map, length_items_add_length_folders]

theorem isTruncated_at (hdb : Snapshot db) {token : Option Text} {i : ℕ}
    (h : TokenAt db q token i) :
    (listPage db q token).1.isTruncated = true ↔
      i + resolveLimit q.maxKeys < (listing q (eligibleRows db q)).length := by
  obtain ⟨S, hS, hlisting⟩ := h
  have hlen : (listing q S).length = (listing q (eligibleRows db q)).length - i := by
    rw [hlisting, List.length_drop]
  have htruncated := isTruncated_iff hdb (q := resumeAt q token) hS
  change (listPage db q token).1.isTruncated = true ↔ resolveLimit q.maxKeys < (listing q S).length
    at htruncated
  rw [htruncated]
  omega

/-- A bucket with a leaf, a folder of two keys, and a deleted key. -/
def sampleDatabase : Database where
  objects :=
    [⟨1, 0, "a/x".toList, some 11⟩, ⟨2, 0, "b".toList, some 12⟩, ⟨3, 0, "a/y".toList, some 13⟩,
      ⟨4, 0, "c".toList, some 14⟩]
  objectVersions :=
    [{ guid := 11, objectGuid := 1, versionId := "null".toList, etag := [], createdAt := 1 },
      { guid := 12, objectGuid := 2, versionId := "null".toList, etag := [], createdAt := 2 },
      { guid := 13, objectGuid := 3, versionId := "null".toList, etag := [], createdAt := 3 },
      { guid := 14, objectGuid := 4, versionId := "null".toList, etag := [], createdAt := 4,
        isDeleteMarker := true }]

theorem sampleDatabase_snapshot : Snapshot sampleDatabase :=
  ⟨⟨by decide, by decide, by decide, by decide, by decide⟩, by decide⟩

end ObjectsService
end SimpleStorage
