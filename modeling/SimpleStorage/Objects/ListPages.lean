import SimpleStorage.Objects.SortedRows
import SimpleStorage.Library.Paging

/-!
# What one page of `list` shows

The loop of `list` is followed by one invariant, `Assembled`: the entries shown so far,
together with a listing of the rows still past the cursor, are the whole listing.  A batch
keeps it (`scanBatch_spec`, `listStep_spec`), so the loop does (`listLoop_spec`), and a
page that starts where rows `S` are left shows the first entries of a listing of `S`
(`list_spec`) and hands out a token that stands behind them.
-/

namespace SimpleStorage
namespace ObjectsService

open Query Collapse

variable {db : Database} {q : ListQuery}

/-- What a listing of some rows shows. -/
abbrev listing (q : ListQuery) (rows : List JoinedRow) : List (Entry JoinedRow Char) :=
  collapse (folding q.pre q.delimiter) JoinedRow.key rows

/-- Where a page ends that ends with the given entry. -/
def pageEnd : Entry JoinedRow Char → PageEnd
  | .item row => ⟨row.key, false⟩
  | .folder f => ⟨f, true⟩

/-- The rows left at a position of the loop. -/
def StandsAt (db : Database) (q : ListQuery) (cursor excludePrefix : Option Text)
    (S : List JoinedRow) : Prop :=
  Stands JoinedRow.key (liveRows db q.bucketGuid q.pre) (present cursor) (present excludePrefix) S

/-- The rows left behind the end of a page. -/
def StandsBehind (db : Database) (q : ListQuery) (e : PageEnd) (S : List JoinedRow) : Prop :=
  e.value ≠ [] ∧
    StandsAt db q (some e.value) (if e.isPrefix then some e.value else none) S

/-- **The invariant of the loop.**  `es` has been shown, `S` is left. -/
structure Assembled (db : Database) (q : ListQuery) (S₀ : List JoinedRow) (s : ListState)
    (es : List (Entry JoinedRow Char)) (S : List JoinedRow) : Prop where
  listing_eq : listing q S₀ = es ++ listing q S
  stands : StandsAt db q s.cursor s.excludePrefix S
  objects : s.objects = (items es).map toObjectItem
  commonPrefixes : s.commonPrefixes = folders es
  last : s.last = es.getLast?.map pageEnd
  behind : ∀ e ∈ es.getLast?, StandsBehind db q (pageEnd e) S

theorem Assembled.count {S₀ S : List JoinedRow} {s : ListState}
    {es : List (Entry JoinedRow Char)} (h : Assembled db q S₀ s es S) : s.count = es.length := by
  rw [ListState.count, h.objects, h.commonPrefixes, List.length_map,
    length_items_add_length_folders]

theorem Assembled.start {S : List JoinedRow} {s : ListState}
    (hs : StandsAt db q s.cursor s.excludePrefix S) (hobjects : s.objects = [])
    (hcommon : s.commonPrefixes = []) (hlast : s.last = none) : Assembled db q S s [] S where
  listing_eq := rfl
  stands := hs
  objects := hobjects
  commonPrefixes := hcommon
  last := hlast
  behind := by simp

/-- A snapshot a listing is about: the constraints of the schema, and no empty key. -/
structure Snapshot (db : Database) : Prop where
  constraints : db.Constraints
  key_ne_nil : ∀ o ∈ db.objects, o.key ≠ []

theorem present_of_ne_nil {s : Text} (h : s ≠ []) : present (some s) = some s :=
  present_eq_some_iff.mpr ⟨rfl, h⟩

theorem Snapshot.liveRow_ne_nil (hdb : Snapshot db) {row : JoinedRow}
    (h : row ∈ liveRows db q.bucketGuid q.pre) : row.key ≠ [] :=
  hdb.key_ne_nil _ (mem_latestRows.mp (mem_liveRows.mp h).1).1

theorem folder_of_mem_liveRows {row : JoinedRow} (h : row ∈ liveRows db q.bucketGuid q.pre) :
    (folding q.pre q.delimiter).folder row.key = groupOf q.pre q.delimiter row.key :=
  folding_folder (mem_liveRows.mp h).2.2.2

/-! ## One batch -/

/-- Showing a row. -/
theorem Assembled.item (hdb : Snapshot db) {S₀ S : List JoinedRow} {s : ListState} {row : JoinedRow}
    {es : List (Entry JoinedRow Char)} (h : Assembled db q S₀ s es (row :: S))
    (hrow : groupOf q.pre q.delimiter row.key = none) :
    Assembled db q S₀
      { s with
        objects := s.objects ++ [toObjectItem row]
        last := some ⟨row.key, false⟩
        cursor := some row.key } (es ++ [.item row]) S := by
  have hsorted := liveRows_pairwise hdb.constraints q.bucketGuid q.pre
  have hmem : row ∈ liveRows db q.bucketGuid q.pre := (Stands.mem h.stands).1
  have hne := hdb.liveRow_ne_nil hmem
  rw [← folder_of_mem_liveRows hmem] at hrow
  refine ⟨?_, ?_, ?_, ?_, by simp [pageEnd], ?_⟩
  · rw [h.listing_eq, listing, collapse_cons_item hrow, List.append_assoc, List.singleton_append]
  · simpa only [StandsAt, present_of_ne_nil hne] using Stands.item hsorted h.stands
  · simp [h.objects, items]
  · simp [h.commonPrefixes, folders]
  · simp only [List.getLast?_concat, Option.mem_some_iff, forall_eq', pageEnd]
    refine ⟨hne, ?_⟩
    rw [StandsAt, present_of_ne_nil hne, if_neg Bool.false_ne_true]
    exact Stands.item_forget hsorted h.stands

/-- Showing a folder. -/
theorem Assembled.folder (hdb : Snapshot db) {S₀ S : List JoinedRow} {s : ListState}
    {row : JoinedRow} {es : List (Entry JoinedRow Char)} (h : Assembled db q S₀ s es (row :: S))
    {f : Text} (hrow : groupOf q.pre q.delimiter row.key = some f) :
    ∃ S', Assembled db q S₀
      { s with
        commonPrefixes := s.commonPrefixes ++ [f]
        last := some ⟨f, true⟩
        cursor := some f
        excludePrefix := some f } (es ++ [.folder f]) S' := by
  have hsorted := liveRows_pairwise hdb.constraints q.bucketGuid q.pre
  have hmem : row ∈ liveRows db q.bucketGuid q.pre := (Stands.mem h.stands).1
  have hne := groupOf_ne_nil hrow
  rw [← folder_of_mem_liveRows hmem] at hrow
  have hstands := Stands.folder hsorted h.stands hrow
  refine ⟨S.dropWhile fun r => f <+: r.key, ?_, ?_, ?_, ?_, by simp [pageEnd], ?_⟩
  · rw [h.listing_eq, listing, collapse_cons_folder hrow, collapseFrom_some hrow,
      List.append_assoc, List.singleton_append]
  · simpa only [StandsAt, present_of_ne_nil hne] using hstands
  · simp [h.objects, items]
  · simp [h.commonPrefixes, folders]
  · simp only [List.getLast?_concat, Option.mem_some_iff, forall_eq', pageEnd]
    refine ⟨hne, ?_⟩
    simpa only [StandsAt, present_of_ne_nil hne, if_true] using hstands

/-- **A batch shows entries and keeps the invariant.**  It shows something unless it is empty, at
most as many entries as it has rows, and all of its rows unless a folder cuts it off. -/
theorem scanBatch_spec (hdb : Snapshot db) {S₀ batch rest : List JoinedRow} {s : ListState}
    {es : List (Entry JoinedRow Char)} (h : Assembled db q S₀ s es (batch ++ rest)) :
    ∃ fs S, Assembled db q S₀ (scanBatch q batch s).1 (es ++ fs) S ∧
      fs.length ≤ batch.length ∧ (batch ≠ [] → fs ≠ []) ∧
      (scanBatch q batch s).1.exhausted = s.exhausted ∧
      ((scanBatch q batch s).2 = false → S = rest) := by
  induction batch generalizing s es with
  | nil => exact ⟨[], rest, by simpa [scanBatch] using h, le_rfl, fun h => absurd rfl h, rfl,
      fun _ => rfl⟩
  | cons row batch ih =>
    cases hrow : groupOf q.pre q.delimiter row.key with
    | some f =>
      obtain ⟨S, hS⟩ := Assembled.folder hdb h hrow
      refine ⟨[.folder f], S, ?_⟩
      simp only [scanBatch, hrow]
      exact ⟨hS, by simp, fun _ => List.cons_ne_nil _ _, trivial, fun h => by cases h⟩
    | none =>
      obtain ⟨fs, S, hS, hlen, -, hex, hrest⟩ := ih (Assembled.item hdb h hrow)
      refine ⟨.item row :: fs, S, ?_⟩
      simp only [scanBatch, hrow]
      rw [List.append_assoc, List.singleton_append] at hS
      exact ⟨hS, Nat.succ_le_succ hlen, fun _ => List.cons_ne_nil _ _, hex, hrest⟩

theorem fetch_at (hdb : Snapshot db) {s : ListState} {S : List JoinedRow}
    (h : StandsAt db q s.cursor s.excludePrefix S) (limit : ℕ) :
    fetchLatestVersions db (latestQuery q s limit) = S.take limit := by
  rw [fetchLatestVersions_eq hdb.constraints]
  exact congrArg (List.take limit) h.rows

/-! ## The loop -/

/-- What one round of the loop does: it shows between one and `limit - count` more entries, and
is the last round only if nothing is left. -/
theorem listStep_spec (hdb : Snapshot db) {S₀ S : List JoinedRow} {s : ListState} {limit : ℕ}
    {es : List (Entry JoinedRow Char)} (h : Assembled db q S₀ s es S) (hlt : s.count < limit)
    (hex : s.exhausted = false) :
    ∃ fs S', Assembled db q S₀ (listStep db q limit s) (es ++ fs) S' ∧
      es.length + fs.length ≤ limit ∧
      ((listStep db q limit s).exhausted = true → S' = []) ∧
      (fs = [] → (listStep db q limit s).exhausted = true) := by
  have hcount := h.count
  have hbatch := fetch_at hdb h.stands (limit - s.count)
  have hsplit : Assembled db q S₀ s es (S.take (limit - s.count) ++ S.drop (limit - s.count)) := by
    rwa [List.take_append_drop]
  have hremaining : (S.take (limit - s.count)).length = min (limit - s.count) S.length :=
    List.length_take
  simp only [listStep, hbatch]
  split_ifs with hnil hshort
  · have hS : S = [] := List.length_eq_zero_iff.mp (by omega)
    subst hS
    exact ⟨[], [], by simpa using ⟨h.1, h.2, h.3, h.4, h.5, h.6⟩, by simpa using by omega,
      fun _ => rfl, fun _ => rfl⟩
  · obtain ⟨fs, S', hS', hlen, hne, -, hrest⟩ := scanBatch_spec hdb hsplit
    rw [Bool.and_eq_true, Bool.not_eq_true', decide_eq_true_iff] at hshort
    refine ⟨fs, S', ⟨hS'.1, hS'.2, hS'.3, hS'.4, hS'.5, hS'.6⟩, by omega, fun _ => ?_, fun _ => rfl⟩
    rw [hrest hshort.1, List.drop_eq_nil_iff]
    omega
  · obtain ⟨fs, S', hS', hlen, hne, hex', hrest⟩ := scanBatch_spec hdb hsplit
    refine ⟨fs, S', hS', by omega, fun h => ?_, fun h => ?_⟩
    · rw [hex', hex] at h
      cases h
    · exact absurd h (hne fun h => hnil (by rw [h]; rfl))

/-- **The loop ends with a full page or with nothing left**, given as many rounds as a page
has entries and one more. -/
theorem listLoop_spec (hdb : Snapshot db) {S₀ S : List JoinedRow} {s : ListState} {limit n : ℕ}
    {es : List (Entry JoinedRow Char)} (h : Assembled db q S₀ s es S) (hle : es.length ≤ limit)
    (hn : limit - es.length < n) (hex : s.exhausted = true → S = []) :
    ∃ fs S', Assembled db q S₀ (listLoop db q limit n s) fs S' ∧ fs.length ≤ limit ∧
      ((listLoop db q limit n s).exhausted = true → S' = []) ∧
      (fs.length < limit → (listLoop db q limit n s).exhausted = true) := by
  induction n generalizing s es S with
  | zero => omega
  | succ n ih =>
    have hcount := h.count
    rw [listLoop]
    split_ifs with hcond
    · rw [Bool.and_eq_true, decide_eq_true_iff, Bool.not_eq_true'] at hcond
      obtain ⟨fs, S', hS', hlen, hdone, hempty⟩ := listStep_spec hdb h hcond.1 hcond.2
      by_cases hfs : fs = []
      · -- the round found nothing: the loop is over, however many rounds are left
        have hstop : listLoop db q limit n (listStep db q limit s) = listStep db q limit s := by
          cases n with
          | zero => rfl
          | succ n => rw [listLoop, if_neg (by simp [hempty hfs])]
        rw [hstop]
        exact ⟨es ++ fs, S', hS', by rw [List.length_append]; exact hlen, hdone,
          fun _ => hempty hfs⟩
      · have hpos := List.length_pos_iff.mpr hfs
        refine ih hS' (by rw [List.length_append]; exact hlen) ?_ hdone
        rw [List.length_append]
        omega
    · rw [Bool.and_eq_true, decide_eq_true_iff, Bool.not_eq_true', not_and_or] at hcond
      refine ⟨es, S, h, hle, hex, fun hlt => ?_⟩
      rcases hcond with hfull | hexh
      · omega
      · exact eq_true_of_ne_false hexh

/-! ## A page -/

theorem resolveLimit_pos (requested : Option ℤ) : 0 < resolveLimit requested := by
  simp only [resolveLimit, defaultMaxKeys, maxKeysLimit]
  split
  · omega
  · split_ifs <;> omega

theorem listing_eq_nil_iff {S : List JoinedRow} : listing q S = [] ↔ S = [] := by
  constructor
  · intro hnil
    cases S with
    | nil => rfl
    | cons row S =>
      cases hrow : (folding q.pre q.delimiter).folder row.key with
      | none => rw [listing, collapse_cons_item hrow] at hnil; cases hnil
      | some f => rw [listing, collapse_cons_folder hrow] at hnil; cases hnil
  · rintro rfl
    rfl

/-- **What the loop comes to.**  It has shown the first entries of a listing of the rows it
began with, and stands where the rest is left. -/
theorem listEnd_spec (hdb : Snapshot db) {S : List JoinedRow}
    (h : StandsAt db q (listStart q).cursor (listStart q).excludePrefix S) :
    ∃ S', Assembled db q S (listEnd db q) ((listing q S).take (resolveLimit q.maxKeys)) S' ∧
      listing q S' = (listing q S).drop (resolveLimit q.maxKeys) ∧
      (S' ≠ [] → (listEnd db q).exhausted = false ∧
        resolveLimit q.maxKeys ≤ (listEnd db q).count) := by
  obtain ⟨fs, S', hS', hle, hdone, hfull⟩ := listLoop_spec hdb (n := resolveLimit q.maxKeys + 1)
    (Assembled.start h rfl rfl rfl) (Nat.zero_le (resolveLimit q.maxKeys)) (by simp)
    (by simp [listStart])
  change Assembled db q S (listEnd db q) fs S' at hS'
  change (listEnd db q).exhausted = true → S' = [] at hdone
  change fs.length < _ → (listEnd db q).exhausted = true at hfull
  have hcount := hS'.count
  by_cases hlt : fs.length < resolveLimit q.maxKeys
  · have hnil := hdone (hfull hlt)
    subst hnil
    have hall : listing q S = fs := by rw [hS'.listing_eq, listing_eq_nil_iff.mpr rfl, List.append_nil]
    refine ⟨[], ?_, ?_, fun hne => absurd rfl hne⟩
    · rw [hall, List.take_of_length_le hle]
      exact hS'
    · rw [hall, List.drop_eq_nil_iff.mpr hle]
      rfl
  · have heq : fs.length = resolveLimit q.maxKeys := by omega
    refine ⟨S', ?_, ?_, fun hne => ⟨?_, by omega⟩⟩
    · rw [hS'.listing_eq, ← heq, List.take_left]
      exact ⟨hS'.1, hS'.2, hS'.3, hS'.4, hS'.5, hS'.6⟩
    · rw [hS'.listing_eq, ← heq, List.drop_left]
    · exact Bool.eq_false_iff.mpr fun hex => hne (hdone hex)

/-- A page is truncated exactly when the listing goes on behind it. -/
theorem isTruncated_iff (hdb : Snapshot db) {S : List JoinedRow}
    (h : StandsAt db q (listStart q).cursor (listStart q).excludePrefix S) :
    (list db q).isTruncated = true ↔ resolveLimit q.maxKeys < (listing q S).length := by
  obtain ⟨S', hS', hrest, hmore⟩ := listEnd_spec hdb h
  have hleft : S' ≠ [] ↔ resolveLimit q.maxKeys < (listing q S).length := by
    rw [ne_eq, ← listing_eq_nil_iff (q := q), hrest, List.drop_eq_nil_iff, not_le]
  have hfetch := fetch_at hdb hS'.stands 1
  simp only [list]
  rw [Bool.and_eq_true, Bool.and_eq_true, Bool.not_eq_true', decide_eq_true_iff,
    decide_eq_true_iff, hfetch, List.length_take, ← hleft]
  constructor
  · rintro ⟨-, hpos⟩ rfl
    simp at hpos
  · intro hne
    have := List.length_pos_iff.mpr hne
    exact ⟨hmore hne, by omega⟩

/-- **One page.**  Where rows `S` are left, `list` shows the first entries of a listing of `S`, and
it hands out a token exactly when the listing goes on; the token stands where it goes on. -/
theorem list_spec (hdb : Snapshot db) {S : List JoinedRow}
    (h : StandsAt db q (listStart q).cursor (listStart q).excludePrefix S) :
    (list db q).objects =
      (items ((listing q S).take (resolveLimit q.maxKeys))).map toObjectItem ∧
    (list db q).commonPrefixes = folders ((listing q S).take (resolveLimit q.maxKeys)) ∧
    ((list db q).nextContinuationToken = none ↔
      (listing q S).length ≤ resolveLimit q.maxKeys) ∧
    ∀ token, (list db q).nextContinuationToken = some token → ∃ e S', token = encodeToken e ∧
      StandsBehind db q e S' ∧ listing q S' = (listing q S).drop (resolveLimit q.maxKeys) := by
  obtain ⟨S', hS', hrest, -⟩ := listEnd_spec hdb h
  have htruncated := isTruncated_iff hdb h
  have hnext : (list db q).nextContinuationToken =
      if (list db q).isTruncated = true then (listEnd db q).last.map encodeToken else none := rfl
  have hlast : (list db q).isTruncated = true →
      ∃ e, ((listing q S).take (resolveLimit q.maxKeys)).getLast? = some e := by
    intro ht
    refine Option.ne_none_iff_exists'.mp fun hnone => ?_
    have hlen := congrArg List.length (List.getLast?_eq_none_iff.mp hnone)
    have hlimit := resolveLimit_pos q.maxKeys
    have := htruncated.mp ht
    rw [List.length_take, List.length_nil] at hlen
    omega
  refine ⟨hS'.objects, hS'.commonPrefixes, ?_, fun token htoken => ?_⟩
  · rw [← not_lt, ← htruncated, hnext]
    constructor
    · intro hnone ht
      obtain ⟨e, he⟩ := hlast ht
      rw [if_pos ht, hS'.last, he] at hnone
      cases hnone
    · intro ht
      rw [if_neg ht]
  · by_cases ht : (list db q).isTruncated = true
    · obtain ⟨e, he⟩ := hlast ht
      rw [hnext, if_pos ht, hS'.last, he] at htoken
      exact ⟨pageEnd e, S', (Option.some.inj htoken).symm, hS'.behind e he, hrest⟩
    · rw [hnext, if_neg ht] at htoken
      cases htoken

end ObjectsService
end SimpleStorage
