import Mathlib.Data.Int.Interval
import SimpleStorage.Library.Markers
import SimpleStorage.Objects.ListPages
import SimpleStorage.Objects.Refinement
import SimpleStorage.Objects.StoreRuns

/-!
# Listing the parts of an upload

`listParts` shows the parts of an upload in progress by their numbers, page by page.  A client
follows the numbers it is given, while others go on storing parts.

* `requests_numbered`: the numbers of an upload's parts are different and between 1 and 10 000,
  whatever is asked for.
* `walkParts_pages`: what the client reads is a walk along a marker (`Markers.walk`).
* `parts_listed`: no part is shown twice, those stored throughout are all shown, and the walk ends.
* `listed_completes`: completing the upload with the parts as they were listed gives their contents
  in a row.
-/

namespace SimpleStorage
namespace ObjectsService

open ObjectsTypes Program Statements StorageService

/-! ## `listParts` -/

structure ListPartsQuery where
  maxParts : Option ℤ := none
  partNumberMarker : Option ℤ := none
  deriving DecidableEq, Repr

structure PartItem where
  partNumber : ℤ
  size : ℕ
  etag : Text
  lastModified : Timestamp
  deriving DecidableEq, Repr

structure ListPartsResult where
  parts : List PartItem
  isTruncated : Bool
  nextPartNumberMarker : Option ℤ
  deriving DecidableEq, Repr

def toPartItem (part : MultipartPartRow) : PartItem where
  partNumber := part.partNumber
  size := part.size
  etag := part.etag
  lastModified := part.createdAt

/-- A marker that is zero is none. -/
def ListPartsQuery.admits (q : ListPartsQuery) (part : MultipartPartRow) : Bool :=
  (q.partNumberMarker.filter (· ≠ 0)).all (· < part.partNumber)

/-- One more than a page shows. -/
def fetchParts (uploadGuid : Guid) (q : ListPartsQuery) (db : Database) : List MultipartPartRow :=
  (((partsOf uploadGuid db).filter q.admits).insertionSort (·.partNumber ≤ ·.partNumber)).take
    (resolveLimit q.maxParts + 1)

def partsResult (limit : ℕ) (rows : List MultipartPartRow) : ListPartsResult :=
  let page := rows.take limit
  { parts := page.map toPartItem
    isTruncated := limit < rows.length
    nextPartNumberMarker := if limit < rows.length then page.getLast?.map (·.partNumber) else none }

/-- The key of the upload goes with the page. -/
def listParts (bucketGuid : Guid) (uploadId : Text) (q : ListPartsQuery) :
    Service (Text × ListPartsResult) := do
  let upload ← requireUpload bucketGuid uploadId
  let rows ← World.select (fetchParts upload.guid q)
  return (upload.key, partsResult (resolveLimit q.maxParts) rows)

theorem listParts_spec (bucketGuid : Guid) (uploadId : Text) (q : ListPartsQuery) (w : World) :
    wp (listParts bucketGuid uploadId q)
      (fun r w' => w' = w ∧ ∃ u, findUpload bucketGuid uploadId w.db = some u ∧
        r = (u.key, partsResult (resolveLimit q.maxParts) (fetchParts u.guid q w.db)))
      (fun e w' => w' = w ∧ e = .uploadNotFound ∧ findUpload bucketGuid uploadId w.db = none) w := by
  rw [listParts, wp_bind]
  refine wp_mono (requireUpload_spec w bucketGuid uploadId) ?_ fun _ _ h => h
  intro u w' ⟨hsame, hu⟩
  rw [hsame, wp_bind, World.select, wp_query]
  exact ⟨rfl, u, hu, rfl⟩

/-! ## The numbers of parts -/

/-- **Parts are numbered** from 1 to 10 000, no two parts of an upload the same. -/
structure PartsNumbered (db : Database) : Prop where
  distinct : (db.multipartParts.map fun p => (p.uploadGuid, p.partNumber)).Nodup
  range : ∀ p ∈ db.multipartParts, 1 ≤ p.partNumber ∧ p.partNumber ≤ 10000

theorem PartsNumbered.congr {db db' : Database} (h : PartsNumbered db)
    (hsame : db'.multipartParts = db.multipartParts) : PartsNumbered db' :=
  ⟨hsame ▸ h.distinct, hsame ▸ h.range⟩

theorem PartsNumbered.of_empty {db : Database} (h : Empty db) : PartsNumbered db := by
  constructor <;> simp [h.parts]

theorem PartsNumbered.upsertPart {db : Database} (h : PartsNumbered db) {part : MultipartPartRow}
    (hrange : 1 ≤ part.partNumber ∧ part.partNumber ≤ 10000) :
    PartsNumbered (Statements.upsertPart part db) where
  distinct := upsertPart_numbers h.distinct
  range := fun p hp => by
    rcases (mem_upsertPart h.distinct).mp hp with rfl | ⟨hp, -⟩
    · obtain ⟨createdAt, hupserted⟩ := upsertedPart_eq part db
      rw [hupserted]
      exact hrange
    · exact h.range p hp

theorem PartsNumbered.closeUpload {db : Database} (h : PartsNumbered db) (uploadGuid : Guid)
    (status : MultipartUploadStatus) : PartsNumbered (closeUpload uploadGuid status db) where
  distinct := h.distinct.sublist (List.Sublist.map _ List.filter_sublist)
  range := fun p hp => h.range p (mem_closeUpload_parts.mp hp).1

section Requests

variable {N : Node}

theorem PartsNumbered.commits {w : World} (h : PartsNumbered w.db) {bucket : BucketContext} {key : Text}
    {path : Option Text} {db' : Database} (hcommits : CommitsVersion (N := N) w bucket key path db') :
    PartsNumbered db' := by
  obtain ⟨call, versionId, values, -, -, -, rfl⟩ := hcommits
  obtain ⟨objects, objectVersions, hframe⟩ :=
    commitVersion_others call (N.now call) bucket.guid key versionId values w.db
  rw [hframe]
  exact h.congr rfl

abbrev KeepsNumbers {α : Type} (x : Service α) : Prop := Keeps (fun w => PartsNumbered w.db) x

theorem put_keepsNumbers (params : PutObjectParams) : KeepsNumbers (put N params) := fun w hw =>
  wp_mono (put_tables params w) (fun _ _ h => hw.commits h) fun _ _ h => hw.congr (by rw [h])

theorem delete_keepsNumbers (bucket : BucketContext) (key : Text) (versionId accessKeyId : Option Text) :
    KeepsNumbers (delete N bucket key versionId accessKeyId) := by
  intro w hw
  refine wp_mono (delete_tables (N := N) bucket key versionId accessKeyId w) ?_ ?_
  · intro _ w' h
    change PartsNumbered w'.db
    generalize w'.db = db' at h ⊢
    cases h with
    | absent => exact hw
    | @version o v =>
      obtain ⟨objects, objectVersions, hframe⟩ : ∃ objects objectVersions,
          removeVersion o.guid v.guid w.db = { w.db with objects, objectVersions } :=
        removeVersion_frame o.guid v.guid
      rw [hframe]
      exact hw.congr rfl
    | purged => exact hw.congr rfl
    | marked _ _ h => exact hw.commits h
  · intro _ w' h
    rw [h]
    exact hw

/-- **A part is stored under a number that was checked.** -/
theorem uploadPart_keepsNumbers (bucket : BucketContext) (uploadId : Text) (partNumber : ℤ)
    (stream : Readable) (contentMd5 : Option Text) (declaredLength maxBytes : Option ℕ) :
    KeepsNumbers (uploadPart N bucket uploadId partNumber stream contentMd5 declaredLength maxBytes) := by
  intro w hw
  have hchecked : wp (uploadPart N bucket uploadId partNumber stream contentMd5 declaredLength maxBytes)
      (fun _ _ => 1 ≤ partNumber ∧ partNumber ≤ 10000) (fun _ _ => True) w := by
    rw [uploadPart, wp_bind]
    refine wp_mono (requireUpload_spec w bucket.guid uploadId) (fun u w' _ => ?_) fun _ _ _ => trivial
    rw [wp_bind, wp_require]
    exact ⟨fun h => wp_of_forall (fun _ _ => h) fun _ _ => trivial, fun _ => trivial⟩
  refine wp_mono (wp_and hchecked (uploadPart_tables bucket uploadId partNumber stream contentMd5
    declaredLength maxBytes w)) ?_ fun _ _ h => hw.congr (by rw [h.2])
  rintro _ w' ⟨hrange, u, part, -, -, hnumber, -, hdb⟩
  rw [hdb]
  exact hw.upsertPart (hnumber ▸ hrange)

theorem create_keepsNumbers (bucket : BucketContext) (key : Text) (accessKeyId : Option Text)
    (headers : ObjectHeaders) : KeepsNumbers (createMultipartUpload N bucket key accessKeyId headers) := by
  intro w hw
  refine wp_mono (createMultipartUpload_tables bucket key accessKeyId headers w) ?_ fun _ _ h => h.elim
  rintro _ w' ⟨u, -, -, -, -, hdb⟩
  rw [hdb]
  exact hw.congr rfl

theorem complete_keepsNumbers (bucket : BucketContext) (uploadId : Text) (parts : List CompletePart) :
    KeepsNumbers (completeMultipartUpload N bucket uploadId parts) := by
  intro w hw
  refine wp_mono (completeMultipartUpload_tables bucket uploadId parts w) ?_
    fun _ _ h => hw.congr (by rw [h])
  rintro _ w' ⟨u, db', -, hcommits, hdb⟩
  rw [hdb]
  exact (hw.commits hcommits).closeUpload u.guid .completed

theorem abort_keepsNumbers (bucketGuid : Guid) (uploadId : Text) :
    KeepsNumbers (abortMultipartUpload bucketGuid uploadId) := by
  intro w hw
  refine wp_mono (abortMultipartUpload_tables bucketGuid uploadId w) ?_ fun _ _ h => hw.congr (by rw [h])
  rintro _ w' ⟨u, -, hdb⟩
  rw [hdb]
  exact hw.closeUpload u.guid .aborted

/-- **Every request leaves the parts numbered.** -/
theorem request_keepsNumbers (r : KeyRequest) : KeepsNumbers (r.program N) := by
  cases r with
  | object r =>
    cases r with
    | put params => exact (put_keepsNumbers params).bind fun _ => .pure ()
    | copy =>
      exact (copy_keeps (fun _ h => h) _ (fun params _ _ => put_keepsNumbers params) _ _ _).bind
        fun _ => .pure ()
    | delete => exact (delete_keepsNumbers _ _ _ _).bind fun _ => .pure ()
    | create => exact (create_keepsNumbers _ _ _ _).bind fun _ => .pure ()
    | uploadPart => exact (uploadPart_keepsNumbers _ _ _ _ _ _ _).bind fun _ => .pure ()
    | complete => exact (complete_keepsNumbers _ _ _).bind fun _ => .pure ()
    | abort => exact abort_keepsNumbers _ _
  | copyKeys =>
    exact (copyKeys_keeps (fun _ h => h) (fun params _ => put_keepsNumbers params)
      (fun _ => delete_keepsNumbers _ _ _ _) _ _ _).bind fun _ => .pure ()
  | createFolder =>
    exact (createFolder_keeps (fun params _ => put_keepsNumbers params) _ _).bind
      fun _ => .pure ()
  | deleteMany => exact (deleteMany_keeps fun _ _ => delete_keepsNumbers _ _ _ _).bind fun _ => .pure ()
  | deleteByPrefix =>
    exact (deleteByPrefix_keeps (fun _ => delete_keepsNumbers _ _ _ _) _).bind
      fun _ => .pure ()
  | uploadPartCopy =>
    exact (uploadPartCopy_keeps (fun _ => uploadPart_keepsNumbers _ _ _ _ _ _ _) _ _).bind
      fun _ => .pure ()

theorem requests_numbered {w : World} (hw : PartsNumbered w.db) (requests : List KeyRequest) :
    PartsNumbered (runAll (KeyRequest.program N) requests w).db :=
  runAll_keeps (KeyRequest.program N) (fun r _ w (h : PartsNumbered w.db) =>
    (request_keepsNumbers r).stateAfter h) hw

end Requests

/-! ## A client that follows the markers -/

/-- How a client stopped. -/
inductive WalkEnd where
  /-- The last page says that there are no more parts. -/
  | complete
  | failed (e : Fault)
  /-- The client sent as many requests as it meant to. -/
  | stopped
  deriving DecidableEq, Repr

section Walk

variable (N : Node) (bucketGuid : Guid) (uploadId : Text) (maxParts : Option ℤ)

/-- **The pages a client reads** that follows the markers, each with the state it was read in.
Before each of them others have some requests answered. -/
def walkParts : List (List KeyRequest) → Option ℤ → World → List (World × ListPartsResult) × WalkEnd
  | [], _, _ => ([], .stopped)
  | others :: turns, partNumberMarker, w =>
      match listParts bucketGuid uploadId { maxParts, partNumberMarker }
          (runAll (KeyRequest.program N) others w) with
      | .error e _ => ([], .failed e)
      | .ok (_, page) w' =>
          match page.nextPartNumberMarker with
          | none => ([(w', page)], .complete)
          | some m =>
              let rest := walkParts turns (some m) w'
              ((w', page) :: rest.1, rest.2)

/-- The parts an upload has in a state. -/
def partsIn (w : World) : List MultipartPartRow :=
  match findUpload bucketGuid uploadId w.db with
  | some u => orderedParts u.guid w.db
  | none => []

/-- What a page of the walk along the markers looks like. -/
def toListParts (page : Markers.Page MultipartPartRow ℤ) : ListPartsResult where
  parts := page.entries.map toPartItem
  isTruncated := page.next.isSome
  nextPartNumberMarker := page.next

end Walk

section Pages

variable {db : Database} (hdb : PartsNumbered db) (uploadGuid : Guid)
include hdb

/-- The parts of an upload are in ascending order of their numbers. -/
theorem orderedParts_pairwise : (orderedParts uploadGuid db).Pairwise fun p q => p.partNumber < q.partNumber := by
  have hsorted := List.pairwise_insertionSort (fun p q : MultipartPartRow => p.partNumber ≤ q.partNumber)
    (partsOf uploadGuid db)
  have hne : (orderedParts uploadGuid db).Pairwise fun p q => p.partNumber ≠ q.partNumber := by
    refine (List.Perm.pairwise_iff (fun h => Ne.symm h) (List.perm_insertionSort _ _).symm).mp ?_
    have hparts : (partsOf uploadGuid db).Pairwise fun p q =>
        (p.uploadGuid, p.partNumber) ≠ (q.uploadGuid, q.partNumber) :=
      (List.pairwise_map.mp hdb.distinct).filter _
    refine hparts.imp_of_mem fun {p q} hp hq h hnumber => h ?_
    rw [of_decide_eq_true (List.mem_filter.mp hp).2, of_decide_eq_true (List.mem_filter.mp hq).2, hnumber]
  exact hsorted.imp₂ (fun _ _ hle hne => lt_of_le_of_ne hle hne) hne

/-- **A page of `listParts` is a page behind the marker.** -/
theorem partsResult_eq (maxParts : Option ℤ) {marker : Option ℤ} (hmarker : ∀ m ∈ marker, m ≠ 0) :
    partsResult (resolveLimit maxParts) (fetchParts uploadGuid ⟨maxParts, marker⟩ db) =
      toListParts (Markers.page MultipartPartRow.partNumber (resolveLimit maxParts)
        (orderedParts uploadGuid db) marker) := by
  have hpresent : marker.filter (· ≠ 0) = marker := by
    cases marker with
    | none => rfl
    | some m => simpa using hmarker m rfl
  have hanti : ∀ p ∈ partsOf uploadGuid db, ∀ q ∈ partsOf uploadGuid db,
      p.partNumber ≤ q.partNumber → q.partNumber ≤ p.partNumber → p = q := by
    intro p hp q hq hpq hqp
    obtain ⟨hp, hpguid⟩ := List.mem_filter.mp hp
    obtain ⟨hq, hqguid⟩ := List.mem_filter.mp hq
    refine List.inj_on_of_nodup_map hdb.distinct hp hq ?_
    rw [of_decide_eq_true hpguid, of_decide_eq_true hqguid, le_antisymm hpq hqp]
  have hrows : ((partsOf uploadGuid db).filter (ListPartsQuery.admits ⟨maxParts, marker⟩)).insertionSort
      (·.partNumber ≤ ·.partNumber) =
      (orderedParts uploadGuid db).filter fun p => Markers.Behind MultipartPartRow.partNumber marker p := by
    rw [Collapse.insertionSort_filter hanti, orderedParts]
    refine List.filter_congr fun p _ => ?_
    rw [ListPartsQuery.admits, hpresent]
    cases marker with
    | none => simp [Markers.Behind]
    | some m => simp [Markers.Behind]
  rw [fetchParts, hrows, partsResult, Markers.page, toListParts]
  generalize (orderedParts uploadGuid db).filter
    (fun p => Markers.Behind MultipartPartRow.partNumber marker p) = rest
  have hlimit := resolveLimit_pos maxParts
  simp only [List.take_take, List.length_take, Nat.min_eq_left (Nat.le_succ (resolveLimit maxParts))]
  by_cases hmore : resolveLimit maxParts < rest.length
  · have hne : rest.take (resolveLimit maxParts) ≠ [] := by
      rw [← List.length_pos_iff, List.length_take]
      omega
    rw [if_pos (by omega), if_pos hmore, List.getLast?_eq_some_getLast hne]
    simp [hmore]
  · rw [if_neg (by omega), if_neg hmore]
    simp [not_lt.mp hmore]

end Pages

section Walk

variable {N : Node} {bucketGuid : Guid} {uploadId : Text} {maxParts : Option ℤ}

variable (bucketGuid uploadId maxParts) in
/-- What a client is answered. -/
theorem listParts_answer {w : World} (hw : PartsNumbered w.db) {marker : Option ℤ}
    (hmarker : ∀ m ∈ marker, m ≠ 0) :
    (findUpload bucketGuid uploadId w.db = none ∧
      ∃ e, listParts bucketGuid uploadId ⟨maxParts, marker⟩ w = .error e w) ∨
      ∃ key, listParts bucketGuid uploadId ⟨maxParts, marker⟩ w =
        .ok (key, toListParts (Markers.page MultipartPartRow.partNumber (resolveLimit maxParts)
          (partsIn bucketGuid uploadId w) marker)) w := by
  have hspec := listParts_spec bucketGuid uploadId ⟨maxParts, marker⟩ w
  rw [wp] at hspec
  cases hrun : listParts bucketGuid uploadId ⟨maxParts, marker⟩ w with
  | error e w' =>
    rw [hrun] at hspec
    exact .inl ⟨hspec.2.2, e, by rw [hspec.1]⟩
  | ok r w' =>
    rw [hrun] at hspec
    obtain ⟨rfl, u, hu, rfl⟩ := hspec
    refine .inr ⟨u.key, ?_⟩
    rw [partsResult_eq hw u.guid maxParts hmarker, partsIn, hu]

theorem partsIn_pairwise {w : World} (hw : PartsNumbered w.db) :
    (partsIn bucketGuid uploadId w).Pairwise fun p q => p.partNumber < q.partNumber := by
  rw [partsIn]
  cases findUpload bucketGuid uploadId w.db with
  | none => exact .nil
  | some u => exact orderedParts_pairwise hw u.guid

theorem partsIn_range {w : World} (hw : PartsNumbered w.db) :
    ∀ p ∈ partsIn bucketGuid uploadId w, 1 ≤ p.partNumber ∧ p.partNumber ≤ 10000 := by
  intro p hp
  rw [partsIn] at hp
  cases hu : findUpload bucketGuid uploadId w.db with
  | none =>
    rw [hu] at hp
    cases hp
  | some u =>
    rw [hu] at hp
    exact hw.range p (List.mem_filter.mp ((List.mem_insertionSort _).mp hp)).1

theorem flatMap_parts {pages : List (World × ListPartsResult)}
    {walked : List (Markers.Page MultipartPartRow ℤ)}
    (h : pages.map Prod.snd = walked.map toListParts) :
    (pages.flatMap fun p => p.2.parts) = (Markers.shown walked).map toPartItem := by
  rw [← List.flatMap_map Prod.snd ListPartsResult.parts, h, List.flatMap_map, Markers.shown, List.map_flatMap]
  rfl

variable (bucketGuid uploadId maxParts) in
/-- **The client walks along the markers**, through the parts there are at each of its requests. -/
structure WalksAlong (turns : List (List KeyRequest)) (marker : Option ℤ)
    (r : List (World × ListPartsResult) × WalkEnd) : Prop where
  numbered : ∀ p ∈ r.1, PartsNumbered p.1.db
  each : ∀ p ∈ r.1, ∃ marker', p.2 = toListParts (Markers.page MultipartPartRow.partNumber
    (resolveLimit maxParts) (partsIn bucketGuid uploadId p.1) marker')
  pages : r.1.map Prod.snd = (Markers.walk MultipartPartRow.partNumber (resolveLimit maxParts)
    (r.1.map fun p => partsIn bucketGuid uploadId p.1) marker).map toListParts
  ended : r.2 = .complete → r.1 ≠ [] ∧ Markers.Over (Markers.walk MultipartPartRow.partNumber
    (resolveLimit maxParts) (r.1.map fun p => partsIn bucketGuid uploadId p.1) marker)
  stopped : r.2 = .stopped → r.1.length = turns.length ∧ ∀ p ∈ r.1, p.2.nextPartNumberMarker.isSome

variable (bucketGuid uploadId maxParts) in
theorem walkParts_pages {w : World} (hw : PartsNumbered w.db) (turns : List (List KeyRequest))
    {marker : Option ℤ} (hmarker : ∀ m ∈ marker, m ≠ 0) :
    WalksAlong bucketGuid uploadId maxParts turns marker
      (walkParts N bucketGuid uploadId maxParts turns marker w) := by
  induction turns generalizing w marker with
  | nil => exact ⟨List.forall_mem_nil _, List.forall_mem_nil _, rfl, by simp [walkParts], fun _ => ⟨rfl, List.forall_mem_nil _⟩⟩
  | cons others turns ih =>
    have hw' := requests_numbered (N := N) hw others
    rw [walkParts]
    generalize runAll (KeyRequest.program N) others w = w' at hw' ⊢
    rcases listParts_answer bucketGuid uploadId maxParts hw' hmarker
      with ⟨-, e, hrun⟩ | ⟨key, hrun⟩
    · rw [hrun]
      exact ⟨List.forall_mem_nil _, List.forall_mem_nil _, rfl, by simp, by simp⟩
    rw [hrun]
    dsimp only
    cases hnext : (Markers.page MultipartPartRow.partNumber (resolveLimit maxParts)
        (partsIn bucketGuid uploadId w') marker).next with
    | none =>
      have hmatch : (toListParts (Markers.page MultipartPartRow.partNumber (resolveLimit maxParts)
          (partsIn bucketGuid uploadId w') marker)).nextPartNumberMarker = none := hnext
      rw [hmatch]
      have hwalk := Markers.walk_cons_of_none [] hnext
      refine ⟨by simpa using hw', by simpa using ⟨marker, rfl⟩, ?_, fun _ => ⟨by simp, ?_⟩, by simp⟩
      · simp [hwalk]
      · simp [hwalk, Markers.Over, hnext]
    | some m =>
      have hmatch : (toListParts (Markers.page MultipartPartRow.partNumber (resolveLimit maxParts)
          (partsIn bucketGuid uploadId w') marker)).nextPartNumberMarker = some m := hnext
      rw [hmatch]
      obtain ⟨-, last, hlast, hnumber⟩ := Markers.next_eq_some hnext
      have hrange := partsIn_range hw' last (Markers.mem_page (List.mem_of_getLast? hlast)).1
      obtain ⟨hnumbered, heach, hpages, hover, hstopped⟩ := ih hw'
        (show ∀ l ∈ some m, l ≠ 0 by simpa using by omega)
      dsimp only
      have hwalk := Markers.walk_cons_of_some ((walkParts N bucketGuid uploadId maxParts turns
        (some m) w').1.map fun p => partsIn bucketGuid uploadId p.1) hnext
      refine ⟨List.forall_mem_cons.mpr ⟨hw', hnumbered⟩, List.forall_mem_cons.mpr ⟨⟨marker, rfl⟩, heach⟩,
        ?_, fun h => ⟨List.cons_ne_nil _ _, ?_⟩, fun h => ?_⟩
      · rw [List.map_cons, List.map_cons, hwalk, List.map_cons, hpages]
      · obtain ⟨hne, hover⟩ := hover h
        rw [List.map_cons, hwalk]
        exact Markers.over_cons (Markers.walk_eq_nil.not.mpr (by simpa using hne)) hover
      · obtain ⟨hlength, hmore⟩ := hstopped h
        refine ⟨by rw [List.length_cons, List.length_cons, hlength], List.forall_mem_cons.mpr ⟨?_, hmore⟩⟩
        rw [hmatch]
        rfl

variable (N bucketGuid uploadId maxParts)

/-- **What a client knows that has followed the markers**: it was shown no number twice, only parts
that were stored at the time, and, once the list is over, each number that was stored throughout;
and it needed no more requests than fit the numbers there are. -/
structure PartsListed (turns : List (List KeyRequest)) (r : List (World × ListPartsResult) × WalkEnd) :
    Prop where
  ascending : ((r.1.flatMap fun p => p.2.parts).map (·.partNumber)).Pairwise (· < ·)
  stored : ∀ p ∈ r.1, ∀ item ∈ p.2.parts, ∃ part ∈ partsIn bucketGuid uploadId p.1, item = toPartItem part
  limit : ∀ p ∈ r.1, p.2.parts.length ≤ resolveLimit maxParts
  all : r.2 = .complete → ∀ n, (∀ p ∈ r.1, ∃ part ∈ partsIn bucketGuid uploadId p.1, part.partNumber = n) →
    ∃ item ∈ r.1.flatMap fun p => p.2.parts, item.partNumber = n
  ends : 10000 / resolveLimit maxParts < turns.length → r.2 ≠ .stopped

theorem walkParts_listed {w : World} (hw : PartsNumbered w.db) (turns : List (List KeyRequest)) :
    PartsListed bucketGuid uploadId maxParts turns
      (walkParts N bucketGuid uploadId maxParts turns none w) := by
  obtain ⟨hnumbered, heach, hpages, hover, hstopped⟩ := walkParts_pages (N := N)
    bucketGuid uploadId maxParts hw turns (show ∀ l ∈ none, l ≠ 0 by simp)
  generalize walkParts N bucketGuid uploadId maxParts turns none w = r
    at hnumbered heach hpages hover hstopped ⊢
  generalize hEs : (r.1.map fun p => partsIn bucketGuid uploadId p.1) = Es at hpages hover
  have hsorted : ∀ E ∈ Es, E.Pairwise fun p q => p.partNumber < q.partNumber := by
    rw [← hEs, List.forall_mem_map]
    exact fun p hp => partsIn_pairwise (hnumbered p hp)
  have hlimit := resolveLimit_pos maxParts
  have hshown := flatMap_parts hpages
  refine ⟨?_, ?_, ?_, fun hcomplete n hn => ?_, fun hturns hstop => ?_⟩
  · rw [hshown, List.map_map, List.pairwise_map]
    exact (Markers.pairwise_walk hsorted none).2
  · intro p hp item hitem
    obtain ⟨marker', hpage⟩ := heach p hp
    rw [hpage] at hitem
    obtain ⟨part, hpart, rfl⟩ := List.mem_map.mp hitem
    exact ⟨part, (Markers.mem_page hpart).1, rfl⟩
  · intro p hp
    obtain ⟨marker', hpage⟩ := heach p hp
    rw [hpage]
    exact (List.length_map ..).trans_le Markers.length_page_le
  · obtain ⟨hne, hover⟩ := hover hcomplete
    have hstays : ∀ E ∈ Es, ∃ part ∈ E, part.partNumber = n := by
      rw [← hEs, List.forall_mem_map]
      exact hn
    obtain ⟨part, hpart, hnumber⟩ := Markers.mem_walk hsorted hlimit hover
      (by rw [← hEs]; simpa using hne) (k := n) (by simp) fun E hE => hstays E (List.mem_of_mem_take hE)
    rw [hshown]
    exact ⟨toPartItem part, List.mem_map_of_mem hpart, hnumber⟩
  · obtain ⟨hlength, hmore⟩ := hstopped hstop
    have hcount := Markers.countP_walk_le hsorted (L := resolveLimit maxParts)
      (K := Finset.Icc (1 : ℤ) 10000) (by
        rw [← hEs, List.forall_mem_map]
        exact fun p hp part hpart => Finset.mem_Icc.mpr (partsIn_range (hnumbered p hp) part hpart)) none
    have hall : (Markers.walk MultipartPartRow.partNumber (resolveLimit maxParts) Es none).countP
        (·.next.isSome) = turns.length := by
      have hpages' := congrArg (List.countP (·.nextPartNumberMarker.isSome)) hpages
      rw [List.countP_map, List.countP_map] at hpages'
      rw [← hlength]
      refine hpages'.symm.trans (List.countP_eq_length.mpr hmore)
    rw [hall, show (Finset.Icc (1 : ℤ) 10000).card = 10000 from by simp] at hcount
    have := (Nat.le_div_iff_mul_le hlimit).mpr (Nat.mul_comm _ _ ▸ hcount)
    omega

/-- **Listing parts while others store them.**  Whatever is asked for between the pages, a client that
follows the markers is shown every number at most once and every part that stays, and it comes to
an end. -/
theorem parts_listed {w : World} (hempty : Empty w.db) (turns : List (List KeyRequest)) :
    PartsListed bucketGuid uploadId maxParts turns
      (walkParts N bucketGuid uploadId maxParts turns none w) :=
  walkParts_listed N bucketGuid uploadId maxParts (PartsNumbered.of_empty hempty) turns

end Walk

/-- An upload of which two parts are stored before the first page, and a third before the second. -/
def storedBetween : List (List KeyRequest) :=
  let uploadId := Codec.base64url.encode (Node.counting.randomBytes 0 24)
  let part (n : ℤ) : KeyRequest := .object (.uploadPart openContext uploadId n ⟨[[1]], false⟩ none none none)
  [[.object (.create openContext ['a'] none {}), part 7, part 3], [part 5], []]

theorem parts_listed_storedBetween :
    PartsListed openContext.guid (Codec.base64url.encode (Node.counting.randomBytes 0 24)) (some 1) storedBetween
      (walkParts Node.counting openContext.guid (Codec.base64url.encode (Node.counting.randomBytes 0 24))
        (some 1) storedBetween none emptyStore) :=
  parts_listed _ _ _ _ ⟨rfl, rfl, rfl, rfl⟩ storedBetween

/-! ## Completing an upload as it was listed -/

/-- The list a client completes an upload with, made of what it was shown.  Etags are quoted there. -/
def asListed (items : List PartItem) : List CompletePart :=
  items.map fun item => ⟨item.partNumber, '"' :: item.etag ++ ['"']⟩

/-- There are parts, and all but the last are long enough. -/
def LongEnough (items : List PartItem) : Prop :=
  items ≠ [] ∧ ∀ item ∈ items.dropLast, minPartSize ≤ item.size

instance (items : List PartItem) : Decidable (LongEnough items) := inferInstanceAs (Decidable (_ ∧ _))

section Complete

variable {N : Node} {bucketGuid : Guid} {uploadId : Text} {maxParts : Option ℤ} {w : World}

variable (maxParts) in
/-- While nobody else does anything, all pages are read in one state, and none is refused. -/
theorem walkParts_undisturbed {u : MultipartUploadRow} (hu : findUpload bucketGuid uploadId w.db = some u)
    (hw : PartsNumbered w.db) (n : ℕ) {marker : Option ℤ} (hmarker : ∀ m ∈ marker, m ≠ 0) :
    (∀ p ∈ (walkParts N bucketGuid uploadId maxParts (List.replicate n []) marker w).1, p.1 = w) ∧
      ∀ e, (walkParts N bucketGuid uploadId maxParts (List.replicate n []) marker w).2 ≠ .failed e := by
  induction n generalizing marker with
  | zero => exact ⟨List.forall_mem_nil _, by simp [walkParts]⟩
  | succ n ih =>
    rw [List.replicate_succ, walkParts, runAll_nil]
    rcases listParts_answer bucketGuid uploadId maxParts hw hmarker
      with ⟨hnone, -⟩ | ⟨key, hrun⟩
    · rw [hu] at hnone
      cases hnone
    rw [hrun]
    dsimp only
    cases hnext : (toListParts (Markers.page MultipartPartRow.partNumber (resolveLimit maxParts)
        (partsIn bucketGuid uploadId w) marker)).nextPartNumberMarker with
    | none => simp
    | some m =>
      obtain ⟨-, last, hlast, hnumber⟩ := Markers.next_eq_some hnext
      have hrange := partsIn_range hw last (Markers.mem_page (List.mem_of_getLast? hlast)).1
      obtain ⟨hsame, hok⟩ := ih (show ∀ l ∈ some m, l ≠ 0 by simpa using by omega)
      exact ⟨List.forall_mem_cons.mpr ⟨rfl, hsame⟩, hok⟩

/-- **What is listed then are the parts**, in the order of their numbers. -/
theorem exists_listed {u : MultipartUploadRow} (hu : findUpload bucketGuid uploadId w.db = some u)
    (hw : PartsNumbered w.db) (maxParts : Option ℤ) : ∃ turns pages,
      walkParts N bucketGuid uploadId maxParts (List.replicate turns []) none w = (pages, .complete) ∧
      (pages.flatMap fun p => p.2.parts) = (orderedParts u.guid w.db).map toPartItem := by
  obtain ⟨turns, hturns⟩ : ∃ turns, 10000 / resolveLimit maxParts < turns := ⟨_, Nat.lt_succ_self _⟩
  obtain ⟨hsame, hok⟩ := walkParts_undisturbed (N := N) maxParts hu hw turns
    (show ∀ l ∈ none, l ≠ 0 by simp)
  have hends := (walkParts_listed N bucketGuid uploadId maxParts hw (List.replicate turns [])).ends
    (by rwa [List.length_replicate])
  obtain ⟨-, -, hpages, hover, -⟩ := walkParts_pages (N := N)
    bucketGuid uploadId maxParts hw (List.replicate turns []) (show ∀ l ∈ none, l ≠ 0 by simp)
  generalize hwalk : walkParts N bucketGuid uploadId maxParts (List.replicate turns []) none w = r
    at hsame hok hends hpages hover
  obtain ⟨pages, stop⟩ := r
  obtain rfl : stop = .complete := by
    cases stop with
    | complete => rfl
    | failed e => exact absurd rfl (hok e)
    | stopped => exact absurd rfl hends
  refine ⟨turns, pages, hwalk, ?_⟩
  obtain ⟨hne, hover⟩ := hover rfl
  have hpartsIn : (pages.map fun p => partsIn bucketGuid uploadId p.1) =
      List.replicate pages.length (orderedParts u.guid w.db) := by
    refine List.eq_replicate_iff.mpr ⟨List.length_map .., List.forall_mem_map.mpr fun p hp => ?_⟩
    rw [hsame p hp, partsIn, hu]
  dsimp only at hpages hover
  rw [hpartsIn] at hpages hover
  rw [flatMap_parts hpages, Markers.shown_walk_replicate (resolveLimit_pos maxParts)
    (orderedParts_pairwise hw u.guid) (List.length_pos_iff.mpr hne).ne' hover]
  simp [Markers.Behind]

/-- What stands under the numbers of the listed parts. -/
theorem listed_part (hw : Inv N w) {u : MultipartUploadRow} {part : MultipartPartRow}
    (hpart : part ∈ orderedParts u.guid w.db) : ∃ content,
      (pendingUpload N w u).parts part.partNumber = some content ∧ part.size = content.length ∧
      part.etag = Codec.hex (N.md5 content) := by
  obtain ⟨hmem, hguid⟩ := List.mem_filter.mp ((List.mem_insertionSort _).mp hpart)
  obtain ⟨content, hcontent, hsize, hetag⟩ := (hw.parts part hmem).readable
  refine ⟨content, ?_, hsize, hetag⟩
  change (findPart u.guid part.partNumber w.db).bind _ = some content
  rw [(findPart_eq_some hw.part_number).mpr ⟨hmem, of_decide_eq_true hguid, rfl⟩, Option.bind_some, hcontent]

theorem quoted_filter (content : Bytes) :
    ('"' :: Codec.hex (N.md5 content) ++ ['"']).filter (· ≠ '"') = Codec.hex (N.md5 content) := by
  have hdigits : ∀ c ∈ Codec.hex (N.md5 content), c ≠ '"' := by
    intro c hc
    obtain ⟨n, hn, rfl⟩ := Codec.hexDigit_of_mem_hex hc
    interval_cases n <;> decide
  simpa [List.filter_eq_self] using hdigits

/-- **When the listed parts can be put together**: when there are any, and all but the last are long
enough. -/
theorem completable_asListed (hw : Inv N w) (hnumbered : PartsNumbered w.db) (u : MultipartUploadRow) :
    Completable N (pendingUpload N w u).parts (asListed ((orderedParts u.guid w.db).map toPartItem)) ↔
      LongEnough ((orderedParts u.guid w.db).map toPartItem) := by
  have hsorted := orderedParts_pairwise hnumbered u.guid
  have hpart : ∀ p ∈ orderedParts u.guid w.db, _ := fun p hp => listed_part hw hp
  generalize orderedParts u.guid w.db = parts at hsorted hpart ⊢
  have hdropLast : ∀ p ∈ parts.dropLast, (∀ content, (pendingUpload N w u).parts p.partNumber = some content →
      minPartSize ≤ content.length) ↔ minPartSize ≤ p.size := by
    intro p hp
    obtain ⟨content, hcontent, hsize, -⟩ := hpart p (List.mem_of_mem_dropLast hp)
    rw [hcontent, hsize]
    simp
  constructor
  · rintro ⟨hne, -, -, hsizes⟩
    refine ⟨by simpa [asListed] using hne, ?_⟩
    rw [← List.map_dropLast, List.forall_mem_map]
    intro p hp
    refine (hdropLast p hp).mp (hsizes ⟨p.partNumber, '"' :: p.etag ++ ['"']⟩ ?_)
    rw [asListed, List.map_map, ← List.map_dropLast]
    exact List.mem_map.mpr ⟨p, hp, rfl⟩
  · rintro ⟨hne, hsizes⟩
    rw [← List.map_dropLast, List.forall_mem_map] at hsizes
    refine ⟨by simpa [asListed] using hne, ?_, ?_, ?_⟩
    · rw [asListed, List.map_map, List.map_map, List.pairwise_map]
      exact hsorted
    · rw [asListed, List.map_map, List.forall_mem_map]
      intro p hp
      obtain ⟨content, hcontent, -, hetag⟩ := hpart p hp
      refine ⟨content, hcontent, ?_⟩
      show ('"' :: p.etag ++ ['"']).filter (· ≠ '"') = _
      rw [hetag, quoted_filter]
    · rw [asListed, List.map_map, ← List.map_dropLast, List.forall_mem_map]
      exact fun p hp => (hdropLast p hp).mpr (hsizes p hp)

variable (N w maxParts) in
/-- A client lists the parts of an upload, in pages, and completes the upload with just these.  It gets
the contents of all parts in a row, in the order of their numbers, unless there is no part or one
that is not the last is too short; then it is refused, and nothing changes. -/
def CompletesAsListed (bucket : BucketContext) (uploadId : Text) (u : PendingUpload) : Prop :=
  ∃ turns pages, walkParts N bucket.guid uploadId maxParts (List.replicate turns []) none w =
      (pages, .complete) ∧
    let items := pages.flatMap fun p => p.2.parts
    (∀ n, (∃ item ∈ items, item.partNumber = n) ↔ (u.parts n).isSome) ∧
    wp (completeMultipartUpload N bucket uploadId (asListed items))
      (fun r w' => LongEnough items ∧
        Effect N w w' (VersionedMap.write (·.versionId) (bucket.versioning ≠ .enabled) (bucket.guid, u.key)
          ⟨r.versionId, r.etag, u.headers,
            some (items.map fun item => (u.parts item.partNumber).getD []).flatten⟩ (versions N w))
          (Function.update (pending N w) (bucket.guid, uploadId) none))
      (fun _ w' => ¬ LongEnough items ∧ Unchanged N w w') w

/-- **An upload is completed as it was listed**, after any run and with pages of any size. -/
theorem listed_completes {w₀ : World} (hempty : Empty w₀.db) (before : List KeyRequest)
    (hdistinct : N.Distinct ((runAll (KeyRequest.program N) before w₀).calls + callsPerRequest))
    (bucket : BucketContext) (uploadId : Text) (maxParts : Option ℤ) {u : PendingUpload}
    (hu : pending N (runAll (KeyRequest.program N) before w₀) (bucket.guid, uploadId) = some u) :
    CompletesAsListed N maxParts (runAll (KeyRequest.program N) before w₀) bucket uploadId u := by
  have hinv := runAll_inv hempty hdistinct
  have hnumbered := requests_numbered (N := N) (PartsNumbered.of_empty hempty) before
  generalize runAll (KeyRequest.program N) before w₀ = w at hinv hnumbered hdistinct hu ⊢
  obtain ⟨row, hrow, rfl⟩ := Option.map_eq_some_iff.mp hu
  obtain ⟨turns, pages, hwalk, hitems⟩ := exists_listed (N := N) hrow hnumbered maxParts
  refine ⟨turns, pages, hwalk, ?_⟩
  dsimp only
  rw [hitems]
  have hcompletable := completable_asListed hinv hnumbered row
  refine ⟨fun n => ?_, ?_⟩
  · constructor
    · rintro ⟨item, hitem, rfl⟩
      obtain ⟨part, hpart, rfl⟩ := List.mem_map.mp hitem
      obtain ⟨content, hcontent, -⟩ := listed_part hinv hpart
      exact Option.isSome_iff_exists.mpr ⟨content, hcontent⟩
    · intro hsome
      obtain ⟨content, hcontent⟩ := Option.isSome_iff_exists.mp hsome
      obtain ⟨part, hpart, -⟩ := Option.bind_eq_some_iff.mp hcontent
      obtain ⟨hmem, hguid, hnumber⟩ := (findPart_eq_some hinv.part_number).mp hpart
      refine ⟨toPartItem part, List.mem_map_of_mem ?_, hnumber⟩
      exact (List.mem_insertionSort _).mpr (List.mem_filter.mpr ⟨hmem, decide_eq_true hguid⟩)
  refine wp_mono (completeMultipartUpload_spec hinv (hdistinct.mono (by simp [callsPerRequest])) bucket
    uploadId _) ?_ ?_
  · rintro r w' ⟨u, contents, hu', hcan, hlisted, -, -, -, -, heffect⟩
    obtain rfl : pendingUpload N w row = u := Option.some.inj (hu.symm.trans hu')
    obtain ⟨rfl, -⟩ := contents_of_listed hlisted
    refine ⟨hcompletable.mp hcan, ?_⟩
    simpa [asListed, List.map_map, Function.comp_def] using heffect
  · rintro e w' ⟨hunchanged, ⟨-, hnone⟩ | ⟨-, hnot⟩⟩
    · rw [hu] at hnone
      cases hnone
    · exact ⟨fun h => hnot _ hu (hcompletable.mpr h), hunchanged⟩

theorem listed_completes_storedBetween : ∃ u,
    pending Node.counting (runAll (KeyRequest.program Node.counting) storedBetween.flatten emptyStore)
      (openContext.guid, Codec.base64url.encode (Node.counting.randomBytes 0 24)) = some u ∧
    CompletesAsListed Node.counting (some 1)
      (runAll (KeyRequest.program Node.counting) storedBetween.flatten emptyStore) openContext
      (Codec.base64url.encode (Node.counting.randomBytes 0 24)) u := by
  obtain ⟨u, hu⟩ : ∃ u, pending Node.counting
      (runAll (KeyRequest.program Node.counting) storedBetween.flatten emptyStore)
      (openContext.guid, Codec.base64url.encode (Node.counting.randomBytes 0 24)) = some u :=
    Option.isSome_iff_exists.mp (by decide +kernel)
  exact ⟨u, hu, listed_completes ⟨rfl, rfl, rfl, rfl⟩ storedBetween.flatten
    (Node.distinct_counting.mono (by decide +kernel)) openContext _ (some 1) hu⟩

end Complete

end ObjectsService
end SimpleStorage
