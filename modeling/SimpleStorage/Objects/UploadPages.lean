import SimpleStorage.Objects.ListPages

/-!
# A page of `listMultipartUploads`

The uploads of a bucket that are in progress are listed by key and, within a key, by upload
id.  How the database orders upload ids is a parameter, `idLe`: the query names no collation
for them.

`listMultipartUploads` reads one batch of fixed size, from the key of the marker on, and passes
over it up to the marked upload.  The slice it should show is `uploadEntries`: what a listing of
the uploads strictly behind the marker shows.

* `listMultipartUploads_spec`: the page shows the first entries that begin in `uploadBatch`, the
  part of the batch behind the marked upload.
* `batch_isPrefix`: unless uploads of a key named without an upload id are shown again
  (`MarkedKeyPassed`), these are the first entries of the slice.
* `uploadEntries_behind`: behind an upload that is shown, the listing goes on as it should.
* `rightSlice_iff`: when the page is the slice.
-/

namespace SimpleStorage
namespace ObjectsService

open Query Collapse

/-! ## `listMultipartUploads` -/

structure ListUploadsQuery where
  bucketGuid : Guid
  pre : Option Text := none
  delimiter : Option Text := none
  maxUploads : Option ℤ := none
  keyMarker : Option Text := none
  uploadIdMarker : Option Text := none
  deriving DecidableEq

structure MultipartUploadItem where
  uploadId : Text
  key : Text
  storageClass : StorageClass
  initiatedAt : Timestamp
  deriving DecidableEq, Repr

structure ListMultipartUploadsResult where
  uploads : List MultipartUploadItem
  commonPrefixes : List Text
  isTruncated : Bool
  nextKeyMarker : Option Text
  nextUploadIdMarker : Option Text
  deriving DecidableEq, Repr

def toMultipartUploadItem (row : MultipartUploadRow) : MultipartUploadItem where
  uploadId := row.uploadId
  key := row.key
  storageClass := row.headers.storageClass
  initiatedAt := row.createdAt

section Query

variable (idLe : Text → Text → Prop) [DecidableRel idLe]

/-- The order of `ORDER BY key COLLATE "C" ASC, upload_id ASC`. -/
def uploadOrder (r s : MultipartUploadRow) : Prop :=
  Utf8.encode r.key < Utf8.encode s.key ∨ (r.key = s.key ∧ idLe r.uploadId s.uploadId)

instance : DecidableRel (uploadOrder idLe) := fun _ _ => inferInstanceAs (Decidable (_ ∨ _))

def ListUploadsQuery.admits (q : ListUploadsQuery) (row : MultipartUploadRow) : Bool :=
  row.bucketGuid = q.bucketGuid && row.status = .inProgress
    && (present q.pre).all (likePrefix row.key)
    && (present q.keyMarker).all (collatedGreaterOrEqual row.key)

/-- The one batch a page is made of. -/
def fetchUploads (db : Database) (q : ListUploadsQuery) : List MultipartUploadRow :=
  ((db.multipartUploads.filter q.admits).insertionSort (uploadOrder idLe)).take
    (resolveLimit q.maxUploads * 2 + 1)

/-- The local variables of `listMultipartUploads`. -/
structure UploadsState where
  uploads : List MultipartUploadItem := []
  commonPrefixes : List Text := []
  skipping : Bool
  isTruncated : Bool := false
  last : Option MultipartUploadItem := none

def UploadsState.count (s : UploadsState) : ℕ := s.uploads.length + s.commonPrefixes.length

/-- The upload the markers name. -/
def ListUploadsQuery.Marks (q : ListUploadsQuery) (row : MultipartUploadRow) : Prop :=
  q.keyMarker = some row.key ∧ q.uploadIdMarker = some row.uploadId

instance (q : ListUploadsQuery) : DecidablePred q.Marks :=
  fun _ => inferInstanceAs (Decidable (_ ∧ _))

/-- The loop over the rows; it ends early at the first entry past the page. -/
def uploadsLoop (q : ListUploadsQuery) (limit : ℕ) :
    List MultipartUploadRow → UploadsState → UploadsState
  | [], s => s
  | row :: rows, s =>
      if s.skipping then
        if q.Marks row then uploadsLoop q limit rows { s with skipping := false }
        else uploadsLoop q limit rows s
      else
        match groupOf q.pre q.delimiter row.key with
        | some commonPrefix =>
            if commonPrefix ∈ s.commonPrefixes then uploadsLoop q limit rows s
            else if limit ≤ s.count then { s with isTruncated := true }
            else uploadsLoop q limit rows
              { s with commonPrefixes := s.commonPrefixes ++ [commonPrefix] }
        | none =>
            if limit ≤ s.count then { s with isTruncated := true }
            else uploadsLoop q limit rows
              { s with
                uploads := s.uploads ++ [toMultipartUploadItem row]
                last := some (toMultipartUploadItem row) }

def uploadsStart (q : ListUploadsQuery) : UploadsState where
  skipping := (present q.keyMarker).isSome && (present q.uploadIdMarker).isSome

def listMultipartUploads (db : Database) (q : ListUploadsQuery) : ListMultipartUploadsResult :=
  let s := uploadsLoop q (resolveLimit q.maxUploads) (fetchUploads idLe db q) (uploadsStart q)
  { uploads := s.uploads
    commonPrefixes := s.commonPrefixes
    isTruncated := s.isTruncated
    nextKeyMarker := if s.isTruncated then s.last.map (·.key) else none
    nextUploadIdMarker := if s.isTruncated then s.last.map (·.uploadId) else none }

end Query

/-! ## The slice a page should be -/

section Slice

variable (idLe : Text → Text → Prop) [DecidableRel idLe]

/-- Strictly behind in the order of keys and upload ids. -/
def BehindUpload (key uploadId : Text) (row : MultipartUploadRow) : Prop :=
  key < row.key ∨ (key = row.key ∧ idLe uploadId row.uploadId ∧ uploadId ≠ row.uploadId)

instance (key uploadId : Text) : DecidablePred (BehindUpload idLe key uploadId) :=
  fun _ => inferInstanceAs (Decidable (_ ∨ _))

/-- Strictly behind the marker; without an upload id, behind every upload of the key. -/
def BehindMarker (q : ListUploadsQuery) (row : MultipartUploadRow) : Prop :=
  match present q.keyMarker, present q.uploadIdMarker with
  | none, _ => True
  | some key, none => key < row.key
  | some key, some uploadId => BehindUpload idLe key uploadId row

instance (q : ListUploadsQuery) : DecidablePred (BehindMarker idLe q) := fun row =>
  match h : present q.keyMarker, h' : present q.uploadIdMarker with
  | none, _ => .isTrue (by simp [BehindMarker, h])
  | some key, none =>
      decidable_of_iff (key < row.key) (by simp [BehindMarker, h, h'])
  | some key, some uploadId =>
      decidable_of_iff (BehindUpload idLe key uploadId row) (by simp [BehindMarker, h, h'])

/-- The uploads in progress a listing under a prefix is about, in their order. -/
def uploadsUnder (db : Database) (bucketGuid : Guid) (pre : Option Text) :
    List MultipartUploadRow :=
  (db.multipartUploads.filter fun row => row.bucketGuid = bucketGuid && row.status = .inProgress
    && (present pre).all (likePrefix row.key)).insertionSort (uploadOrder idLe)

/-- What a listing of some uploads shows. -/
abbrev uploadListing (q : ListUploadsQuery) (rows : List MultipartUploadRow) :
    List (Entry MultipartUploadRow Char) :=
  collapse (folding q.pre q.delimiter) MultipartUploadRow.key rows

/-- The entries behind the marker. -/
def uploadEntries (db : Database) (q : ListUploadsQuery) : List (Entry MultipartUploadRow Char) :=
  uploadListing q ((uploadsUnder idLe db q.bucketGuid q.pre).filter (BehindMarker idLe q))

/-- **A page is the right slice**: it shows the first `limit` entries behind the marker, says
whether there are more, and if so names an upload the rest is behind. -/
structure RightSlice (db : Database) (q : ListUploadsQuery) (limit : ℕ)
    (r : ListMultipartUploadsResult) : Prop where
  uploads : r.uploads =
    (items ((uploadEntries idLe db q).take limit)).map toMultipartUploadItem
  commonPrefixes : r.commonPrefixes = folders ((uploadEntries idLe db q).take limit)
  isTruncated : r.isTruncated = true ↔ limit < (uploadEntries idLe db q).length
  markers : r.isTruncated = true → ∃ key uploadId,
    r.nextKeyMarker = some key ∧ r.nextUploadIdMarker = some uploadId ∧
    uploadEntries idLe db { q with keyMarker := some key, uploadIdMarker := some uploadId } =
      (uploadEntries idLe db q).drop limit

end Slice

/-! ## The order of uploads -/

section Order

variable {idLe : Text → Text → Prop}

theorem uploadOrder_iff {r s : MultipartUploadRow} :
    uploadOrder idLe r s ↔ r.key < s.key ∨ (r.key = s.key ∧ idLe r.uploadId s.uploadId) := by
  rw [uploadOrder, Utf8.encode_lt_encode_iff]

instance [Std.Total idLe] : Std.Total (uploadOrder idLe) := ⟨fun r s => by
  rw [uploadOrder_iff, uploadOrder_iff]
  rcases lt_trichotomy r.key s.key with h | h | h
  · exact Or.inl (Or.inl h)
  · rcases Std.Total.total (r := idLe) r.uploadId s.uploadId with hle | hle
    · exact Or.inl (Or.inr ⟨h, hle⟩)
    · exact Or.inr (Or.inr ⟨h.symm, hle⟩)
  · exact Or.inr (Or.inl h)⟩

instance [IsTrans Text idLe] : IsTrans MultipartUploadRow (uploadOrder idLe) := ⟨fun r s t hrs hst => by
  rw [uploadOrder_iff] at *
  rcases hrs with hrs | ⟨hrs, hrs'⟩ <;> rcases hst with hst | ⟨hst, hst'⟩
  · exact Or.inl (hrs.trans hst)
  · exact Or.inl (hst ▸ hrs)
  · exact Or.inl (hrs ▸ hst)
  · exact Or.inr ⟨hrs.trans hst, trans_of idLe hrs' hst'⟩⟩

theorem BehindUpload.key_le {key uploadId : Text} {row : MultipartUploadRow}
    (h : BehindUpload idLe key uploadId row) : key ≤ row.key :=
  h.elim le_of_lt fun h => h.1.le

theorem not_behindUpload_self (row : MultipartUploadRow) :
    ¬ BehindUpload idLe row.key row.uploadId row := by
  intro h
  rcases h with h | ⟨-, -, h⟩
  · exact lt_irrefl _ h
  · exact h rfl

variable [Std.Antisymm idLe]

theorem uploadOrder_tie {r s : MultipartUploadRow} (h : uploadOrder idLe r s)
    (h' : uploadOrder idLe s r) : r.uploadId = s.uploadId := by
  rcases uploadOrder_iff.mp h with h | ⟨hkey, h⟩ <;>
    rcases uploadOrder_iff.mp h' with h' | ⟨hkey', h'⟩
  · exact absurd h h'.asymm
  · exact absurd (hkey' ▸ h) (lt_irrefl _)
  · exact absurd (hkey ▸ h') (lt_irrefl _)
  · exact antisymm_of idLe h h'

/-- Of two uploads only one is behind the other. -/
theorem BehindUpload.asymm {r s : MultipartUploadRow} (h : BehindUpload idLe r.key r.uploadId s) :
    ¬ BehindUpload idLe s.key s.uploadId r := by
  intro h'
  rcases h with h | ⟨hkey, hle, hne⟩ <;> rcases h' with h' | ⟨hkey', hle', -⟩
  · exact h.asymm h'
  · exact lt_irrefl _ (hkey' ▸ h)
  · exact lt_irrefl _ (hkey ▸ h')
  · exact hne (antisymm_of idLe hle hle')

theorem BehindUpload.trans [IsTrans Text idLe] {key uploadId : Text} {r s : MultipartUploadRow}
    (h : BehindUpload idLe key uploadId r) (h' : BehindUpload idLe r.key r.uploadId s) :
    BehindUpload idLe key uploadId s := by
  rcases h with h | ⟨hkey, hle, hne⟩ <;> rcases h' with h' | ⟨hkey', hle', -⟩
  · exact Or.inl (h.trans h')
  · exact Or.inl (hkey' ▸ h)
  · exact Or.inl (hkey ▸ h')
  · refine Or.inr ⟨hkey.trans hkey', trans_of idLe hle hle', fun heq => hne ?_⟩
    exact antisymm_of idLe hle (heq ▸ hle')

/-- What is behind an upload behind the marker is behind the marker. -/
theorem BehindMarker.trans [IsTrans Text idLe] {q : ListUploadsQuery} {r s : MultipartUploadRow}
    (h : BehindMarker idLe q r) (h' : BehindUpload idLe r.key r.uploadId s) :
    BehindMarker idLe q s := by
  unfold BehindMarker at *
  cases hkey : present q.keyMarker with
  | none => trivial
  | some key =>
    rw [hkey] at h
    cases hid : present q.uploadIdMarker with
    | none =>
      rw [hid] at h
      exact lt_of_lt_of_le h h'.key_le
    | some uploadId =>
      rw [hid] at h
      exact BehindUpload.trans h h'

end Order

/-! ## The uploads in progress -/

/-- What the schema and the service promise about uploads: no key and no upload id is empty, and
no upload id is used twice. -/
structure UploadSnapshot (db : Database) : Prop where
  key_ne_nil : ∀ row ∈ db.multipartUploads, row.key ≠ []
  uploadId_ne_nil : ∀ row ∈ db.multipartUploads, row.uploadId ≠ []
  uploadId_nodup : (db.multipartUploads.map (·.uploadId)).Nodup

section Rows

variable {idLe : Text → Text → Prop} [DecidableRel idLe]
variable {db : Database} {q : ListUploadsQuery}

theorem mem_uploadsUnder {bucketGuid : Guid} {pre : Option Text} {row : MultipartUploadRow} :
    row ∈ uploadsUnder idLe db bucketGuid pre ↔ row ∈ db.multipartUploads ∧
      row.bucketGuid = bucketGuid ∧ row.status = .inProgress ∧ pre.getD [] <+: row.key := by
  rw [uploadsUnder, List.mem_insertionSort, List.mem_filter, Bool.and_eq_true, Bool.and_eq_true,
    decide_eq_true_iff, decide_eq_true_iff, all_likePrefix_iff, and_assoc]

/-- The rows from the key of the marker on; all of them without one. -/
def uploadsFrom (marker : Option Text) (rows : List MultipartUploadRow) : List MultipartUploadRow :=
  rows.filter fun row => (present marker).all fun m => decide (m ≤ row.key)

variable [Std.Total idLe] [IsTrans Text idLe]

variable (idLe) in
/-- Uploads in progress are listed strictly in order. -/
theorem uploadsUnder_pairwise (hdb : UploadSnapshot db) (bucketGuid : Guid) (pre : Option Text) :
    (uploadsUnder idLe db bucketGuid pre).Pairwise fun r s =>
      BehindUpload idLe r.key r.uploadId s := by
  have hsorted := List.pairwise_insertionSort (uploadOrder idLe)
    (db.multipartUploads.filter fun row => row.bucketGuid = bucketGuid && row.status = .inProgress
      && (present pre).all (likePrefix row.key))
  have hne : (uploadsUnder idLe db bucketGuid pre).Pairwise fun r s => r.uploadId ≠ s.uploadId := by
    refine (List.Perm.pairwise_iff (fun h => Ne.symm h)
      (List.perm_insertionSort (uploadOrder idLe) _).symm).mp ?_
    exact (List.pairwise_map.mp hdb.uploadId_nodup).filter _
  refine hsorted.imp₂ (fun r s h hne => ?_) hne
  rcases uploadOrder_iff.mp h with hlt | ⟨hkey, hle⟩
  · exact Or.inl hlt
  · exact Or.inr ⟨hkey, hle, hne⟩

variable (idLe) in
theorem uploadsUnder_pairwise_key (hdb : UploadSnapshot db) (bucketGuid : Guid)
    (pre : Option Text) :
    (uploadsUnder idLe db bucketGuid pre).Pairwise fun r s => r.key ≤ s.key :=
  (uploadsUnder_pairwise idLe hdb bucketGuid pre).imp BehindUpload.key_le

variable [Std.Antisymm idLe]

variable (idLe) in
/-- **The batch is the first uploads from the key of the marker on.** -/
theorem fetchUploads_eq (hdb : UploadSnapshot db) (q : ListUploadsQuery) :
    fetchUploads idLe db q =
      (uploadsFrom q.keyMarker (uploadsUnder idLe db q.bucketGuid q.pre)).take
        (resolveLimit q.maxUploads * 2 + 1) := by
  have hsplit : db.multipartUploads.filter q.admits =
      (db.multipartUploads.filter fun row => row.bucketGuid = q.bucketGuid
        && row.status = .inProgress && (present q.pre).all (likePrefix row.key)).filter
        fun row => (present q.keyMarker).all fun m => decide (m ≤ row.key) := by
    rw [List.filter_filter]
    refine List.filter_congr fun row _ => ?_
    have hmarker : (present q.keyMarker).all (collatedGreaterOrEqual row.key) =
        (present q.keyMarker).all fun m => decide (m ≤ row.key) := by
      refine congrArg (present q.keyMarker).all (funext fun m => ?_)
      rw [Bool.eq_iff_iff, collatedGreaterOrEqual_iff, decide_eq_true_iff]
    rw [ListUploadsQuery.admits, hmarker, Bool.and_comm]
  rw [fetchUploads, hsplit, insertionSort_filter]
  · rfl
  · intro a ha b hb hab hba
    exact List.inj_on_of_nodup_map hdb.uploadId_nodup (List.mem_filter.mp ha).1
      (List.mem_filter.mp hb).1 (uploadOrder_tie hab hba)

end Rows

/-! ## The loop -/

/-- What the local variables say when `es` has been shown. -/
structure UploadsShown (s : UploadsState) (es : List (Entry MultipartUploadRow Char)) : Prop where
  uploads : s.uploads = (items es).map toMultipartUploadItem
  commonPrefixes : s.commonPrefixes = folders es
  last : s.last = (items es).getLast?.map toMultipartUploadItem

theorem UploadsShown.count {s : UploadsState} {es : List (Entry MultipartUploadRow Char)}
    (h : UploadsShown s es) : s.count = es.length := by
  rw [UploadsState.count, h.uploads, h.commonPrefixes, List.length_map,
    length_items_add_length_folders]

theorem UploadsShown.item {s : UploadsState} {es : List (Entry MultipartUploadRow Char)}
    (h : UploadsShown s es) (row : MultipartUploadRow) :
    UploadsShown { s with
      uploads := s.uploads ++ [toMultipartUploadItem row]
      last := some (toMultipartUploadItem row) } (es ++ [.item row]) where
  uploads := by simp [h.uploads, items]
  commonPrefixes := by simp [h.commonPrefixes, folders]
  last := by simp [items]

theorem UploadsShown.folder {s : UploadsState} {es : List (Entry MultipartUploadRow Char)}
    (h : UploadsShown s es) (f : Text) :
    UploadsShown { s with commonPrefixes := s.commonPrefixes ++ [f] } (es ++ [.folder f]) where
  uploads := by simp [h.uploads, items]
  commonPrefixes := by simp [h.commonPrefixes, folders]
  last := by simp [h.last, items]

/-- The loop fills a page. -/
theorem uploadsLoop_fill {q : ListUploadsQuery} {limit : ℕ} {rows : List MultipartUploadRow}
    (hpre : ∀ row ∈ rows, q.pre.getD [] <+: row.key) {s : UploadsState}
    {es : List (Entry MultipartUploadRow Char)} (hs : UploadsShown s es)
    (hskipping : s.skipping = false) (htruncated : s.isTruncated = false) :
    UploadsShown (uploadsLoop q limit rows s)
        (fill (folding q.pre q.delimiter) MultipartUploadRow.key limit es rows).1 ∧
      (uploadsLoop q limit rows s).isTruncated =
        (fill (folding q.pre q.delimiter) MultipartUploadRow.key limit es rows).2 := by
  induction rows generalizing s es with
  | nil => exact ⟨hs, htruncated⟩
  | cons row rows ih =>
    obtain ⟨hrow, hrows⟩ := List.forall_mem_cons.mp hpre
    have hfolder : (folding q.pre q.delimiter).folder row.key = groupOf q.pre q.delimiter row.key :=
      folding_folder hrow
    have hfull : UploadsShown { s with isTruncated := true } es :=
      ⟨hs.uploads, hs.commonPrefixes, hs.last⟩
    rw [uploadsLoop, if_neg (by simp [hskipping])]
    cases hgroup : groupOf q.pre q.delimiter row.key with
    | none =>
      rw [fill_item (hfolder.trans hgroup)]
      dsimp only
      by_cases hlimit : limit ≤ es.length
      · rw [if_pos (hs.count ▸ hlimit), if_pos hlimit]
        exact ⟨hfull, rfl⟩
      · rw [if_neg (hs.count ▸ hlimit), if_neg hlimit]
        exact ih hrows (hs.item row) hskipping htruncated
    | some f =>
      rw [fill_folder (hfolder.trans hgroup), ← hs.commonPrefixes]
      dsimp only
      by_cases hseen : f ∈ s.commonPrefixes
      · rw [if_pos hseen, if_pos hseen]
        exact ih hrows hs hskipping htruncated
      · rw [if_neg hseen, if_neg hseen]
        by_cases hlimit : limit ≤ es.length
        · rw [if_pos (hs.count ▸ hlimit), if_pos hlimit]
          exact ⟨hfull, rfl⟩
        · rw [if_neg (hs.count ▸ hlimit), if_neg hlimit]
          exact ih hrows (hs.folder f) hskipping htruncated

/-- What is left of some rows behind the marked one. -/
def behindMarked (q : ListUploadsQuery) (rows : List MultipartUploadRow) :
    List MultipartUploadRow :=
  (rows.dropWhile fun row => ¬ q.Marks row).tail

theorem behindMarked_cons_of_marks {q : ListUploadsQuery} {row : MultipartUploadRow}
    (h : q.Marks row) (rows : List MultipartUploadRow) : behindMarked q (row :: rows) = rows := by
  rw [behindMarked, List.dropWhile_cons_of_neg (by simpa using h), List.tail_cons]

theorem behindMarked_cons_of_not {q : ListUploadsQuery} {row : MultipartUploadRow}
    (h : ¬ q.Marks row) (rows : List MultipartUploadRow) :
    behindMarked q (row :: rows) = behindMarked q rows := by
  rw [behindMarked, List.dropWhile_cons_of_pos (by simpa using h), behindMarked]

/-- **The loop passes over the rows up to the marked one**, or over all of them. -/
theorem uploadsLoop_skipping (q : ListUploadsQuery) (limit : ℕ) (rows : List MultipartUploadRow)
    {s : UploadsState} (hs : s.skipping = true) :
    uploadsLoop q limit rows s =
      uploadsLoop q limit (behindMarked q rows) { s with skipping := false } ∨
    (behindMarked q rows = [] ∧ uploadsLoop q limit rows s = s) := by
  induction rows with
  | nil => exact Or.inr ⟨rfl, rfl⟩
  | cons row rows ih =>
    rw [uploadsLoop, if_pos hs]
    by_cases hmarks : q.Marks row
    · rw [if_pos hmarks, behindMarked_cons_of_marks hmarks]
      exact Or.inl rfl
    · rw [if_neg hmarks, behindMarked_cons_of_not hmarks]
      exact ih

theorem behindMarked_isPrefix (q : ListUploadsQuery) {rows ss : List MultipartUploadRow}
    (h : rows <+: ss) : behindMarked q rows <+: behindMarked q ss := by
  induction ss generalizing rows with
  | nil => rw [List.prefix_nil.mp h]
  | cons row ss ih =>
    cases rows with
    | nil => exact List.nil_prefix
    | cons r rows =>
      obtain ⟨rfl, hrest⟩ := List.cons_prefix_cons.mp h
      by_cases hmarks : q.Marks r
      · rwa [behindMarked_cons_of_marks hmarks, behindMarked_cons_of_marks hmarks]
      · rw [behindMarked_cons_of_not hmarks, behindMarked_cons_of_not hmarks]
        exact ih hrest

/-- Without the marked row nothing is left. -/
theorem behindMarked_eq_nil {q : ListUploadsQuery} {rows : List MultipartUploadRow}
    (h : ∀ row ∈ rows, ¬ q.Marks row) : behindMarked q rows = [] := by
  induction rows with
  | nil => rfl
  | cons row rows ih =>
    obtain ⟨hrow, hrows⟩ := List.forall_mem_cons.mp h
    rw [behindMarked_cons_of_not hrow, ih hrows]

/-! ## What a page shows -/

section Page

variable (idLe : Text → Text → Prop) [DecidableRel idLe]

/-- The rows a page shows entries of: the batch, or what is left of it behind the marked upload
if the markers name one. -/
def uploadBatch (db : Database) (q : ListUploadsQuery) : List MultipartUploadRow :=
  let rows := (uploadsFrom q.keyMarker (uploadsUnder idLe db q.bucketGuid q.pre)).take
    (resolveLimit q.maxUploads * 2 + 1)
  if (present q.keyMarker).isSome && (present q.uploadIdMarker).isSome then behindMarked q rows
  else rows

variable {idLe}
variable {db : Database} {q : ListUploadsQuery}

theorem uploadBatch_sublist :
    (uploadBatch idLe db q).Sublist (uploadsUnder idLe db q.bucketGuid q.pre) := by
  have hrows := (List.take_sublist (resolveLimit q.maxUploads * 2 + 1)
    (uploadsFrom q.keyMarker (uploadsUnder idLe db q.bucketGuid q.pre))).trans List.filter_sublist
  unfold uploadBatch
  split_ifs
  · exact ((List.tail_sublist _).trans (List.dropWhile_sublist _)).trans hrows
  · exact hrows

variable [Std.Total idLe] [IsTrans Text idLe] [Std.Antisymm idLe]

variable (idLe) in
/-- **What a page shows**: the first entries that begin in its part of the batch.  It is truncated
exactly if more of them begin there, and then names the last upload it shows. -/
theorem listMultipartUploads_spec (hdb : UploadSnapshot db) (q : ListUploadsQuery) :
    let r := listMultipartUploads idLe db q
    let begun := uploadListing q (uploadBatch idLe db q)
    let page := begun.take (resolveLimit q.maxUploads)
    r.uploads = (items page).map toMultipartUploadItem ∧ r.commonPrefixes = folders page ∧
    (r.isTruncated = true ↔ resolveLimit q.maxUploads < begun.length) ∧
    (r.isTruncated = true →
      r.nextKeyMarker = (items page).getLast?.map (·.key) ∧
      r.nextUploadIdMarker = (items page).getLast?.map (·.uploadId)) := by
  intro r begun page
  have hsorted := (uploadsUnder_pairwise_key idLe hdb q.bucketGuid q.pre).sublist
    (uploadBatch_sublist (q := q))
  have hpre : ∀ row ∈ uploadBatch idLe db q, q.pre.getD [] <+: row.key := fun row hrow =>
    (mem_uploadsUnder.mp (uploadBatch_sublist.subset hrow)).2.2.2
  have hstart : UploadsShown { skipping := false } [] := ⟨rfl, rfl, rfl⟩
  have hfill := @uploadsLoop_fill q (resolveLimit q.maxUploads) _ hpre _ _ hstart rfl rfl
  rw [fill_sorted hsorted] at hfill
  have hr : UploadsShown (uploadsLoop q (resolveLimit q.maxUploads) (fetchUploads idLe db q)
        (uploadsStart q)) page ∧
      ((uploadsLoop q (resolveLimit q.maxUploads) (fetchUploads idLe db q)
        (uploadsStart q)).isTruncated = true ↔ resolveLimit q.maxUploads < begun.length) := by
    have hfetch := fetchUploads_eq idLe hdb q
    have hfilled := hfill.2
    rw [Bool.eq_iff_iff, decide_eq_true_iff] at hfilled
    by_cases hboth : ((present q.keyMarker).isSome && (present q.uploadIdMarker).isSome) = true
    · have hbatch : uploadBatch idLe db q = behindMarked q (fetchUploads idLe db q) := by
        rw [uploadBatch, if_pos hboth, hfetch]
      rcases uploadsLoop_skipping q (resolveLimit q.maxUploads) (fetchUploads idLe db q)
        (s := uploadsStart q) hboth with heq | ⟨hnil, heq⟩
      · rw [heq, ← hbatch]
        exact ⟨hfill.1, hfilled⟩
      · have hempty : begun = [] := by
          change uploadListing q (uploadBatch idLe db q) = []
          rw [hbatch, hnil]
          rfl
        rw [heq]
        refine ⟨?_, ?_⟩
        · simp only [page, hempty, List.take_nil]
          exact ⟨rfl, rfl, rfl⟩
        · rw [hempty]
          exact iff_of_false Bool.false_ne_true (Nat.not_lt_zero _)
    · have hbatch : uploadBatch idLe db q = fetchUploads idLe db q := by
        rw [uploadBatch, if_neg hboth, hfetch]
      have hskipping : uploadsStart q = { skipping := false } := by
        rw [uploadsStart, eq_false_of_ne_true hboth]
      rw [hskipping, ← hbatch]
      exact ⟨hfill.1, hfilled⟩
  obtain ⟨hshown, htruncated⟩ := hr
  refine ⟨hshown.uploads, hshown.commonPrefixes, htruncated, fun h => ⟨?_, ?_⟩⟩
  · exact (if_pos h).trans ((congrArg (Option.map MultipartUploadItem.key) hshown.last).trans
      (Option.map_map _ _ _))
  · exact (if_pos h).trans ((congrArg (Option.map MultipartUploadItem.uploadId) hshown.last).trans
      (Option.map_map _ _ _))

/-! ## When a page is the right slice -/

/-- The marker names no key alone whose uploads begin an entry of their own: where it does, each
upload of that key lies in a common prefix that a later upload lies in, too. -/
def MarkedKeyPassed (idLe : Text → Text → Prop) [DecidableRel idLe] (db : Database)
    (q : ListUploadsQuery) : Prop :=
  ∀ key, present q.keyMarker = some key → present q.uploadIdMarker = none →
    ∀ r ∈ uploadsUnder idLe db q.bucketGuid q.pre, r.key = key →
      ∃ s ∈ uploadsUnder idLe db q.bucketGuid q.pre, key < s.key ∧
        ∃ f, groupOf q.pre q.delimiter key = some f ∧ groupOf q.pre q.delimiter s.key = some f

/-- **Behind an upload that is shown the listing goes on as it should.** -/
theorem uploadEntries_behind (hdb : UploadSnapshot db) {A B : List (Entry MultipartUploadRow Char)}
    {row : MultipartUploadRow} (h : uploadEntries idLe db q = A ++ .item row :: B) :
    uploadEntries idLe db
      { q with keyMarker := some row.key, uploadIdMarker := some row.uploadId } = B := by
  obtain ⟨X, Y, hrows, hY⟩ := split_at_item h
  have hsorted := (uploadsUnder_pairwise idLe hdb q.bucketGuid q.pre).filter
    fun r => decide (BehindMarker idLe q r)
  rw [hrows] at hsorted
  obtain ⟨-, hbehind, hbefore⟩ := List.pairwise_append.mp hsorted
  obtain ⟨hrow, hmarked⟩ := List.mem_filter.mp
    (hrows ▸ List.mem_append_right X List.mem_cons_self : row ∈ List.filter _ _)
  have hmem := (mem_uploadsUnder.mp hrow).1
  have hmarker : ∀ s, BehindMarker idLe
      { q with keyMarker := some row.key, uploadIdMarker := some row.uploadId } s ↔
        BehindUpload idLe row.key row.uploadId s := by
    intro s
    simp only [BehindMarker, present_of_ne_nil (hdb.key_ne_nil row hmem),
      present_of_ne_nil (hdb.uploadId_ne_nil row hmem)]
  have hfilter : (uploadsUnder idLe db q.bucketGuid q.pre).filter (fun s => decide (BehindMarker idLe
      { q with keyMarker := some row.key, uploadIdMarker := some row.uploadId } s)) =
        (X ++ row :: Y).filter fun s => decide (BehindUpload idLe row.key row.uploadId s) := by
    rw [← hrows, List.filter_filter]
    refine List.filter_congr fun s _ => ?_
    rw [Bool.eq_iff_iff, Bool.and_eq_true, decide_eq_true_iff, decide_eq_true_iff,
      decide_eq_true_iff, hmarker]
    exact ⟨fun hs => ⟨hs, (of_decide_eq_true hmarked).trans hs⟩, fun hs => hs.1⟩
  have hX : X.filter (fun s => decide (BehindUpload idLe row.key row.uploadId s)) = [] := by
    refine List.filter_eq_nil_iff.mpr fun s hs h => ?_
    exact (hbefore s hs row List.mem_cons_self).asymm (of_decide_eq_true h)
  have hYs : Y.filter (fun s => decide (BehindUpload idLe row.key row.uploadId s)) = Y :=
    List.filter_eq_self.mpr fun s hs => decide_eq_true ((List.pairwise_cons.mp hbehind).1 s hs)
  rw [uploadEntries, hfilter, List.filter_append, hX, List.nil_append,
    List.filter_cons_of_neg (by simpa using not_behindUpload_self row), hYs]
  exact hY

omit [Std.Total idLe] [IsTrans Text idLe] in
/-- Behind the marked upload in the rows from its key on is behind the marker. -/
theorem behindMarked_eq_filter {key uploadId : Text} {rows : List MultipartUploadRow}
    (hkey : q.keyMarker = some key) (hid : q.uploadIdMarker = some uploadId)
    (hsorted : rows.Pairwise fun r s => BehindUpload idLe r.key r.uploadId s)
    (hmarked : ∃ row ∈ rows, q.Marks row) :
    behindMarked q rows = rows.filter fun s => decide (BehindUpload idLe key uploadId s) := by
  have hmarks : ∀ {row}, q.Marks row → row.key = key ∧ row.uploadId = uploadId := fun h =>
    ⟨Option.some.inj (h.1.symm.trans hkey), Option.some.inj (h.2.symm.trans hid)⟩
  induction rows with
  | nil =>
    obtain ⟨row, hrow, -⟩ := hmarked
    cases hrow
  | cons r rows ih =>
    obtain ⟨hr, hsorted⟩ := List.pairwise_cons.mp hsorted
    by_cases h : q.Marks r
    · obtain ⟨rfl, rfl⟩ := hmarks h
      rw [behindMarked_cons_of_marks h,
        List.filter_cons_of_neg (by simpa using not_behindUpload_self r)]
      exact (List.filter_eq_self.mpr fun s hs => decide_eq_true (hr s hs)).symm
    · obtain ⟨row, hrow, hrowmarks⟩ := hmarked
      have hrow' : row ∈ rows := (List.mem_cons.mp hrow).resolve_left fun heq => h (heq ▸ hrowmarks)
      have hnot : ¬ BehindUpload idLe key uploadId r := by
        obtain ⟨rfl, rfl⟩ := hmarks hrowmarks
        exact (hr row hrow').asymm
      rw [behindMarked_cons_of_not h, List.filter_cons_of_neg (by simpa using hnot)]
      exact ih hsorted ⟨row, hrow', hrowmarks⟩

omit [Std.Total idLe] [IsTrans Text idLe] [Std.Antisymm idLe] in
/-- The rows behind the marker are behind it among the rows from its key on. -/
theorem filter_behindMarker {key uploadId : Text} (hkey : present q.keyMarker = some key)
    (hid : present q.uploadIdMarker = some uploadId) (rows : List MultipartUploadRow) :
    rows.filter (fun s => decide (BehindMarker idLe q s)) =
      (uploadsFrom q.keyMarker rows).filter fun s => decide (BehindUpload idLe key uploadId s) := by
  rw [uploadsFrom, List.filter_filter]
  refine List.filter_congr fun s _ => ?_
  rw [Bool.eq_iff_iff, Bool.and_eq_true, decide_eq_true_iff, decide_eq_true_iff, hkey,
    Option.all_some, decide_eq_true_iff, BehindMarker, hkey, hid]
  exact ⟨fun hs => ⟨hs, hs.key_le⟩, fun hs => hs.1⟩

omit [Std.Antisymm idLe] in
/-- The uploads of a key come before the later ones among the uploads from it on. -/
theorem uploadsFrom_eq_append (hdb : UploadSnapshot db) {key : Text}
    (hkey : present q.keyMarker = some key) (hid : present q.uploadIdMarker = none) :
    uploadsFrom q.keyMarker (uploadsUnder idLe db q.bucketGuid q.pre) =
      ((uploadsUnder idLe db q.bucketGuid q.pre).filter fun r => r.key = key) ++
      (uploadsUnder idLe db q.bucketGuid q.pre).filter fun r => decide (BehindMarker idLe q r) := by
  have hsorted := uploadsUnder_pairwise_key idLe hdb q.bucketGuid q.pre
  have hbehind : ∀ r, BehindMarker idLe q r ↔ key < r.key := fun r => by
    rw [BehindMarker, hkey, hid]
  have hfrom : ∀ r : MultipartUploadRow,
      ((present q.keyMarker).all fun m => decide (m ≤ r.key)) = decide (key ≤ r.key) := fun r => by
    rw [hkey, Option.all_some]
  rw [uploadsFrom]
  simp only [hbehind, hfrom]
  generalize uploadsUnder idLe db q.bucketGuid q.pre = rows at hsorted ⊢
  induction rows with
  | nil => rfl
  | cons r rows ih =>
    obtain ⟨hr, hsorted⟩ := List.pairwise_cons.mp hsorted
    rcases lt_trichotomy r.key key with h | h | h
    · rw [List.filter_cons_of_neg (by simpa using h), List.filter_cons_of_neg (by simpa using h.ne),
        List.filter_cons_of_neg (by simpa using h.le), ih hsorted]
    · rw [List.filter_cons_of_pos (by simpa using h.ge), List.filter_cons_of_pos (by simpa using h),
        List.filter_cons_of_neg (by simpa using h.le), ih hsorted, List.cons_append]
    · have hnone : (r :: rows).filter (fun s => s.key = key) = [] := by
        refine List.filter_eq_nil_iff.mpr fun s hs => ?_
        rcases List.mem_cons.mp hs with rfl | hs
        · simpa using h.ne'
        · simpa using (h.trans_le (hr s hs)).ne'
      rw [hnone, List.nil_append]
      refine List.filter_congr fun s hs => ?_
      have hlt : key < s.key := by
        rcases List.mem_cons.mp hs with rfl | hs
        · exact h
        · exact h.trans_le (hr s hs)
      rw [decide_eq_true hlt, decide_eq_true hlt.le]

omit [Std.Antisymm idLe] in
/-- A key named alone whose uploads begin no entry of their own changes nothing. -/
theorem uploadListing_from (hdb : UploadSnapshot db) (hpassed : MarkedKeyPassed idLe db q)
    {key : Text} (hkey : present q.keyMarker = some key) (hid : present q.uploadIdMarker = none) :
    uploadListing q (uploadsFrom q.keyMarker (uploadsUnder idLe db q.bucketGuid q.pre)) =
      uploadEntries idLe db q := by
  rw [uploadsFrom_eq_append hdb hkey hid, uploadEntries]
  by_cases hnone : (uploadsUnder idLe db q.bucketGuid q.pre).filter (fun r => r.key = key) = []
  · rw [hnone, List.nil_append]
  · obtain ⟨r, hr⟩ := List.exists_mem_of_ne_nil _ hnone
    obtain ⟨hr, hrkey⟩ := List.mem_filter.mp hr
    obtain ⟨s, hs, hlt, f, hf, hsf⟩ := hpassed key hkey hid r hr (of_decide_eq_true hrkey)
    have hpre : ∀ t ∈ uploadsUnder idLe db q.bucketGuid q.pre, q.pre.getD [] <+: t.key :=
      fun t ht => (mem_uploadsUnder.mp ht).2.2.2
    have hfolder : (folding q.pre q.delimiter).folder key = some f :=
      (folding_folder (of_decide_eq_true hrkey ▸ hpre r hr)).trans hf
    have hsfolder := (folding_folder (hpre s hs)).trans hsf
    -- the first upload behind the key is not behind that later one, so it shares the folder
    have hbehind : ∀ {t}, BehindMarker idLe q t ↔ key < t.key := fun {t} => by
      rw [BehindMarker, hkey, hid]
    have hsmem : s ∈ (uploadsUnder idLe db q.bucketGuid q.pre).filter
        fun t => decide (BehindMarker idLe q t) :=
      List.mem_filter.mpr ⟨hs, decide_eq_true (hbehind.mpr hlt)⟩
    have hlater := (uploadsUnder_pairwise_key idLe hdb q.bucketGuid q.pre).filter
      fun t => decide (BehindMarker idLe q t)
    cases hrest : (uploadsUnder idLe db q.bucketGuid q.pre).filter
        (fun t => decide (BehindMarker idLe q t)) with
    | nil =>
      rw [hrest] at hsmem
      cases hsmem
    | cons t rest =>
      rw [hrest] at hsmem hlater
      have ht : t ∈ (uploadsUnder idLe db q.bucketGuid q.pre).filter
          fun t => decide (BehindMarker idLe q t) := hrest ▸ List.mem_cons_self
      have hlt' := hbehind.mp (of_decide_eq_true (List.mem_filter.mp ht).2)
      have hts : t.key ≤ s.key := by
        rcases List.mem_cons.mp hsmem with rfl | hsmem
        · exact le_rfl
        · exact (List.pairwise_cons.mp hlater).1 s hsmem
      refine collapse_append_of_folder (f := f) (fun u hu => ?_) ?_
      · rw [of_decide_eq_true (List.mem_filter.mp hu).2]
        exact hfolder
      · refine (folding q.pre q.delimiter).folder_of_isPrefix hfolder ?_
        have hle := PrefixOrder.le_of_isPrefix ((folding q.pre q.delimiter).folder_isPrefix hfolder)
        exact PrefixOrder.isPrefix_of_le_of_le (hle.trans hlt'.le) hts
          ((folding q.pre q.delimiter).folder_isPrefix hsfolder)

/-- **What begins in the batch comes first in the slice**, unless uploads of the key of the marker
are shown again. -/
theorem batch_isPrefix (hdb : UploadSnapshot db) (hpassed : MarkedKeyPassed idLe db q) :
    uploadListing q (uploadBatch idLe db q) <+: uploadEntries idLe db q := by
  have hsorted := uploadsUnder_pairwise idLe hdb q.bucketGuid q.pre
  cases hkey : present q.keyMarker with
  | none =>
    have hall : (uploadsUnder idLe db q.bucketGuid q.pre).filter
        (fun s => decide (BehindMarker idLe q s)) = uploadsUnder idLe db q.bucketGuid q.pre :=
      List.filter_eq_self.mpr fun s _ => decide_eq_true (by rw [BehindMarker, hkey]; trivial)
    have hfrom : uploadsFrom q.keyMarker (uploadsUnder idLe db q.bucketGuid q.pre) =
        uploadsUnder idLe db q.bucketGuid q.pre :=
      List.filter_eq_self.mpr fun s _ => by rw [hkey]; rfl
    rw [uploadEntries, hall, uploadBatch, hkey, hfrom]
    exact collapseFrom_isPrefix none (List.take_prefix _ _)
  | some key =>
    cases hid : present q.uploadIdMarker with
    | none =>
      have hbatch : uploadBatch idLe db q <+:
          uploadsFrom q.keyMarker (uploadsUnder idLe db q.bucketGuid q.pre) := by
        rw [uploadBatch, hid, Option.isSome_none, Bool.and_false]
        exact List.take_prefix _ _
      rw [← uploadListing_from hdb hpassed hkey hid]
      exact collapseFrom_isPrefix none hbatch
    | some uploadId =>
      have hboth : uploadBatch idLe db q = behindMarked q
          ((uploadsFrom q.keyMarker (uploadsUnder idLe db q.bucketGuid q.pre)).take
            (resolveLimit q.maxUploads * 2 + 1)) := by
        rw [uploadBatch, hkey, hid]
        rfl
      have hprefix := behindMarked_isPrefix q (List.take_prefix (resolveLimit q.maxUploads * 2 + 1)
        (uploadsFrom q.keyMarker (uploadsUnder idLe db q.bucketGuid q.pre)))
      refine collapseFrom_isPrefix none ?_
      rw [hboth, filter_behindMarker hkey hid]
      by_cases hmarked : ∃ row ∈ uploadsFrom q.keyMarker (uploadsUnder idLe db q.bucketGuid q.pre),
          q.Marks row
      · have hfrom : (uploadsFrom q.keyMarker (uploadsUnder idLe db q.bucketGuid q.pre)).Pairwise
            fun r s => BehindUpload idLe r.key r.uploadId s := hsorted.sublist List.filter_sublist
        rwa [behindMarked_eq_filter (present_eq_some_iff.mp hkey).1 (present_eq_some_iff.mp hid).1
          hfrom hmarked] at hprefix
      · rw [behindMarked_eq_nil fun row hrow h =>
          hmarked ⟨row, List.take_subset _ _ hrow, h⟩]
        exact List.nil_prefix

/-- A page that shows uploads of the key of the marker again is not the slice. -/
theorem not_rightSlice_of_shown_again (hdb : UploadSnapshot db) {limit : ℕ}
    (h : ¬ MarkedKeyPassed idLe db q) :
    ¬ RightSlice idLe db q limit (listMultipartUploads idLe db q) := by
  intro hslice
  obtain ⟨huploads, hprefixes, -⟩ := listMultipartUploads_spec idLe hdb q
  unfold MarkedKeyPassed at h
  push Not at h
  obtain ⟨key, hkey, hid, r, hr, hrkey, hnot⟩ := h
  have hbehind : ∀ {t}, BehindMarker idLe q t ↔ key < t.key := fun {t} => by
    rw [BehindMarker, hkey, hid]
  -- the batch begins with an upload of that key
  obtain ⟨a, rest, hbatch, ha⟩ : ∃ a rest, uploadBatch idLe db q = a :: rest ∧ a.key = key := by
    have hmem : r ∈ (uploadsUnder idLe db q.bucketGuid q.pre).filter fun r => r.key = key :=
      List.mem_filter.mpr ⟨hr, decide_eq_true hrkey⟩
    obtain ⟨a, K, hK⟩ := List.exists_cons_of_ne_nil (List.ne_nil_of_mem hmem)
    have ha : a ∈ (uploadsUnder idLe db q.bucketGuid q.pre).filter fun r => r.key = key :=
      hK ▸ List.mem_cons_self
    refine ⟨a, (K ++ (uploadsUnder idLe db q.bucketGuid q.pre).filter fun r =>
      decide (BehindMarker idLe q r)).take (resolveLimit q.maxUploads * 2), ?_,
      of_decide_eq_true (List.mem_filter.mp ha).2⟩
    rw [uploadBatch, hid, Option.isSome_none, Bool.and_false,
      uploadsFrom_eq_append hdb hkey hid, hK, List.cons_append]
    exact List.take_succ_cons
  have hainside : a ∈ uploadsUnder idLe db q.bucketGuid q.pre :=
    uploadBatch_sublist.subset (hbatch ▸ List.mem_cons_self)
  have hapre := (mem_uploadsUnder.mp hainside).2.2.2
  obtain ⟨n, hn⟩ := Nat.exists_eq_succ_of_ne_zero (resolveLimit_pos q.maxUploads).ne'
  rw [hbatch, uploadListing, hn] at huploads hprefixes
  cases hfolder : (folding q.pre q.delimiter).folder a.key with
  | none =>
    rw [collapse_cons_item hfolder, List.take_succ_cons, items, List.map_cons] at huploads
    have hshown : toMultipartUploadItem a ∈ (listMultipartUploads idLe db q).uploads :=
      huploads ▸ List.mem_cons_self
    rw [hslice.uploads] at hshown
    obtain ⟨s, hs, heq⟩ := List.mem_map.mp hshown
    have hs' := item_mem_collapse.mp (List.take_subset _ _ (mem_items.mp hs))
    have hlt := hbehind.mp (of_decide_eq_true (List.mem_filter.mp hs'.1).2)
    have hskey : s.key = a.key := congrArg MultipartUploadItem.key heq
    rw [hskey, ha] at hlt
    exact lt_irrefl _ hlt
  | some f =>
    rw [collapse_cons_folder hfolder, List.take_succ_cons, folders] at hprefixes
    have hshown : f ∈ (listMultipartUploads idLe db q).commonPrefixes :=
      hprefixes ▸ List.mem_cons_self
    rw [hslice.commonPrefixes] at hshown
    obtain ⟨s, hs, hsf⟩ := folder_mem_collapse.mp (List.take_subset _ _ (mem_folders.mp hshown))
    obtain ⟨hs, hsbehind⟩ := List.mem_filter.mp hs
    refine hnot s hs (hbehind.mp (of_decide_eq_true hsbehind)) f ?_ ?_
    · rw [← ha, ← folding_folder hapre]
      exact hfolder
    · rw [← folding_folder (mem_uploadsUnder.mp hs).2.2.2]
      exact hsf

omit [DecidableRel idLe] [Std.Total idLe] [IsTrans Text idLe] [Std.Antisymm idLe] in
/-- A list that goes on far enough has the same first part as what it is a prefix of. -/
theorem take_eq_of_isPrefix {ε : Type*} {es fs : List ε} (h : es <+: fs) {n : ℕ}
    (hn : min n fs.length ≤ es.length) : es.take n = fs.take n := by
  obtain ⟨rest, rfl⟩ := h
  rw [List.length_append] at hn
  rw [List.take_append]
  have hrest : rest.take (n - es.length) = [] := by
    by_cases hle : n ≤ es.length
    · rw [Nat.sub_eq_zero_of_le hle, List.take_zero]
    · rw [List.eq_nil_of_length_eq_zero (by omega : rest.length = 0), List.take_nil]
  rw [hrest, List.append_nil]

end Page

/-! ## A marked upload that is gone -/

/-- An upload of `a` has been completed since it was listed; one of `b` is still in progress. -/
def oneUploadLeft : Database where
  multipartUploads := [{
    guid := 1
    uploadId := ['v']
    bucketGuid := 0
    key := ['b']
    createdAt := 1 }]

/-- The next page of a listing that ended with the upload of `a`. -/
def behindCompleted : ListUploadsQuery where
  bucketGuid := 0
  maxUploads := some 1000
  keyMarker := some ['a']
  uploadIdMarker := some ['u']

end ObjectsService
end SimpleStorage
