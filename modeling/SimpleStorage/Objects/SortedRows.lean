import SimpleStorage.Objects.Folders
import SimpleStorage.Library.Cursor

/-!
# The rows behind a listing

Under the constraints of the schema a bucket's keys are distinct, so the rows a listing
reads have one order only: `liveRows` and `allRows` are those rows, sorted once and for
all, and every query a listing makes is a part of them.

* `fetchLatestVersions_eq`: a batch of `list` is the first live rows past a cursor and
  outside an excluded folder, in the sense of `Library.Cursor`.
* `fetchVersions_eq`: the batch of `listAllVersions` is the first rows from the marked key on.
-/

namespace SimpleStorage
namespace ObjectsService

open Query

/-! ## Orders -/

theorem keyOrder_iff {r s : JoinedRow} : keyOrder r s ↔ r.key ≤ s.key := by
  rw [keyOrder, Utf8.encode_lt_encode_iff, not_lt]

instance : Std.Total keyOrder := ⟨fun r s => by
  rw [keyOrder_iff, keyOrder_iff]
  exact le_total _ _⟩

instance : IsTrans JoinedRow keyOrder := ⟨fun r s t hrs hst => by
  rw [keyOrder_iff] at *
  exact hrs.trans hst⟩

theorem versionOrder_iff {r s : JoinedRow} :
    versionOrder r s ↔
      r.key < s.key ∨ (r.key = s.key ∧ s.version.createdAt ≤ r.version.createdAt) := by
  rw [versionOrder, Utf8.encode_lt_encode_iff]

instance : Std.Total versionOrder := ⟨fun r s => by
  rw [versionOrder_iff, versionOrder_iff]
  rcases lt_trichotomy r.key s.key with h | h | h
  · exact Or.inl (Or.inl h)
  · rcases le_total s.version.createdAt r.version.createdAt with hle | hle
    · exact Or.inl (Or.inr ⟨h, hle⟩)
    · exact Or.inr (Or.inr ⟨h.symm, hle⟩)
  · exact Or.inr (Or.inl h)⟩

instance : IsTrans JoinedRow versionOrder := ⟨fun r s t hrs hst => by
  rw [versionOrder_iff] at *
  rcases hrs with hrs | ⟨hrs, hrs'⟩ <;> rcases hst with hst | ⟨hst, hst'⟩
  · exact Or.inl (hrs.trans hst)
  · exact Or.inl (hst ▸ hrs)
  · exact Or.inl (hrs ▸ hst)
  · exact Or.inr ⟨hrs.trans hst, hst'.trans hrs'⟩⟩

theorem versionOrder_tie {r s : JoinedRow} (h : versionOrder r s) (h' : versionOrder s r) :
    r.key = s.key ∧ r.version.createdAt = s.version.createdAt := by
  rcases versionOrder_iff.mp h with h | ⟨hkey, h⟩ <;>
    rcases versionOrder_iff.mp h' with h' | ⟨hkey', h'⟩
  · exact absurd h h'.asymm
  · exact absurd (hkey' ▸ h) (lt_irrefl _)
  · exact absurd (hkey ▸ h') (lt_irrefl _)
  · exact ⟨hkey, le_antisymm h' h⟩

/-! ## Distinct keys -/

theorem length_filter_guid_le {vs : List ObjectVersionRow} (h : (vs.map (·.guid)).Nodup)
    (latest : Option Guid) : (vs.filter fun v => latest = some v.guid).length ≤ 1 := by
  induction vs with
  | nil => exact Nat.zero_le 1
  | cons v vs ih =>
    rw [List.map_cons, List.nodup_cons] at h
    by_cases hv : latest = some v.guid
    · rw [List.filter_cons_of_pos (by simpa using hv), List.length_cons]
      have hnil : (vs.filter fun w => latest = some w.guid) = [] := by
        refine List.filter_eq_nil_iff.mpr fun w hw hlatest => ?_
        rw [hv, decide_eq_true_iff, Option.some.injEq] at hlatest
        exact h.1 (hlatest ▸ List.mem_map_of_mem hw)
      rw [hnil, List.length_nil]
    · rw [List.filter_cons_of_neg (by simpa using hv)]
      exact ih h.2

theorem pairwise_of_length_le_one {ρ : Type} {R : ρ → ρ → Prop} {rs : List ρ}
    (h : rs.length ≤ 1) : rs.Pairwise R :=
  match rs, h with
  | [], _ => List.Pairwise.nil
  | [r], _ => List.pairwise_singleton R r

theorem mem_latestRows {db : Database} {row : JoinedRow} :
    row ∈ latestRows db ↔ row.object ∈ db.objects ∧ row.version ∈ db.objectVersions ∧
      row.object.latestVersionGuid = some row.version.guid := by
  simp only [latestRows, List.mem_flatMap, List.mem_map, List.mem_filter, decide_eq_true_eq]
  constructor
  · rintro ⟨o, ho, v, ⟨hv, hlatest⟩, rfl⟩
    exact ⟨ho, hv, hlatest⟩
  · rintro ⟨ho, hv, hlatest⟩
    exact ⟨row.object, ho, row.version, ⟨hv, hlatest⟩, rfl⟩

theorem mem_versionRows {db : Database} {row : JoinedRow} :
    row ∈ versionRows db ↔ row.object ∈ db.objects ∧ row.version ∈ db.objectVersions ∧
      row.version.objectGuid = row.object.guid := by
  simp only [versionRows, List.mem_flatMap, List.mem_map, List.mem_filter, decide_eq_true_eq]
  constructor
  · rintro ⟨o, ho, v, ⟨hv, hguid⟩, rfl⟩
    exact ⟨ho, hv, hguid⟩
  · rintro ⟨ho, hv, hguid⟩
    exact ⟨row.object, ho, row.version, ⟨hv, hguid⟩, rfl⟩

/-- Two rows of a bucket that point at their latest version have different keys. -/
theorem latestRows_pairwise {db : Database} (hdb : db.Constraints) :
    (latestRows db).Pairwise fun r s =>
      r.object.bucketGuid = s.object.bucketGuid → r.key ≠ s.key := by
  rw [latestRows, List.pairwise_flatMap]
  constructor
  · intro o _
    refine pairwise_of_length_le_one ?_
    rw [List.length_map]
    exact length_filter_guid_le hdb.version_guid _
  · have hkeys := List.pairwise_map.mp hdb.object_key
    refine hkeys.imp fun {o p} hne r hr s hs hbucket hkey => hne ?_
    obtain ⟨v, -, rfl⟩ := List.mem_map.mp hr
    obtain ⟨w, -, rfl⟩ := List.mem_map.mp hs
    exact Prod.ext hbucket hkey

/-! ## The live rows of a bucket -/

/-- The rows a listing of a bucket's keys under a prefix can show, in their order. -/
def liveRows (db : Database) (bucketGuid : Guid) (pre : Option Text) : List JoinedRow :=
  ((latestRows db).filter fun row => row.object.bucketGuid = bucketGuid
    && row.version.isDeleteMarker = false
    && (present pre).all (likePrefix row.key)).insertionSort keyOrder

theorem all_likePrefix_iff {pre : Option Text} {key : Text} :
    (present pre).all (likePrefix key) = true ↔ pre.getD [] <+: key := by
  match pre with
  | none => simp [present]
  | some [] => simp [present]
  | some (c :: p) => simp [present, likePrefix_iff]

theorem mem_liveRows {db : Database} {bucketGuid : Guid} {pre : Option Text} {row : JoinedRow} :
    row ∈ liveRows db bucketGuid pre ↔ row ∈ latestRows db ∧ row.object.bucketGuid = bucketGuid ∧
      row.version.isDeleteMarker = false ∧ pre.getD [] <+: row.key := by
  rw [liveRows, List.mem_insertionSort, List.mem_filter, Bool.and_eq_true, Bool.and_eq_true,
    decide_eq_true_iff, decide_eq_true_iff, all_likePrefix_iff, and_assoc]

/-- The live rows are strictly increasing in their keys. -/
theorem liveRows_pairwise {db : Database} (hdb : db.Constraints) (bucketGuid : Guid)
    (pre : Option Text) :
    (liveRows db bucketGuid pre).Pairwise fun r s => r.key < s.key := by
  have hne : (liveRows db bucketGuid pre).Pairwise fun r s => r.key ≠ s.key := by
    have hfilter := (latestRows_pairwise hdb).filter fun row =>
      row.object.bucketGuid = bucketGuid && row.version.isDeleteMarker = false
        && (present pre).all (likePrefix row.key)
    refine (List.Perm.pairwise_iff (fun h => Ne.symm h)
      (List.perm_insertionSort keyOrder _).symm).mp ?_
    refine hfilter.imp_of_mem fun {r s} hr hs h => h ?_
    have hr' := (List.mem_filter.mp hr).2
    have hs' := (List.mem_filter.mp hs).2
    simp only [Bool.and_eq_true, decide_eq_true_eq] at hr' hs'
    rw [hr'.1.1, hs'.1.1]
  have hle := List.pairwise_insertionSort keyOrder ((latestRows db).filter fun row =>
    row.object.bucketGuid = bucketGuid && row.version.isDeleteMarker = false
      && (present pre).all (likePrefix row.key))
  exact hle.imp₂ (fun r s h h' => lt_of_le_of_ne (keyOrder_iff.mp h) h') hne

theorem liveRows_anti {db : Database} (hdb : db.Constraints) {bucketGuid : Guid}
    {pre : Option Text} {r s : JoinedRow} (hr : r ∈ liveRows db bucketGuid pre)
    (hs : s ∈ liveRows db bucketGuid pre) (h : r.key = s.key) : r = s := by
  by_contra hne
  have hsymm : (liveRows db bucketGuid pre).Pairwise fun r s => r.key ≠ s.key :=
    (liveRows_pairwise hdb bucketGuid pre).imp fun h => ne_of_lt h
  have : Std.Symm fun r s : JoinedRow => r.key ≠ s.key := ⟨fun _ _ h => h.symm⟩
  exact hsymm.forall hr hs hne h

/-- **A batch of `list` is the first rows past the cursor and outside the folder.** -/
theorem fetchLatestVersions_eq {db : Database} (hdb : db.Constraints) (q : LatestQuery) :
    fetchLatestVersions db q = ((liveRows db q.bucketGuid q.pre).filter fun row =>
      Collapse.Past JoinedRow.key (present q.cursor) (present q.excludePrefix) row).take q.limit := by
  have hsplit : (latestRows db).filter q.admits =
      ((latestRows db).filter fun row => row.object.bucketGuid = q.bucketGuid
        && row.version.isDeleteMarker = false && (present q.pre).all (likePrefix row.key)).filter
        fun row => Collapse.Past JoinedRow.key (present q.cursor) (present q.excludePrefix) row := by
    rw [List.filter_filter]
    refine List.filter_congr fun row _ => ?_
    have hcursor : (present q.cursor).all (collatedGreater row.key) = true ↔
        ∀ v, present q.cursor = some v → v < row.key := by
      rw [Option.all_eq_true]
      exact forall₂_congr fun v _ => collatedGreater_iff
    have hexclude : (present q.excludePrefix).all (notLikePrefix row.key) = true ↔
        ∀ f, present q.excludePrefix = some f → ¬ f <+: row.key := by
      rw [Option.all_eq_true]
      exact forall₂_congr fun f _ => notLikePrefix_iff
    rw [LatestQuery.admits, Bool.eq_iff_iff, Bool.and_eq_true, Bool.and_eq_true, hcursor, hexclude,
      Bool.and_eq_true (Decidable.decide _), decide_eq_true_iff, Collapse.Past]
    tauto
  have hanti : ∀ a ∈ (latestRows db).filter fun row => row.object.bucketGuid = q.bucketGuid
      && row.version.isDeleteMarker = false && (present q.pre).all (likePrefix row.key),
      ∀ b ∈ (latestRows db).filter fun row => row.object.bucketGuid = q.bucketGuid
      && row.version.isDeleteMarker = false && (present q.pre).all (likePrefix row.key),
      keyOrder a b → keyOrder b a → a = b := by
    intro a ha b hb hab hba
    have ha' : a ∈ liveRows db q.bucketGuid q.pre := (List.mem_insertionSort _).mpr ha
    have hb' : b ∈ liveRows db q.bucketGuid q.pre := (List.mem_insertionSort _).mpr hb
    refine liveRows_anti hdb ha' hb' ?_
    exact le_antisymm (keyOrder_iff.mp hab) (keyOrder_iff.mp hba)
  rw [fetchLatestVersions, hsplit, Collapse.insertionSort_filter hanti]
  rfl

/-! ## The versions of a bucket -/

/-- Whether a listing of versions under a prefix is about a row. -/
def versionInScope (bucketGuid : Guid) (pre : Option Text) (row : JoinedRow) : Bool :=
  row.object.bucketGuid = bucketGuid && (present pre).all (likePrefix row.key)

/-- The rows a listing of a bucket's versions under a prefix can show, in their order. -/
def allRows (db : Database) (bucketGuid : Guid) (pre : Option Text) : List JoinedRow :=
  ((versionRows db).filter (versionInScope bucketGuid pre)).insertionSort versionOrder

/-- The versions of a key are told apart by the time they were created. -/
def DistinctCreatedAt (db : Database) : Prop :=
  ∀ v ∈ db.objectVersions, ∀ w ∈ db.objectVersions,
    v.objectGuid = w.objectGuid → v.createdAt = w.createdAt → v = w

theorem mem_allRows {db : Database} {bucketGuid : Guid} {pre : Option Text} {row : JoinedRow} :
    row ∈ allRows db bucketGuid pre ↔ row ∈ versionRows db ∧ row.object.bucketGuid = bucketGuid ∧
      pre.getD [] <+: row.key := by
  rw [allRows, List.mem_insertionSort, List.mem_filter, versionInScope, Bool.and_eq_true,
    decide_eq_true_iff, all_likePrefix_iff]

/-- Rows of one bucket with one key are rows of one object. -/
theorem object_eq_of_key_eq {db : Database} (hdb : db.Constraints) {o p : ObjectRow}
    (ho : o ∈ db.objects) (hp : p ∈ db.objects) (hbucket : o.bucketGuid = p.bucketGuid)
    (hkey : o.key = p.key) : o = p :=
  List.inj_on_of_nodup_map hdb.object_key ho hp (Prod.ext hbucket hkey)

/-- **A row is determined by its key and when its version was created.** -/
theorem allRows_anti {db : Database} (hdb : db.Constraints) (hat : DistinctCreatedAt db)
    {bucketGuid : Guid} {pre : Option Text} {r s : JoinedRow} (hr : r ∈ allRows db bucketGuid pre)
    (hs : s ∈ allRows db bucketGuid pre) (hkey : r.key = s.key)
    (hcreated : r.version.createdAt = s.version.createdAt) : r = s := by
  obtain ⟨hr, hrb, -⟩ := mem_allRows.mp hr
  obtain ⟨hs, hsb, -⟩ := mem_allRows.mp hs
  obtain ⟨hro, hrv, hrguid⟩ := mem_versionRows.mp hr
  obtain ⟨hso, hsv, hsguid⟩ := mem_versionRows.mp hs
  have hobject := object_eq_of_key_eq hdb hro hso (hrb.trans hsb.symm) hkey
  have hversion := hat _ hrv _ hsv (by rw [hrguid, hsguid, hobject]) hcreated
  obtain ⟨o, v⟩ := r
  obtain ⟨p, w⟩ := s
  cases hobject
  cases hversion
  rfl

theorem versionRows_nodup {db : Database} (hdb : db.Constraints) : (versionRows db).Nodup := by
  have hobjects := List.Nodup.of_map _ hdb.object_guid
  have hversions := List.Nodup.of_map _ hdb.version_guid
  refine List.nodup_flatMap.mpr ⟨fun o _ => ?_, hobjects.imp fun {o p} hne => ?_⟩
  · exact (hversions.filter _).map fun v w h => congrArg JoinedRow.version h
  · intro row hr hs
    obtain ⟨v, -, rfl⟩ := List.mem_map.mp hr
    obtain ⟨w, -, heq⟩ := List.mem_map.mp hs
    exact hne (congrArg JoinedRow.object heq).symm

/-- **Newest first within a key, and keys in order.** -/
theorem allRows_pairwise {db : Database} (hdb : db.Constraints) (hat : DistinctCreatedAt db)
    (bucketGuid : Guid) (pre : Option Text) :
    (allRows db bucketGuid pre).Pairwise fun r s =>
      r.key < s.key ∨ (r.key = s.key ∧ s.version.createdAt < r.version.createdAt) := by
  have hsorted := List.pairwise_insertionSort versionOrder
    ((versionRows db).filter (versionInScope bucketGuid pre))
  have hnodup : (allRows db bucketGuid pre).Nodup :=
    (List.perm_insertionSort versionOrder _).nodup_iff.mpr ((versionRows_nodup hdb).filter _)
  refine (hsorted.and hnodup).imp_of_mem fun {r s} hr hs h => ?_
  rcases versionOrder_iff.mp h.1 with hlt | ⟨hkey, hle⟩
  · exact Or.inl hlt
  · refine Or.inr ⟨hkey, lt_of_le_of_ne hle fun heq => h.2 ?_⟩
    exact allRows_anti hdb hat hr hs hkey heq.symm

theorem allRows_pairwise_key {db : Database} (hdb : db.Constraints) (hat : DistinctCreatedAt db)
    (bucketGuid : Guid) (pre : Option Text) :
    (allRows db bucketGuid pre).Pairwise fun r s => r.key ≤ s.key :=
  (allRows_pairwise hdb hat bucketGuid pre).imp fun h => h.elim le_of_lt fun h => h.1.le

/-- The rows from a key on; all of them without a key. -/
def rowsFrom (marker : Option Text) (rows : List JoinedRow) : List JoinedRow :=
  rows.filter fun row => (present marker).all fun m => decide (m ≤ row.key)

/-- **The batch of `listAllVersions` is the first rows from the marked key on.** -/
theorem fetchVersions_eq {db : Database} (hdb : db.Constraints) (hat : DistinctCreatedAt db)
    (q : ListVersionsQuery) :
    fetchVersions db q = (rowsFrom q.keyMarker (allRows db q.bucketGuid q.pre)).take
      (resolveLimit q.maxKeys * 2 + 1) := by
  have hsplit : (versionRows db).filter q.admits =
      ((versionRows db).filter (versionInScope q.bucketGuid q.pre)).filter
        fun row => (present q.keyMarker).all fun m => decide (m ≤ row.key) := by
    rw [List.filter_filter]
    refine List.filter_congr fun row _ => ?_
    have hmarker : (present q.keyMarker).all (collatedGreaterOrEqual row.key) =
        (present q.keyMarker).all fun m => decide (m ≤ row.key) := by
      refine congrArg (present q.keyMarker).all (funext fun m => ?_)
      rw [Bool.eq_iff_iff, collatedGreaterOrEqual_iff, decide_eq_true_iff]
    rw [ListVersionsQuery.admits, hmarker, Bool.and_comm]
    rfl
  have hanti : ∀ a ∈ (versionRows db).filter (versionInScope q.bucketGuid q.pre),
      ∀ b ∈ (versionRows db).filter (versionInScope q.bucketGuid q.pre),
      versionOrder a b → versionOrder b a → a = b := by
    intro a ha b hb hab hba
    obtain ⟨hkey, hcreated⟩ := versionOrder_tie hab hba
    exact allRows_anti hdb hat ((List.mem_insertionSort _).mpr ha)
      ((List.mem_insertionSort _).mpr hb) hkey hcreated
  rw [fetchVersions, hsplit, Collapse.insertionSort_filter hanti]
  rfl

end ObjectsService
end SimpleStorage
