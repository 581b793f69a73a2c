import SimpleStorage.Objects.SortedRows
import SimpleStorage.Objects.TableEffects

/-!
# Versions whose transactions overlap

The transaction of `commitVersion` stamps its version with the time it *began* and points the
key at it when it *commits*.  The upsert of the key's row serialises the transactions from
that statement on, so all that comes after it is one step here.  What stays open is when a
transaction that has begun comes to its turn: one that began earlier may well commit later.

`deleteVersion` and `listAllVersions` go by the stamps, the pointer by the commits.
`agree_iff` says that they agree if and only if the transaction that committed last is
also the one that began last.

* `Inv.step`, `Inv.run`: the history of the key is the list of the commits;
* `KeepsPointer.of_beganLast`, `ListsLatestFirst.of_beganLast`: what follows from the order;
* `beganLast_of_listsLatestFirst`: the order, read off the listing.
-/

namespace SimpleStorage
namespace CommitOrder

open ObjectsService ObjectsTypes Program Query ReadCommitted Statements

/-! ## The writers of one key -/

/-- A transaction of `commitVersion` in a versioned bucket: what it inserts, what the database
generates for it, and when it began. -/
structure Transaction where
  guid : Guid
  /-- The random bytes of the version id. -/
  random : Bytes
  length_random : random.length = 16
  values : VersionValues
  startedAt : Timestamp
  deriving DecidableEq

def Transaction.versionId (t : Transaction) : Text := Codec.hex t.random

theorem Transaction.versionId_ne_null (t : Transaction) : t.versionId ≠ nullVersionId :=
  hex_ne_null t.length_random

/-- What may happen next: a PUT begins its transaction, or the `i`-th transaction that has
begun does all the rest.  One that never does was rolled back. -/
inductive Move
  | begin (t : Transaction)
  | commit (i : ℕ)

structure System where
  db : Database
  running : List Transaction := []
  /-- The transactions that are through, the last one first. -/
  committed : List Transaction := []

variable (k : BucketKey)

/-- A guid that is in use, or a version id the key has already: a unique index refuses the row. -/
def rejects (t : Transaction) (db : Database) : Bool :=
  (db.objects.any fun o => o.guid = t.guid) ||
    db.objectVersions.any fun v => v.guid = t.guid ||
      (v.objectGuid = (commitRow t.guid k db).guid && v.versionId = t.versionId)

def step (s : System) : Move → System
  | .begin t => { s with running := s.running ++ [t] }
  | .commit i =>
      match s.running[i]? with
      | none => s
      | some t =>
          if rejects k t s.db then { s with running := s.running.eraseIdx i }
          else {
            db := (commitVersion t.guid t.startedAt k.1 k.2 t.versionId t.values s.db).2
            running := s.running.eraseIdx i
            committed := t :: s.committed }

/-- **What becomes of the key in a history of PUTs.** -/
def run (s : System) (moves : List Move) : System := moves.foldl (step k) s

/-- What the key points at. -/
def latestVersionGuid (db : Database) : Option Guid :=
  (findObject k.1 k.2 db).bind (·.latestVersionGuid)

/-! ## The history is the list of the commits -/

structure Inv (s : System) : Prop where
  constraints : s.db.Constraints
  history : (history s.db k).map (fun v => (v.guid, v.createdAt)) =
    s.committed.map fun t => (t.guid, t.startedAt)
  pointer : latestVersionGuid k s.db = s.committed.head?.map (·.guid)

variable {k}

theorem not_rejects {t : Transaction} {db : Database} (h : ¬ rejects k t db = true) :
    (∀ o ∈ db.objects, o.guid ≠ t.guid) ∧ (∀ v ∈ db.objectVersions, v.guid ≠ t.guid) ∧
      ∀ v ∈ db.objectVersions, v.objectGuid = (commitRow t.guid k db).guid →
        v.versionId ≠ t.versionId := by
  simp only [rejects, Bool.or_eq_true, List.any_eq_true, decide_eq_true_eq, Bool.and_eq_true,
    not_or, not_exists, not_and] at h
  exact ⟨h.1, fun v hv => (h.2 v hv).1, fun v hv => (h.2 v hv).2⟩

/-- A commit points its key at the version it inserts. -/
theorem latestVersionGuid_commitVersion {db : Database} (hdb : db.Constraints) {guid : Guid}
    (hfresh : ∀ o ∈ db.objects, o.guid ≠ guid) (createdAt : Timestamp) (versionId : Text)
    (values : VersionValues) :
    latestVersionGuid k (commitVersion guid createdAt k.1 k.2 versionId values db).2 = some guid := by
  obtain ⟨o, ho, hguid⟩ :=
    Option.map_eq_some_iff.mp (upsertObject_spec guid k hdb hfresh).objectGuid_self
  change o.guid = (commitRow guid k db).guid at hguid
  rw [latestVersionGuid, commitVersion_eq, findObject_pointLatest]
  change (((findObject k.1 k.2 (upsertObject guid k.1 k.2 db).2).map _).bind _) = _
  rw [ho, Option.map_some, if_pos hguid]
  rfl

theorem Inv.step {s : System} (h : Inv k s) (m : Move) : Inv k (step k s m) := by
  cases m with
  | begin t => exact ⟨h.constraints, h.history, h.pointer⟩
  | commit i =>
    rw [CommitOrder.step]
    cases s.running[i]? with
    | none => exact h
    | some t =>
      by_cases hrejects : rejects k t s.db = true
      · simp only [if_pos hrejects]
        exact ⟨h.constraints, h.history, h.pointer⟩
      · simp only [if_neg hrejects]
        obtain ⟨hobject, hversion, hid⟩ := not_rejects hrejects
        refine ⟨?_, ?_, ?_⟩
        · exact constraints_commitVersion h.constraints hobject hversion fun _ => hid
        · rw [history_commitVersion h.constraints hobject, VersionedMap.write, Function.update_self,
            if_neg (by simpa using t.versionId_ne_null), List.map_cons, h.history]
          rfl
        · exact latestVersionGuid_commitVersion h.constraints hobject _ _ _

/-- **After any history.** -/
theorem Inv.run {s : System} (h : Inv k s) (moves : List Move) : Inv k (run k s moves) := by
  induction moves generalizing s with
  | nil => exact h
  | cons m moves ih => exact ih (h.step m)

/-- Before the first PUT, when the key is not there. -/
theorem inv_start {db : Database} (hdb : db.Constraints) (hnew : findObject k.1 k.2 db = none) :
    Inv k { db } where
  constraints := hdb
  history := by
    rw [history_of_none (by rw [objectGuid, hnew, Option.map_none])]
    rfl
  pointer := by
    rw [latestVersionGuid, hnew]
    rfl

/-! ## What the service makes of it -/

variable (k) in
/-- **Removing any version but the one the key points at leaves the pointer alone.** -/
def KeepsPointer (db : Database) : Prop :=
  ∀ w : World, w.db = db → ∀ v ∈ history db k, latestVersionGuid k db ≠ some v.guid →
    wp (deleteVersion v.objectGuid v.versionId)
      (fun _ w' => latestVersionGuid k w'.db = latestVersionGuid k db) (fun _ _ => False) w

variable (k) in
/-- **The version a key points at comes first among its versions**, on every page that does not
resume inside the key. -/
def ListsLatestFirst (db : Database) : Prop :=
  ∀ q : ListVersionsQuery, q.bucketGuid = k.1 → q.keyMarker ≠ some k.2 →
    ∀ item, (listAllVersions db q).versions.find? (·.key = k.2) = some item → item.isLatest = true

/-- **The transaction that committed last began last**, by the stamps of those that committed. -/
def BeganLast (s : System) : Prop :=
  ∀ last rest, s.committed = last :: rest → ∀ t ∈ rest, t.startedAt < last.startedAt

/-- The newest row by its stamp is the one the key points at. -/
structure Newest (k : BucketKey) (db : Database) (d : ObjectVersionRow) : Prop where
  mem : d ∈ history db k
  latest : latestVersionGuid k db = some d.guid
  later : ∀ v ∈ history db k, v ≠ d → v.createdAt < d.createdAt

theorem Inv.newest {s : System} (h : Inv k s) (hlast : BeganLast s) {v : ObjectVersionRow}
    (hv : v ∈ Statements.history s.db k) : ∃ d, Newest k s.db d := by
  have hhistory := h.history
  cases hcommitted : s.committed with
  | nil =>
    rw [hcommitted, List.map_nil, List.map_eq_nil_iff] at hhistory
    rw [hhistory] at hv
    cases hv
  | cons last rest =>
    rw [hcommitted, List.map_cons] at hhistory
    obtain ⟨d, older, hsplit, hd, holder⟩ := List.map_eq_cons_iff.mp hhistory
    obtain ⟨hguid, hstarted⟩ := Prod.mk.inj hd
    refine ⟨d, ?_, ?_, fun u hu hne => ?_⟩
    · rw [hsplit]
      exact List.mem_cons_self
    · rw [h.pointer, hcommitted, List.head?_cons, Option.map_some, hguid]
    · rw [hsplit] at hu
      have hu' := (List.mem_cons.mp hu).resolve_left hne
      have hmem := List.mem_map_of_mem (f := fun v : ObjectVersionRow => (v.guid, v.createdAt)) hu'
      rw [holder, List.mem_map] at hmem
      obtain ⟨t, ht, htu⟩ := hmem
      have hlt := hlast last rest hcommitted t ht
      rw [(Prod.mk.inj htu).2, ← hstarted] at hlt
      exact hlt

/-! ### Removing a version -/

/-- A version is found by its id. -/
theorem findVersion_self {db : Database} (hdb : db.Constraints) {v : ObjectVersionRow}
    (hv : v ∈ db.objectVersions) : findVersion v.objectGuid v.versionId db = some v := by
  cases h : findVersion v.objectGuid v.versionId db with
  | none =>
    have := List.find?_eq_none.mp h v hv
    simp at this
  | some u =>
    have hu := List.find?_some h
    rw [Bool.and_eq_true, decide_eq_true_iff, decide_eq_true_iff] at hu
    rw [List.inj_on_of_nodup_map hdb.version_id (List.mem_of_find?_eq_some h) hv
      (Prod.ext hu.1 hu.2)]

theorem Newest.removeVersion {db : Database} {d v : ObjectVersionRow}
    (h : Newest k db d) (hv : v ∈ history db k) (hne : d.guid ≠ v.guid) :
    latestVersionGuid k (removeVersion v.objectGuid v.guid db) = some d.guid := by
  obtain ⟨hmem, hguid⟩ := mem_history.mp hv
  obtain ⟨hdmem, hdguid⟩ := mem_history.mp h.mem
  have hsame : d.objectGuid = v.objectGuid := Option.some.inj (hdguid.symm.trans hguid)
  have hnewest : newestVersion v.objectGuid (deleteVersions (·.guid = v.guid) db).2 = some d := by
    rw [newestVersion, versionsOf_deleteVersions]
    refine newestBy_eq ?_ fun u hu hud => ?_
    · simp [versionsOf, hdmem, hsame, hne]
    · have hu' := List.mem_filter.mp (List.mem_filter.mp hu).1
      refine h.later u (mem_history.mpr ⟨hu'.1, ?_⟩) hud
      rw [of_decide_eq_true hu'.2]
      exact hguid
  obtain ⟨o, ho, hoguid⟩ := Option.map_eq_some_iff.mp hguid
  rw [removeVersion_eq, hnewest, latestVersionGuid, findObject_pointLatest]
  change (((findObject k.1 k.2 db).map _).bind _) = _
  rw [ho, Option.map_some, if_pos hoguid]
  rfl

theorem KeepsPointer.of_beganLast {s : System} (h : Inv k s) (hlast : BeganLast s) :
    KeepsPointer k s.db := by
  intro w hw v hv hne
  obtain ⟨d, hd⟩ := h.newest hlast hv
  have hmem := (mem_history.mp hv).1
  rw [deleteVersion, wp_bind, World.select, wp_query, hw, findVersion_self h.constraints hmem,
    wp_bind, wp_orThrow_some, wp_bind, World.execute, wp_alter, wp_bind]
  refine wp_mono (deleteBlobs_tables _ _) ?_ fun _ _ h => h
  intro _ w' hdb
  rw [wp_pure, hdb, hw, hd.latest]
  refine hd.removeVersion hv fun heq => hne ?_
  rw [hd.latest, heq]

/-! ### The first of a key on a page -/

section FirstOfKey

variable {q : ListVersionsQuery} {limit : ℕ} {key : Text} {rows : List JoinedRow} {row : JoinedRow}
  {s s' : VersionsState}

/-- A turn of the loop of `listAllVersions` that does not end it. -/
inductive Turn (q : ListVersionsQuery) (row : JoinedRow) (s s' : VersionsState) : Prop
  | passed (h : s'.versions = s.versions)
      (hskipping : s'.skipping = s.skipping ∨ q.keyMarker = some row.key)
      (hwhy : s.skipping = true ∨ q.keyMarker = some row.key ∨
        groupOf q.pre q.delimiter row.key ≠ none)
  | shown (h : s'.versions = s.versions ++ [toVersionListItem row]) (hskipping : s'.skipping = false)
      (hgroup : groupOf q.pre q.delimiter row.key = none)

/-- The loop ends at a row, or passes over it, or shows it. -/
theorem versionsLoop_cons (q : ListVersionsQuery) (limit : ℕ) (row : JoinedRow)
    (rows : List JoinedRow) (s : VersionsState) :
    (versionsLoop q limit (row :: rows) s).versions = s.versions ∨
      ∃ s', Turn q row s s' ∧ versionsLoop q limit (row :: rows) s = versionsLoop q limit rows s' := by
  rw [versionsLoop]
  by_cases hskipping : s.skipping = true
  · rw [if_pos hskipping]
    by_cases hmarker : q.keyMarker = some row.key ∧ q.versionIdMarker = some row.version.versionId
    · rw [if_pos hmarker]
      exact Or.inr ⟨{ s with skipping := false },
        .passed rfl (Or.inr hmarker.1) (Or.inl hskipping), rfl⟩
    · rw [if_neg hmarker]
      exact Or.inr ⟨s, .passed rfl (Or.inl rfl) (Or.inl hskipping), rfl⟩
  · rw [if_neg hskipping]
    by_cases hat : ((present q.keyMarker).isSome && (present q.versionIdMarker).isNone
        && (q.keyMarker = some row.key : Bool)) = true
    · rw [if_pos hat]
      rw [Bool.and_eq_true, decide_eq_true_iff] at hat
      exact Or.inr ⟨s, .passed rfl (Or.inl rfl) (Or.inr (Or.inl hat.2)), rfl⟩
    · rw [if_neg hat]
      cases hgroup : groupOf q.pre q.delimiter row.key with
      | some commonPrefix =>
        have hwhy : s.skipping = true ∨ q.keyMarker = some row.key ∨
            groupOf q.pre q.delimiter row.key ≠ none := Or.inr (Or.inr (by simp [hgroup]))
        dsimp only
        by_cases hshown : commonPrefix ∈ s.commonPrefixes
        · rw [if_pos hshown]
          exact Or.inr ⟨s, .passed rfl (Or.inl rfl) hwhy, rfl⟩
        · rw [if_neg hshown]
          split_ifs
          · exact Or.inl rfl
          · exact Or.inr ⟨{ s with commonPrefixes := s.commonPrefixes ++ [commonPrefix] },
              .passed rfl (Or.inl rfl) hwhy, rfl⟩
      | none =>
        dsimp only
        split_ifs
        · exact Or.inl rfl
        · exact Or.inr ⟨_, .shown rfl (by simpa using hskipping) hgroup, rfl⟩

theorem find?_item_of_ne (h : row.key ≠ key) :
    [toVersionListItem row].find? (·.key = key) = none :=
  List.find?_cons_of_neg (by exact fun hkey => h (of_decide_eq_true hkey))

/-- What is on the page stays at its front. -/
theorem versionsLoop_append (rows : List JoinedRow) (s : VersionsState) :
    s.versions <+: (versionsLoop q limit rows s).versions := by
  induction rows generalizing s with
  | nil => exact List.prefix_refl _
  | cons row rows ih =>
    rcases versionsLoop_cons q limit row rows s with hend | ⟨s', hturn, heq⟩
    · rw [hend]
    · rw [heq]
      cases hturn with
      | passed h => exact h ▸ ih s'
      | shown h => exact (List.prefix_append _ _).trans (h ▸ ih s')

/-- A page that is still looking for its marker shows nothing of rows without it. -/
theorem versionsLoop_of_skipping (hskipping : s.skipping = true)
    (hrows : ∀ row ∈ rows, q.keyMarker ≠ some row.key) :
    (versionsLoop q limit rows s).versions = s.versions := by
  induction rows generalizing s with
  | nil => rfl
  | cons row rows ih =>
    have hrow := hrows row List.mem_cons_self
    rw [versionsLoop, if_pos hskipping, if_neg fun h => hrow h.1]
    exact ih hskipping fun row hmem => hrows row (List.mem_cons_of_mem _ hmem)

/-- Rows of a key that is in a common prefix are not shown themselves. -/
theorem find?_versionsLoop_of_group (hgroup : groupOf q.pre q.delimiter key ≠ none)
    (hs : s.versions.find? (·.key = key) = none) :
    (versionsLoop q limit rows s).versions.find? (·.key = key) = none := by
  induction rows generalizing s with
  | nil => exact hs
  | cons row rows ih =>
    rcases versionsLoop_cons q limit row rows s with hend | ⟨s', hturn, heq⟩
    · rw [hend]
      exact hs
    · rw [heq]
      cases hturn with
      | passed h => exact ih (h ▸ hs)
      | shown h _ hnone =>
        refine ih ?_
        have hkey : row.key ≠ key := by
          rintro rfl
          exact hgroup hnone
        rw [h, List.find?_append, hs, Option.none_or, find?_item_of_ne hkey]

/-- **The first version of a key on a page is the first row of the key in the batch**, unless the
page resumes inside the key. -/
theorem find?_versionsLoop (hsorted : rows.Pairwise fun r r' => r.key ≤ r'.key)
    (hmarker : q.keyMarker ≠ some key)
    (hfrom : s.skipping = true → ∀ m, q.keyMarker = some m → ∀ row ∈ rows, m ≤ row.key)
    (hs : s.versions.find? (·.key = key) = none) {item : VersionListItem}
    (hitem : (versionsLoop q limit rows s).versions.find? (·.key = key) = some item) :
    ∃ row, rows.find? (·.key = key) = some row ∧ item = toVersionListItem row := by
  induction rows generalizing s with
  | nil =>
    rw [versionsLoop, hs] at hitem
    cases hitem
  | cons row rows ih =>
    obtain ⟨hle, hsorted⟩ := List.pairwise_cons.mp hsorted
    rcases versionsLoop_cons q limit row rows s with hend | ⟨s', hturn, heq⟩
    · rw [hend, hs] at hitem
      cases hitem
    rw [heq] at hitem
    by_cases hkey : row.key = key
    · cases hturn with
      | passed h hskipping hwhy =>
        have hne : q.keyMarker ≠ some row.key := hkey ▸ hmarker
        have hnone : (versionsLoop q limit rows s').versions.find? (·.key = key) = none := by
          rcases hwhy with hskip | hat | hgroup
          · -- the marked key comes before this one, so the marker is not found any more
            rw [versionsLoop_of_skipping ((hskipping.resolve_right hne).trans hskip), h]
            · exact hs
            · intro row' hrow' hat
              have hm := hfrom hskip _ hat row List.mem_cons_self
              exact hne (le_antisymm hm (hle row' hrow') ▸ hat)
          · exact absurd hat hne
          · exact find?_versionsLoop_of_group (hkey ▸ hgroup) (h ▸ hs)
        rw [hnone] at hitem
        cases hitem
      | shown h _ _ =>
        refine ⟨row, List.find?_cons_of_pos (by simpa using hkey), ?_⟩
        obtain ⟨more, hmore⟩ : s'.versions <+: (versionsLoop q limit rows s').versions :=
          versionsLoop_append rows s'
        rw [← hmore, h, List.append_assoc, List.find?_append, hs, Option.none_or,
          List.singleton_append, List.find?_cons_of_pos (by exact decide_eq_true hkey)]
          at hitem
        exact (Option.some.inj hitem).symm
    · rw [List.find?_cons_of_neg (by simpa using hkey)]
      refine ih hsorted (fun hskip m hm row' hrow' => ?_) ?_ hitem
      · cases hturn with
        | passed _ hskipping _ =>
          rcases hskipping with hsame | hat
          · exact hfrom (hsame ▸ hskip) m hm row' (List.mem_cons_of_mem _ hrow')
          · rw [hm, Option.some.injEq] at hat
            exact hat ▸ hle row' hrow'
        | shown _ hskipping _ =>
          rw [hskipping] at hskip
          cases hskip
      · cases hturn with
        | passed h _ _ => exact h ▸ hs
        | shown h _ _ =>
          rw [h, List.find?_append, hs, Option.none_or, find?_item_of_ne hkey]

end FirstOfKey

/-! ### What the listing goes by -/

theorem pairwise_fetchVersions (db : Database) (q : ListVersionsQuery) :
    (fetchVersions db q).Pairwise fun r r' => r.key ≤ r'.key := by
  refine ((List.pairwise_insertionSort versionOrder _).imp fun h => ?_).sublist
    (List.take_sublist _ _)
  rcases versionOrder_iff.mp h with hlt | ⟨heq, -⟩
  · exact hlt.le
  · exact heq.le

theorem mem_fetchVersions {db : Database} {q : ListVersionsQuery} {row : JoinedRow}
    (h : row ∈ fetchVersions db q) : row ∈ versionRows db ∧ q.admits row = true :=
  List.mem_filter.mp ((List.mem_insertionSort _).mp (List.mem_of_mem_take h))

/-- A page that looks for its marker reads its batch from the marked key on. -/
theorem le_of_mem_fetchVersions {db : Database} {q : ListVersionsQuery} {m : Text}
    (hm : q.keyMarker = some m) {row : JoinedRow} (h : row ∈ fetchVersions db q) : m ≤ row.key := by
  have hadmits := (mem_fetchVersions h).2
  rw [ListVersionsQuery.admits, Bool.and_eq_true, hm] at hadmits
  cases m with
  | nil => exact PrefixOrder.le_of_isPrefix List.nil_prefix
  | cons c m => exact collatedGreaterOrEqual_iff.mp hadmits.2

/-- The rows of the key: its own row, with one of its versions each. -/
theorem mem_history_of_row {db : Database} (hdb : db.Constraints) {row : JoinedRow}
    (hrow : row ∈ versionRows db) (hbucket : row.object.bucketGuid = k.1)
    (hkey : row.object.key = k.2) :
    findObject k.1 k.2 db = some row.object ∧ row.version ∈ history db k := by
  obtain ⟨ho, hv, hguid⟩ := mem_versionRows.mp hrow
  have hfound := (findObject_eq_some hdb.object_key).mpr ⟨ho, hbucket, hkey⟩
  refine ⟨hfound, mem_history.mpr ⟨hv, ?_⟩⟩
  rw [objectGuid, hfound, Option.map_some, hguid]

/-- A row of the key in a batch. -/
theorem of_find?_fetchVersions {db : Database} {q : ListVersionsQuery} (hq : q.bucketGuid = k.1)
    {row : JoinedRow} (hfind : (fetchVersions db q).find? (·.key = k.2) = some row) :
    row ∈ versionRows db ∧ q.admits row = true ∧ row.object.bucketGuid = k.1 ∧
      row.object.key = k.2 := by
  obtain ⟨hrow, hadmits⟩ := mem_fetchVersions (List.mem_of_find?_eq_some hfind)
  have hkey := List.find?_some hfind
  refine ⟨hrow, hadmits, ?_, of_decide_eq_true hkey⟩
  rw [ListVersionsQuery.admits, Bool.and_eq_true, Bool.and_eq_true, decide_eq_true_iff] at hadmits
  exact hadmits.1.1.trans hq

/-- The first row of the key in a batch is the newest one. -/
theorem Newest.find?_fetchVersions {db : Database} {d : ObjectVersionRow} (hdb : db.Constraints)
    (h : Newest k db d) {q : ListVersionsQuery} (hq : q.bucketGuid = k.1) {row : JoinedRow}
    (hfind : (fetchVersions db q).find? (·.key = k.2) = some row) :
    findObject k.1 k.2 db = some row.object ∧ row.version = d := by
  obtain ⟨hrow, hadmits, hbucket, hkey⟩ := of_find?_fetchVersions hq hfind
  obtain ⟨hfound, hmem⟩ := mem_history_of_row hdb hrow hbucket hkey
  refine ⟨hfound, ?_⟩
  by_contra hne
  have hlater := h.later row.version hmem hne
  -- the row with the newest version is sorted before this one
  have hdrow : (⟨row.object, d⟩ : JoinedRow) ∈ versionRows db := by
    have hd := mem_history.mp h.mem
    have hguid := (objectGuid_eq_some hdb.object_key).mpr
      ⟨row.object, (mem_versionRows.mp hrow).1, hbucket, hkey, rfl⟩
    exact mem_versionRows.mpr ⟨(mem_versionRows.mp hrow).1, hd.1,
      Option.some.inj (hd.2.symm.trans hguid)⟩
  have hin : (⟨row.object, d⟩ : JoinedRow) ∈
      ((versionRows db).filter q.admits).insertionSort versionOrder :=
    (List.mem_insertionSort _).mpr (List.mem_filter.mpr ⟨hdrow, hadmits⟩)
  have hall : (((versionRows db).filter q.admits).insertionSort versionOrder).find?
      (·.key = k.2) = some row := by
    rw [← List.take_append_drop (resolveLimit q.maxKeys * 2 + 1)
      (((versionRows db).filter q.admits).insertionSort versionOrder), List.find?_append]
    change ((fetchVersions db q).find? _).or _ = _
    rw [hfind, Option.some_or]
  obtain ⟨-, before, behind, hsplit, hbefore⟩ := List.find?_eq_some_iff_append.mp hall
  have hsorted := List.pairwise_insertionSort versionOrder ((versionRows db).filter q.admits)
  rw [hsplit] at hin hsorted
  rcases List.mem_append.mp hin with hin | hin
  · have := hbefore _ hin
    rw [Bool.not_eq_true', decide_eq_false_iff_not] at this
    exact this hkey
  · rcases List.mem_cons.mp hin with heq | hin
    · rw [← heq] at hlater
      exact absurd hlater (lt_irrefl _)
    · have horder := (List.pairwise_cons.mp (List.pairwise_append.mp hsorted).2.1).1 _ hin
      rcases versionOrder_iff.mp horder with hlt | ⟨-, hle⟩
      · exact absurd hlt (lt_irrefl _)
      · exact absurd hlater (not_lt.mpr hle)

theorem ListsLatestFirst.of_beganLast {s : System} (h : Inv k s) (hlast : BeganLast s) :
    ListsLatestFirst k s.db := by
  intro q hq hmarker item hitem
  obtain ⟨row, hfind, rfl⟩ := find?_versionsLoop (pairwise_fetchVersions s.db q) hmarker
    (fun _ m hm row hrow => le_of_mem_fetchVersions hm hrow) rfl hitem
  obtain ⟨hrow, -, hbucket, hkey⟩ := of_find?_fetchVersions hq hfind
  obtain ⟨d, hd⟩ := h.newest hlast (mem_history_of_row h.constraints hrow hbucket hkey).2
  obtain ⟨hfound, rfl⟩ := hd.find?_fetchVersions h.constraints hq hfind
  have hlatest := hd.latest
  rw [latestVersionGuid, hfound, Option.bind_some] at hlatest
  exact decide_eq_true hlatest

/-! ### The order, read off the listing -/

variable (k) in
/-- A listing of everything from the key on. -/
def keyListing : ListVersionsQuery := { bucketGuid := k.1, pre := some k.2 }

theorem fetchVersions_keyListing (db : Database) :
    fetchVersions db (keyListing k) =
      (allRows db k.1 (some k.2)).take (defaultMaxKeys * 2 + 1) := by
  have hadmits : (keyListing k).admits = versionInScope k.1 (some k.2) := by
    funext row
    exact Bool.and_true _
  rw [fetchVersions, hadmits]
  rfl

/-- Its first row is shown, if there is one. -/
theorem find?_keyListing {db : Database} {row : JoinedRow} {rest : List JoinedRow}
    (hrows : allRows db k.1 (some k.2) = row :: rest) (hkey : row.key = k.2) :
    (listAllVersions db (keyListing k)).versions.find? (·.key = k.2) =
      some (toVersionListItem row) := by
  obtain ⟨rest', hrest'⟩ : ∃ rest', fetchVersions db (keyListing k) = row :: rest' := by
    rw [fetchVersions_keyListing, hrows]
    exact ⟨_, List.take_succ_cons⟩
  change (versionsLoop (keyListing k) _ (fetchVersions db (keyListing k)) _).versions.find? _ = _
  have hgroup : groupOf (keyListing k).pre (keyListing k).delimiter row.key = none :=
    groupOf_of_no_delimiter rfl row.key
  have hroom : ¬ resolveLimit (keyListing k).maxKeys ≤ (versionsStart (keyListing k)).count :=
    Nat.not_succ_le_zero 999
  rw [hrest', versionsLoop, if_neg (by exact Bool.false_ne_true),
    if_neg (by exact Bool.false_ne_true), hgroup]
  dsimp only
  rw [if_neg hroom]
  obtain ⟨more, hmore⟩ := @versionsLoop_append (keyListing k) (resolveLimit (keyListing k).maxKeys) rest' {
    versionsStart (keyListing k) with
    versions := (versionsStart (keyListing k)).versions ++ [toVersionListItem row]
    last := some (row.key, row.version.versionId) }
  rw [← hmore]
  exact List.find?_cons_of_pos (by exact decide_eq_true hkey)

/-- If the page shows the latest version first, it is the first row. -/
theorem head?_allRows_of_listsLatestFirst {db : Database} (hdb : db.Constraints)
    (hlists : ListsLatestFirst k db) {o : ObjectRow} {d : ObjectVersionRow}
    (hd : (⟨o, d⟩ : JoinedRow) ∈ allRows db k.1 (some k.2)) (hkey : o.key = k.2)
    (hlatest : o.latestVersionGuid = some d.guid) :
    (allRows db k.1 (some k.2)).head? = some ⟨o, d⟩ := by
  cases hrows : allRows db k.1 (some k.2) with
  | nil =>
    rw [hrows] at hd
    cases hd
  | cons row rest =>
    have hmem : row ∈ allRows db k.1 (some k.2) := hrows ▸ List.mem_cons_self
    obtain ⟨hrow, hbucket, hpre⟩ := mem_allRows.mp hmem
    obtain ⟨hdrow, hdbucket, -⟩ := mem_allRows.mp hd
    -- no key of the listing comes before the key itself
    have hrowkey : row.object.key = k.2 := by
      have hsorted := List.pairwise_insertionSort versionOrder
        ((versionRows db).filter (versionInScope k.1 (some k.2)))
      change (allRows db k.1 (some k.2)).Pairwise versionOrder at hsorted
      refine le_antisymm ?_ (PrefixOrder.le_of_isPrefix hpre)
      rw [hrows] at hsorted hd
      rcases List.mem_cons.mp hd with heq | hd
      · rw [← heq, hkey]
      · rw [← hkey]
        rcases versionOrder_iff.mp ((List.pairwise_cons.mp hsorted).1 _ hd) with hlt | ⟨heq, -⟩
        · exact hlt.le
        · exact heq.le
    have hobject : row.object = o := object_eq_of_key_eq hdb (mem_versionRows.mp hrow).1
      (mem_versionRows.mp hdrow).1 (hbucket.trans hdbucket.symm) (hrowkey.trans hkey.symm)
    have hfirst := hlists (keyListing k) rfl (fun h => nomatch h) _ (find?_keyListing hrows hrowkey)
    have hguid : row.object.latestVersionGuid = some row.version.guid := of_decide_eq_true hfirst
    rw [hobject, hlatest, Option.some.injEq] at hguid
    have hversion : d = row.version := List.inj_on_of_nodup_map hdb.version_guid
      (mem_versionRows.mp hdrow).2.1 (mem_versionRows.mp hrow).2.1 hguid
    rw [List.head?_cons, ← hobject, hversion]

/-- The rows of the key, among the rows of the listing before they are sorted. -/
theorem exists_append_versionRows {db : Database} {o : ObjectRow} (ho : o ∈ db.objects)
    (hbucket : o.bucketGuid = k.1) (hkey : o.key = k.2) {older : List ObjectVersionRow}
    {d : ObjectVersionRow} (hversions : versionsOf o.guid db = older ++ [d]) :
    ∃ A B, (versionRows db).filter (versionInScope k.1 (some k.2)) = A ++ ⟨o, d⟩ :: B ∧
      ∀ w ∈ older, (⟨o, w⟩ : JoinedRow) ∈ A := by
  obtain ⟨before, behind, hobjects⟩ := List.append_of_mem ho
  have hscope : ∀ v, versionInScope k.1 (some k.2) ⟨o, v⟩ = true := fun v => by
    rw [versionInScope, Bool.and_eq_true, decide_eq_true_iff, all_likePrefix_iff]
    exact ⟨hbucket, hkey ▸ List.prefix_refl _⟩
  have hrows : (db.objectVersions.filter fun v => v.objectGuid = o.guid).map (JoinedRow.mk o) =
      older.map (JoinedRow.mk o) ++ [⟨o, d⟩] := by
    rw [show (db.objectVersions.filter fun v => v.objectGuid = o.guid) = older ++ [d] from hversions,
      List.map_append]
    rfl
  rw [versionRows, hobjects, List.flatMap_append, List.flatMap_cons, hrows, List.append_assoc,
    List.filter_append, List.filter_append, List.singleton_append, List.filter_cons_of_pos (hscope d),
    ← List.append_assoc]
  refine ⟨_, _, rfl, fun w hw => ?_⟩
  exact List.mem_append_right _ (List.mem_filter.mpr ⟨List.mem_map_of_mem hw, hscope w⟩)

theorem beganLast_of_listsLatestFirst {s : System} (h : Inv k s) (hlists : ListsLatestFirst k s.db) :
    BeganLast s := by
  intro last rest hcommitted t ht
  have hhistory := h.history
  rw [hcommitted, List.map_cons] at hhistory
  obtain ⟨d, older, hsplit, hd, holder⟩ := List.map_eq_cons_iff.mp hhistory
  obtain ⟨hguid, hstarted⟩ := Prod.mk.inj hd
  have htmem := List.mem_map_of_mem (f := fun t : Transaction => (t.guid, t.startedAt)) ht
  rw [← holder, List.mem_map] at htmem
  obtain ⟨w, hw, hwt⟩ := htmem
  rw [← hstarted, ← (Prod.mk.inj hwt).2]
  have hdhistory : d ∈ history s.db k := hsplit ▸ List.mem_cons_self
  obtain ⟨hdmem, hdguid⟩ := mem_history.mp hdhistory
  obtain ⟨o, ho, hoguid⟩ := Option.map_eq_some_iff.mp hdguid
  obtain ⟨homem, hbucket, hkey⟩ := (findObject_eq_some h.constraints.object_key).mp ho
  -- the rows of the key stand in the order of the commits
  have hversions : versionsOf o.guid s.db = older.reverse ++ [d] := by
    have hof := history_of_found ho
    rw [hsplit] at hof
    rw [← List.reverse_reverse (versionsOf o.guid s.db), ← hof, List.reverse_cons]
  obtain ⟨A, B, hAB, hA⟩ := exists_append_versionRows homem hbucket hkey hversions
  have hdA : (⟨o, d⟩ : JoinedRow) ∉ A := by
    have hnodup := (versionRows_nodup h.constraints).filter (versionInScope k.1 (some k.2))
    rw [hAB] at hnodup
    exact fun hmem => (List.disjoint_of_nodup_append hnodup) hmem List.mem_cons_self
  have hlatest : o.latestVersionGuid = some d.guid := by
    have hpointer := h.pointer
    rwa [latestVersionGuid, ho, Option.bind_some, hcommitted, List.head?_cons, Option.map_some,
      ← hguid] at hpointer
  have hfirst : ((A ++ (⟨o, d⟩ : JoinedRow) :: B).insertionSort versionOrder).head? = some ⟨o, d⟩ := by
    rw [← hAB]
    refine head?_allRows_of_listsLatestFirst h.constraints hlists ?_ hkey hlatest
    rw [allRows, List.mem_insertionSort, hAB]
    exact List.mem_append_right _ List.mem_cons_self
  have hnot := Collapse.not_le_of_head?_insertionSort hdA hfirst ⟨o, w⟩
    (hA w (List.mem_reverse.mpr hw))
  rw [versionOrder_iff, not_or, not_and, not_le] at hnot
  exact hnot.2 rfl

/-- **The pointer and the stamps agree if and only if the transaction that committed last is the one
that began last**: then removing any other version leaves the pointer alone, and the version
it points at is listed first.  This is about every history of PUTs on a new key. -/
theorem agree_iff (db : Database) (hdb : db.Constraints) (k : BucketKey)
    (hnew : findObject k.1 k.2 db = none) (moves : List Move) :
    (KeepsPointer k (run k { db } moves).db ∧ ListsLatestFirst k (run k { db } moves).db) ↔
      BeganLast (run k { db } moves) := by
  have hinv := (inv_start hdb hnew).run moves
  exact ⟨fun h => beganLast_of_listsLatestFirst hinv h.2,
    fun h => ⟨KeepsPointer.of_beganLast hinv h, ListsLatestFirst.of_beganLast hinv h⟩⟩

/-! ## A transaction that is overtaken -/

/-- A PUT of the empty payload. -/
def exampleTransaction (guid : Guid) (byte : UInt8) (startedAt : Timestamp) : Transaction where
  guid
  random := List.replicate 16 byte
  length_random := List.length_replicate
  values := { size := 0, etag := [], storagePath := none, createdByAccessKeyId := none }
  startedAt

def exampleKey : BucketKey := (0, "k".toList)

/-- The first transaction commits after two that began later. -/
def overtaken : List Move :=
  [.begin (exampleTransaction 1 1 1), .begin (exampleTransaction 2 2 2), .commit 1,
    .begin (exampleTransaction 3 3 3), .commit 1, .commit 0]

theorem agree_iff_overtaken :
    (KeepsPointer exampleKey (run exampleKey { db := {} } overtaken).db ∧
      ListsLatestFirst exampleKey (run exampleKey { db := {} } overtaken).db) ↔
      BeganLast (run exampleKey { db := {} } overtaken) :=
  agree_iff {} ⟨by decide, by decide, by decide, by decide, by decide⟩ exampleKey rfl overtaken

/-- **The key serves the first transaction's version; removing the second's makes it serve the
third's**, which the listing has shown first all along. -/
theorem overtaken_disagrees :
    latestVersionGuid exampleKey (run exampleKey { db := {} } overtaken).db = some 1 ∧
      ¬ KeepsPointer exampleKey (run exampleKey { db := {} } overtaken).db ∧
      ¬ ListsLatestFirst exampleKey (run exampleKey { db := {} } overtaken).db := by
  refine ⟨by decide +kernel, fun h => ?_, fun h => ?_⟩
  · have hkept := h ⟨(run exampleKey { db := {} } overtaken).db, {}, ⟨false, []⟩, 0⟩ rfl
      ((exampleTransaction 2 2 2).values.row 2 2 (exampleTransaction 2 2 2).versionId 2)
      (by decide +kernel) (by decide +kernel)
    have hafter := stateAfter_of_wp (wp_mono hkept (fun _ _ h => h) fun _ _ h => h.elim)
    exact absurd hafter (by decide +kernel)
  · have hfirst := h { bucketGuid := 0 } rfl (by decide)
      { key := "k".toList, versionId := (exampleTransaction 3 3 3).versionId, isLatest := false,
        isDeleteMarker := false, size := 0, etag := [], storageClass := .standard, lastModified := 3 }
      (by decide +kernel)
    cases hfirst

end CommitOrder
end SimpleStorage
