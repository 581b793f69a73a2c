import SimpleStorage.Objects.CopyKeys
import SimpleStorage.Objects.ReadRaces

/-!
# Moving a key that is overwritten

A move looks up the version of a key, copies it, and drops the key with whatever is there by then.
A version that a PUT commits in between is dropped without having been copied.

* `Clear` is what a step of the PUT has to look out for.
* `Carries` tells of a key that it points at a version with a payload, and `Heeds` what the move may
  rely on as to the two keys.
* `put_moves`, `move_holds`: the steps of the two, mixed with those of the other.
* `not_swallowed`: on every schedule whose commits find the way clear, what the PUT sent is live at one
  of the keys, and `swallowed` one where it is not.
-/

namespace SimpleStorage
namespace MoveRaces

open ObjectsService ObjectsTypes Program Statements StorageService StorageTypes Filing Retention
  ReadRaces

/-! ## A move and a PUT -/

/-- **A move of one key in an unversioned bucket, and a PUT to that key.** -/
structure Meeting where
  source : BucketContext
  target : BucketContext
  key : Text
  newKey : Text
  accessKeyId : Option Text
  put : PutObjectParams
  unversioned : source.versioning = .disabled
  single : isFolder key = false

namespace Meeting

variable (m : Meeting)

/-- Where the key is. -/
def old : BucketKey := (m.source.guid, m.key)

/-- Where it is moved to. -/
def new : BucketKey := (m.target.guid, m.newKey)

/-- The PUT is to the key that is moved. -/
def params : PutObjectParams := { m.put with bucket := m.source, key := m.key }

/-- What the PUT sends. -/
def content : Bytes := m.put.stream.content

end Meeting

inductive Party where
  | mover
  | putter
  deriving DecidableEq, Repr

def Party.program (N : Node) (m : Meeting) : Party → Service Unit
  | .mover => do let _ ← copyKeys N m.source m.target m.key m.newKey true m.accessKeyId
  | .putter => do let _ ← ObjectsService.put N m.params

abbrev MeetingPool : Type := Pool Party Event Fault World Unit

/-- Both have come in, the move as thread 0 and the PUT as thread 1. -/
def begun (N : Node) (m : Meeting) (w : World) : MeetingPool where
  state := w
  threads := [⟨.mover, some (Party.program N m .mover)⟩, ⟨.putter, some (Party.program N m .putter)⟩]

/-- What becomes of the two when they take these turns. -/
def after (N : Node) (m : Meeting) (w : World) (turns : List ℕ) : MeetingPool :=
  (begun N m w).run (Party.program N m) (turns.map .advance)

/-- A thread is through. -/
def succeeded (p : MeetingPool) (i : ℕ) : Bool :=
  match p.threads[i]? with
  | some ⟨_, some (.done _)⟩ => true
  | _ => false

/-- **When both are through, what the PUT sent is live** at the key or where it was moved to. -/
def Survives (N : Node) (m : Meeting) (w : World) (turns : List ℕ) : Prop :=
  succeeded (after N m w turns) 0 = true → succeeded (after N m w turns) 1 = true →
    served N (after N m w turns).state m.old = some m.content ∨
      served N (after N m w turns).state m.new = some m.content

instance (N : Node) (m : Meeting) (w : World) (turns : List ℕ) : Decidable (Survives N m w turns) :=
  inferInstanceAs (Decidable (_ → _))

/-! ## What is on record about them -/

/-- A version of the key has been committed. -/
def Committed (k : BucketKey) (v : Shared Event World) : Prop :=
  ∃ x ∈ v.record, keyCommitted x.2 = some k

/-- The row of the key has been read. -/
def ReadRow (k : BucketKey) (v : Shared Event World) : Prop :=
  ∃ x ∈ v.record, x.2 = .readObject k.1 k.2

/-- A version was looked up. -/
def versionRead : Event → Bool
  | .readVersion _ => true
  | _ => false

def LookedUp (v : Shared Event World) : Prop := ∃ x ∈ v.record, versionRead x.2 = true

instance (k : BucketKey) (v : Shared Event World) : Decidable (ReadRow k v) :=
  inferInstanceAs (Decidable (∃ x ∈ v.record, _))

instance (v : Shared Event World) : Decidable (LookedUp v) :=
  inferInstanceAs (Decidable (∃ x ∈ v.record, _))

/-- **The way is clear**: no version of the key is committed while the key is still there and the move
goes by another version of it, which it has looked up, or whose guid it has read.  A `null` version
whose guid was read only will be gone when it is looked up, and the move fails. -/
def Clear (m : Meeting) (v : Shared Event World) (e : Event) : Prop :=
  keyCommitted e = some m.old → (findObject m.old.1 m.old.2 v.state.db).isSome →
    ¬ LookedUp v ∧ (ReadRow m.old v → AtNull m.old v.state.db)

instance (m : Meeting) (v : Shared Event World) (e : Event) : Decidable (Clear m v e) :=
  inferInstanceAs (Decidable (_ → _ → _ ∧ (_ → _)))

section Record

variable {k : BucketKey} {v : Shared Event World} {i : ℕ} {e : Option Event} {s : World}

theorem committed_after : Committed k (v.after i e s) ↔
    (∃ x, e = some x ∧ keyCommitted x = some k) ∨ Committed k v := by
  constructor
  · rintro ⟨x, hx, hk⟩
    rcases mem_record_after.mp hx with ⟨-, he⟩ | hx
    · exact Or.inl ⟨x.2, he, hk⟩
    · exact Or.inr ⟨x, hx, hk⟩
  · rintro (⟨x, he, hk⟩ | ⟨x, hx, hk⟩)
    · exact ⟨(i, x), mem_record_after.mpr (Or.inl ⟨rfl, he⟩), hk⟩
    · exact ⟨x, mem_record_after.mpr (Or.inr hx), hk⟩

theorem not_committed_nil {w : World} : ¬ Committed k ⟨w, []⟩ := by
  simp [Committed]

theorem ReadRow.mono (h : ReadRow k v) : ReadRow k (v.after i e s) :=
  h.imp fun _ hx => ⟨mem_record_after.mpr (Or.inr hx.1), hx.2⟩

theorem LookedUp.mono (h : LookedUp v) : LookedUp (v.after i e s) :=
  h.imp fun _ hx => ⟨mem_record_after.mpr (Or.inr hx.1), hx.2⟩

end Record

/-! ## What the keys carry -/

/-- **A row stands for a payload**: its blob, if it is there, gives this back. -/
structure Pays (N : Node) (start : List Text) (content : Bytes) (r : ObjectVersionRow)
    (v : Shared Event World) : Prop where
  present : r.isDeleteMarker = false
  blob : ∃ path, path ≠ [] ∧ r.storagePath = some path ∧ Claimed start v.record path ∧
    ∀ blob, v.state.disk.get path = some blob →
      contentOf N v.state.encryption blob (toBlobEncryption r.sse) = some content

/-- A key points at a row that stands for a payload. -/
def Carries (N : Node) (start : List Text) (content : Bytes) (k : BucketKey) (v : Shared Event World) :
    Prop := ∃ o r, Points k v.state.db o r ∧ Pays N start content r v

section Carries

variable {N : Node} {start : List Text} {content : Bytes} {k : BucketKey} {r : ObjectVersionRow}
  {i : ℕ} {v v' : Shared Event World} {e : Option Event} {s : World}

theorem Pays.goes (h : Pays N start content r v) (hgoes : Goes N 0 start i v v') :
    Pays N start content r v' where
  present := h.present
  blob := by
    obtain ⟨path, hne, hpath, hclaimed, hcontent⟩ := h.blob
    refine ⟨path, hne, hpath, hgoes.toRows.claimed hclaimed, fun blob hblob => ?_⟩
    rw [hgoes.encryption]
    exact hcontent blob (hgoes.content path blob hclaimed hblob)

/-- Nor does a thread's own step change it. -/
theorem Pays.moves (h : Pays N start content r v) (hmoves : Moves N 0 start i v v') :
    Pays N start content r v' where
  present := h.present
  blob := by
    obtain ⟨path, hne, hpath, hclaimed, hcontent⟩ := h.blob
    refine ⟨path, hne, hpath, hmoves.toRows.claimed hclaimed, fun blob hblob => ?_⟩
    rw [hmoves.encryption]
    rcases hmoves.disk path with hsame | ⟨-, hnot⟩ | ⟨hnone, -⟩
    · exact hcontent blob (hsame.symm.trans hblob)
    · exact absurd hclaimed hnot
    · rw [hnone] at hblob
      cases hblob

theorem Carries.moves (h : Carries N start content k v) (hmoves : Moves N 0 start i v v')
    (hpoints : ∀ o r, Points k v.state.db o r → Points k v'.state.db o r) :
    Carries N start content k v' := by
  obtain ⟨o, r, hk, hr⟩ := h
  exact ⟨o, r, hpoints o r hk, hr.moves hmoves⟩

/-- **What a key carries is served.** -/
theorem served_of_carries (hfiled : Filed N 0 start v) (hguids : VersionGuids v.state)
    (h : Carries N start content k v) : served N v.state k = some content := by
  obtain ⟨o, r, hpoints, hpays⟩ := h
  obtain ⟨path, hne, hpath, -, hcontent⟩ := hpays.blob
  obtain ⟨blob, hblob⟩ := Option.isSome_iff_exists.mp
    (hfiled.onDisk path (mem_namedPaths.mpr (Or.inl ⟨r, hpoints.mem, hpath⟩)))
  have hselect : selectVersion o none v.state.db = some r :=
    selectVersion_eq hpoints.mem hpoints.latest hguids
  have hpresent : Query.present (some path) = some path := Query.present_eq_some_iff.mpr ⟨rfl, hne⟩
  have hpayload : payload N v.state.encryption v.state.disk path (toBlobEncryption r.sse) =
      some content := by
    rw [payload_eq, hblob, Option.bind_some]
    exact hcontent blob hblob
  obtain ⟨result, hread, -, hstream⟩ := read_eq hpayload none
  have hserves : wp (readObject N k.1 k.2 none) (fun result _ => result.2 = some content)
      (fun _ _ => False) v.state := by
    rw [readObject, wp_bind, getVersion, wp_bind, World.selectFor, wp_observe, hpoints.found, wp_bind,
      wp_orThrow_some, wp_bind, World.selectFor, wp_observe, hselect, wp_bind, wp_orThrow_some, wp_pure,
      toVersionDetail]
    dsimp only
    rw [hpath, hpresent]
    dsimp only
    rw [wp_bind, readPayload, wp, hread]
    exact congrArg some hstream
  rw [served]
  rw [wp] at hserves
  cases hrun : readObject N k.1 k.2 none v.state with
  | ok result w =>
    rw [hrun] at hserves
    exact hserves
  | error e w =>
    rw [hrun] at hserves
    exact hserves.elim

end Carries

/-! ## What the move relies on -/

/-- **The move has read the row of the key**: it still is as it was read, or the version it pointed at
is gone. -/
def Looked (k : BucketKey) (o : ObjectRow) (v : Shared Event World) : Prop :=
  findObject k.1 k.2 v.state.db = some o ∨
    ∃ guid, o.latestVersionGuid = some guid ∧ guid < v.state.calls ∧
      ∀ r ∈ v.state.db.objectVersions, r.guid ≠ guid

/-- **What becomes of the two keys**, as the move sees it. -/
structure Heeds (N : Node) (m : Meeting) (start : List Text) (v v' : Shared Event World) : Prop where
  record : ∀ x ∈ v.record, x ∈ v'.record
  rows : ∀ (k : BucketKey) o, findObject k.1 k.2 v.state.db = some o →
    ∃ o', findObject k.1 k.2 v'.state.db = some o' ∧ o'.guid = o.guid
  fresh : (Committed m.old v → Carries N start m.content m.old v) →
    Committed m.old v' → Carries N start m.content m.old v'
  copied : Carries N start m.content m.new v → Carries N start m.content m.new v'
  looked : ∀ o, ReadRow m.old v → Looked m.old o v → Looked m.old o v'
  waits : LookedUp v → (findObject m.old.1 m.old.2 v.state.db).isSome →
    Committed m.old v' → Committed m.old v

/-- **What the PUT has committed is at one of the keys**, and what else holds besides rows and blobs. -/
structure Sheltered (N : Node) (m : Meeting) (start : List Text) (v : Shared Event World) : Prop where
  integrity : Integrity v.state
  guids : VersionGuids v.state
  generated : ∀ x ∈ v.record, pathGenerated x.2 ≠ some []
  carried : Committed m.old v →
    Carries N start m.content m.old v ∨ Carries N start m.content m.new v

section Heeds

variable {N : Node} {m : Meeting} {start : List Text} {i : ℕ} {v v' v'' : Shared Event World}
  {k : BucketKey} {o : ObjectRow}

theorem Heeds.refl (v : Shared Event World) : Heeds N m start v v where
  record _ h := h
  rows _ o h := ⟨o, h, rfl⟩
  fresh h := h
  copied h := h
  looked _ _ h := h
  waits _ _ h := h

theorem Heeds.isSome (h : Heeds N m start v v') (hsome : (findObject k.1 k.2 v.state.db).isSome) :
    (findObject k.1 k.2 v'.state.db).isSome := by
  obtain ⟨o, ho⟩ := Option.isSome_iff_exists.mp hsome
  obtain ⟨o', ho', -⟩ := h.rows k o ho
  exact Option.isSome_of_eq_some ho'

theorem Heeds.readRow (h : Heeds N m start v v') (hread : ReadRow k v) : ReadRow k v' :=
  hread.imp fun x hx => ⟨h.record x hx.1, hx.2⟩

theorem Heeds.lookedUp (h : Heeds N m start v v') (hlooked : LookedUp v) : LookedUp v' :=
  hlooked.imp fun x hx => ⟨h.record x hx.1, hx.2⟩

theorem Heeds.trans (h : Heeds N m start v v') (h' : Heeds N m start v' v'') : Heeds N m start v v'' where
  record x hx := h'.record x (h.record x hx)
  rows k o ho := by
    obtain ⟨o', ho', hguid⟩ := h.rows k o ho
    obtain ⟨o'', ho'', hguid'⟩ := h'.rows k o' ho'
    exact ⟨o'', ho'', hguid'.trans hguid⟩
  fresh hfresh := h'.fresh (h.fresh hfresh)
  copied hcopied := h'.copied (h.copied hcopied)
  looked o hread hlooked := h'.looked o (h.readRow hread) (h.looked o hread hlooked)
  waits hlooked hsome hcommitted := h.waits hlooked hsome
    (h'.waits (h.lookedUp hlooked) (h.isSome hsome) hcommitted)

end Heeds

/-- **A move and a PUT, as a protocol.** -/
def heeding (N : Node) (m : Meeting) (start : List Text) : Protocol Event World where
  permits v _ e := Clear m v e
  inv := Sheltered N m start
  rely i v v' := i = 0 → Heeds N m start v v'
  guar j v e s := j ≠ 0 → Heeds N m start v (v.after j e s)
  refl _ v _ := .refl v
  trans _ _ _ _ h h' hi := (h hi).trans (h' hi)
  rely_of_guar _ _ _ _ _ hij _ hguar _ hi := hguar fun hj => hij (hi.trans hj.symm)

/-! ## Steps that leave the tables alone -/

section OffTables

variable {N : Node} {m : Meeting} {start : List Text} {i : ℕ} {v : Shared Event World}
  {event : World → Option Event} {effect : World → World}

/-- A path that is generated is no empty text. -/
theorem pathGenerated_of_offTables (h : OffTables N event effect) {w : World} {x : Event}
    (hx : event w = some x) : pathGenerated x ≠ some [] := by
  cases h with
  | read hread =>
    have hreads := hread w x hx
    cases x <;> first | exact hreads.elim | simp [pathGenerated]
  | draw => cases hx
  | generate =>
    cases hx
    exact fun h => storagePathOf_ne_nil _ (Option.some.inj h)
  | write t content =>
    cases hx
    simp [pathGenerated]
  | remove path =>
    cases hx
    simp [pathGenerated]

/-- Whether the key is committed does not change. -/
theorem committed_of_offTables (h : OffTables N event effect) {k : BucketKey} {s : World} :
    Committed k (v.after i (event v.state) s) ↔ Committed k v := by
  rw [committed_after]
  refine or_iff_right ?_
  rintro ⟨x, hx, hk⟩
  rw [keyCommitted_of_offTables (h.event hx)] at hk
  cases hk

/-- Nor what a key carries. -/
theorem carries_of_offTables (h : OffTables N event effect)
    (hmoves : Moves N 0 start i v (v.after i (event v.state) (effect v.state))) {content : Bytes}
    {k : BucketKey} (hcarries : Carries N start content k v) :
    Carries N start content k (v.after i (event v.state) (effect v.state)) :=
  hcarries.moves hmoves fun _ _ hpoints => hpoints.congr (congrArg Database.objects (h.db v.state))
    (congrArg Database.objectVersions (h.db v.state))

theorem heeds_of_offTables (h : OffTables N event effect)
    (hmoves : Moves N 0 start i v (v.after i (event v.state) (effect v.state))) :
    Heeds N m start v (v.after i (event v.state) (effect v.state)) where
  record x hx := mem_record_after.mpr (Or.inr hx)
  rows k o ho := by
    rw [Shared.state_after, h.db]
    exact ⟨o, ho, rfl⟩
  fresh hfresh hcommitted := carries_of_offTables h hmoves (hfresh ((committed_of_offTables h).mp hcommitted))
  copied hcopied := carries_of_offTables h hmoves hcopied
  looked o _ hlooked := by
    rw [Looked, Shared.state_after, h.db]
    refine hlooked.imp_right ?_
    rintro ⟨guid, hlatest, hlt, hgone⟩
    exact ⟨guid, hlatest, hlt.trans_le (h.calls_le v.state), hgone⟩
  waits _ _ hcommitted := (committed_of_offTables h).mp hcommitted

theorem Sheltered.offTables (hv : Sheltered N m start v) (h : OffTables N event effect)
    (hmoves : Moves N 0 start i v (v.after i (event v.state) (effect v.state))) :
    Sheltered N m start (v.after i (event v.state) (effect v.state)) where
  integrity := (Atomic.offTables h).integrity hv.integrity
  guids := VersionGuids.atomic (.offTables h) hv.guids
  generated x hx := by
    rcases mem_record_after.mp hx with ⟨-, he⟩ | hx
    · exact pathGenerated_of_offTables h he
    · exact hv.generated x hx
  carried hcommitted := (hv.carried ((committed_of_offTables h).mp hcommitted)).imp
    (carries_of_offTables h hmoves) (carries_of_offTables h hmoves)

end OffTables

/-- **Rows, blobs and the two keys, as a protocol.** -/
abbrev moving (N : Node) (m : Meeting) (start : List Text) : Protocol Event World :=
  (filing N 0 start).and (heeding N m start)

/-- **What thread `i` goes on knowing** while the other one moves, and it leaves the tables alone. -/
structure Stays (N : Node) (m : Meeting) (start : List Text) (i : ℕ) (known : Shared Event World → Prop) :
    Prop where
  others : ∀ v v', (i = 0 → Heeds N m start v v') → Rows start v v' → known v → known v'
  own : ∀ event effect v, OffTables N event effect →
    Moves N 0 start i v (v.after i (event v.state) (effect v.state)) → known v →
      known (v.after i (event v.state) (effect v.state))

section Known

variable {N : Node} {m : Meeting} {start : List Text} {i : ℕ} {v : Shared Event World} {α : Type}
  {known : Shared Event World → Prop} {k : BucketKey}

theorem stays_true : Stays N m start i fun _ => True := ⟨fun _ _ _ _ _ => trivial, fun _ _ _ _ _ _ => trivial⟩

theorem stays_committed : Stays N m start i (Committed k) where
  others _ _ _ hrows h := h.imp fun _ hx => ⟨hrows.mem hx.1, hx.2⟩
  own _ _ _ hoff _ h := (committed_of_offTables hoff).mpr h

/-- What the other thread does not undo, the move does not while it leaves the tables alone. -/
theorem stays_of_heeds (h : ∀ v v', Heeds N m start v v' → known v → known v') :
    Stays N m start 0 known where
  others v v' hheeds _ hv := h v v' (hheeds rfl) hv
  own _ _ v hoff hmoves hv := h v _ (heeds_of_offTables hoff hmoves) hv

/-- **What leaves the tables alone** keeps to the protocol if it keeps rows and blobs together. -/
theorem offTables_holds {x : Service α} {post : α → Shared Event World → Prop}
    {fail : Fault → Shared Event World → Prop} (hx : x.Every (OffTables N))
    (hstays : Stays N m start i known) (h : (filing N 0 start).holds i x post fail v) (hv : known v) :
    (moving N m start).holds i x (fun a v' => post a v' ∧ known v') (fun _ _ => True) v := by
  refine Protocol.holds_mono (Protocol.holds_both_of_steps
    (fun v v' (hrely : (filing N 0 start).rely i v v') hrely' hv =>
      hstays.others v v' hrely' hrely.1.toRows hv)
    (fun event effect hoff v _ hsheltered hv hmoves => ?_) hx h hv) (fun _ _ h => h) fun _ _ _ => trivial
  exact ⟨fun _ => heeds_of_offTables hoff hmoves, Sheltered.offTables hsheltered hoff hmoves,
    hstays.own _ _ v hoff hmoves hv⟩

end Known

/-! ## Committing a version -/

/-- **Thread `i` commits a version of a key.** -/
structure Commits (N : Node) (m : Meeting) (i : ℕ) (k : BucketKey) (versionId : Text)
    (v v' : Shared Event World) : Prop where
  record : ∃ x, keyCommitted x = some k ∧ Clear m v x ∧ v'.record = (i, x) :: v.record
  state : ∃ values, v'.state = { v.state with
    db := (Statements.commitVersion v.state.calls (N.now v.state.calls) k.1 k.2 versionId values
      v.state.db).2
    calls := v.state.calls + 1 }

section Commit

variable {N : Node} {m : Meeting} {start : List Text} {i : ℕ} {v v' : Shared Event World}
  {k k' : BucketKey} {versionId : Text} {o : ObjectRow} {r : ObjectVersionRow}

theorem Commits.committed (h : Commits N m i k versionId v v') :
    Committed k' v' ↔ k = k' ∨ Committed k' v := by
  obtain ⟨x, hx, -, hrecord⟩ := h.record
  rw [Committed, hrecord]
  simp [hx, Committed]

theorem Commits.points (h : Commits N m i k versionId v v') (hw : Integrity v.state) (hne : k ≠ k')
    (hpoints : Points k' v.state.db o r) : Points k' v'.state.db o r := by
  obtain ⟨values, hstate⟩ := h.state
  rw [hstate]
  exact hpoints.commitVersion_other hw hne

theorem Commits.rows (h : Commits N m i k versionId v v') (hw : Integrity v.state)
    (hfound : findObject k'.1 k'.2 v.state.db = some o) :
    ∃ o', findObject k'.1 k'.2 v'.state.db = some o' ∧ o'.guid = o.guid := by
  obtain ⟨values, hstate⟩ := h.state
  rw [hstate]
  exact findObject_commitVersion hw hfound

/-- **A row that the move has read** is that of the `null` version, which is replaced. -/
theorem Commits.looked (h : Commits N m i m.old nullVersionId v v') (hv : Sheltered N m start v)
    (hread : ReadRow m.old v) (hlooked : Looked m.old o v) : Looked m.old o v' := by
  obtain ⟨x, hx, hclear, -⟩ := h.record
  obtain ⟨values, hstate⟩ := h.state
  have hversions := @objectVersions_commitVersion v.state.calls (N.now v.state.calls) m.old.1 m.old.2
    nullVersionId values v.state.db
  refine Or.inr ?_
  have hgone : ∃ guid, o.latestVersionGuid = some guid ∧ guid < v.state.calls ∧
      ∀ r ∈ keptVersions (commitRow v.state.calls m.old v.state.db).guid nullVersionId
        v.state.db.objectVersions, r.guid ≠ guid := by
    rcases hlooked with hfound | ⟨guid, hlatest, hlt, hgone⟩
    · obtain ⟨o', r, hpoints, hnull⟩ := (hclear hx (Option.isSome_of_eq_some hfound)).2 hread
      obtain rfl : o = o' := Option.some.inj (hfound.symm.trans hpoints.found)
      refine ⟨r.guid, hpoints.latest, hv.guids.lt r hpoints.mem, fun r' hr' hguid => ?_⟩
      have hmem := (keptVersions_sublist _ _ _).subset hr'
      obtain rfl : r' = r := List.inj_on_of_nodup_map hv.guids.nodup hmem hpoints.mem hguid
      have hrow : (commitRow v.state.calls m.old v.state.db).guid = o.guid := by
        rw [commitRow, upsertObject_of_some hfound]
      rw [keptVersions, if_pos rfl, hrow] at hr'
      have hkept := (List.mem_filter.mp hr').2
      rw [decide_eq_true_iff] at hnull
      simp [hpoints.own, hnull] at hkept
    · exact ⟨guid, hlatest, hlt, fun r hr => hgone r ((keptVersions_sublist _ _ _).subset hr)⟩
  obtain ⟨guid, hlatest, hlt, hgone⟩ := hgone
  rw [hstate]
  refine ⟨guid, hlatest, hlt.trans (Nat.lt_succ_self _), fun r hr => ?_⟩
  dsimp only at hr
  rw [hversions, List.mem_append, List.mem_singleton] at hr
  rcases hr with hr | rfl
  · exact hgone r hr
  · exact hlt.ne'

variable {bucket : BucketContext} {key : Text} {values : VersionValues} {written : WriteResult}
  {content : Bytes} {known known' : Shared Event World → Prop}

/-- **The key carries what was written** after its version is committed. -/
theorem commit_moves (hstays : Stays N m start i known)
    (hpath : values.storagePath = some written.storagePath)
    (hsse : values.sse = toEncryptionColumns written.encryption)
    (hpresent : values.isDeleteMarker = false)
    (hcommit : ∀ v v', Commits N m i (bucket.guid, key) versionId v v' → Moves N 0 start i v v' →
      Sheltered N m start v → known v → Carries N start content (bucket.guid, key) v' →
      (i ≠ 0 → Heeds N m start v v') ∧
        (Committed m.old v' → Carries N start m.content m.old v' ∨ Carries N start m.content m.new v') ∧
        known' v')
    (hwrote : WroteBlob N 0 start i content written v) (hv : known v) :
    (moving N m start).holds i (ObjectsService.commitVersion N bucket key versionId values)
      (fun replaced v' => (∀ path ∈ replaced, Retired start path v') ∧ known' v') (fun _ _ => True) v := by
  rw [ObjectsService.commitVersion, World.insertFor, Protocol.holds_perform]
  intro v' hrely hinv hpermits
  have hfiled : Filed N 0 start v' := hinv.1
  have hsheltered : Sheltered N m start v' := hinv.2
  have hv' := hstays.others v v' hrely.2 hrely.1.1.toRows hv
  obtain ⟨blob, hheld, hcontent⟩ := (hwrote.goes hrely.1.1).held
  have hpermits₁ : Permits N 0 start i v' _ := fun x hx => (hpermits x hx).1
  have hstep := hfiled.commit bucket.guid key versionId values hpermits₁
    (fun path h => by
      rw [hpath, Option.some.injEq] at h
      exact ⟨blob, h ▸ hheld⟩)
  have hblob := hheld.present hpermits₁ (by rw [claimOf, hpath, Option.map_some])
  have hpayload : payload N v'.state.encryption v'.state.disk written.storagePath written.encryption =
      some content := by
    rw [payload_eq, hblob]
    exact hcontent
  have hdescriptor : toBlobEncryption values.sse = written.encryption := by
    rw [hsse]
    exact toBlobEncryption_of_payload hpayload
  have hcarries : Carries N start content (bucket.guid, key) (v'.after i (some (.committedVersion
      bucket.guid key values.storagePath values.size v'.state.calls)) { v'.state with
        db := (Statements.commitVersion v'.state.calls (N.now v'.state.calls) bucket.guid key versionId
          values v'.state.db).2
        calls := v'.state.calls + 1 }) := by
    obtain ⟨o, hpoints⟩ := points_commitVersion v'.state (bucket.guid, key) (N.now v'.state.calls)
      versionId values
    refine ⟨o, _, hpoints, hpresent, written.storagePath, fun hnil => ?_, hpath, ?_,
      fun blob' hblob' => ?_⟩
    · exact hsheltered.generated _ hheld.own (congrArg some hnil)
    · exact claimed_after.mpr (Or.inr ⟨v'.state.calls, by
        rw [Option.bind_some, claimOf, hpath, Option.map_some]⟩)
    · obtain rfl : blob = blob' := Option.some.inj (hblob.symm.trans hblob')
      show contentOf N v'.state.encryption blob (toBlobEncryption values.sse) = some content
      rw [hdescriptor]
      exact hcontent
  obtain ⟨hheeds, hcarried, hknown⟩ := hcommit v' _ ⟨⟨_, rfl, (hpermits _ rfl).2, rfl⟩, values, rfl⟩
    hstep.moves hsheltered hv' hcarries
  have hatomic : Atomic N _ _ := .commit bucket.guid key versionId values
  refine ⟨⟨hstep.moves, hheeds⟩, ⟨hstep.filed, hatomic.integrity hsheltered.integrity,
    VersionGuids.atomic hatomic hsheltered.guids, fun x hx => ?_, hcarried⟩, ?_, hknown⟩
  · rcases mem_record_after.mp hx with ⟨-, he⟩ | hx
    · rw [← Option.some.inj he]
      simp [pathGenerated]
    · exact hsheltered.generated x hx
  · refine hfiled.retired_commit hstep fun path h => ?_
    rw [hpath, Option.some.injEq] at h
    exact h ▸ hheld.unclaimed

/-- **A PUT, step by step**: what is known before and after its commit. -/
theorem put_moves (params : PutObjectParams) (hstays : Stays N m start i known)
    (hstays' : Stays N m start i known')
    (hcommit : ∀ versionId v v', (params.bucket.versioning = .disabled → versionId = nullVersionId) →
      Commits N m i (params.bucket.guid, params.key) versionId v v' → Moves N 0 start i v v' →
      Sheltered N m start v → known v →
      Carries N start params.stream.content (params.bucket.guid, params.key) v' →
      (i ≠ 0 → Heeds N m start v v') ∧
        (Committed m.old v' → Carries N start m.content m.old v' ∨ Carries N start m.content m.new v') ∧
        known' v') (hv : known v) :
    (moving N m start).holds i (put N params) (fun _ => known') (fun _ _ => True) v := by
  rw [put, Protocol.holds_bind]
  refine Protocol.holds_mono (offTables_holds (.require _ _) hstays (reading_holds (.require _ _)) hv) ?_
    fun _ _ _ => trivial
  rintro - v₁ ⟨-, hv₁⟩
  rw [Protocol.holds_bind]
  refine Protocol.holds_mono (offTables_holds (.require _ _) hstays (reading_holds (.require _ _)) hv₁) ?_
    fun _ _ _ => trivial
  rintro - v₂ ⟨-, hv₂⟩
  rw [Protocol.holds_bind]
  refine Protocol.holds_mono (offTables_holds (assertQuota_offTables _ _) hstays
    (reading_holds (assertQuota_traceless _ _)) hv₂) ?_ fun _ _ _ => trivial
  rintro - v₃ ⟨-, hv₃⟩
  rw [Protocol.holds_bind]
  refine Protocol.holds_mono (offTables_holds (write_offTables _ _) hstays (write_holds _ _) hv₃) ?_
    fun _ _ _ => trivial
  rintro written v₄ ⟨hwrote, hv₄⟩
  rw [Protocol.holds_bind]
  refine Protocol.holds_mono (offTables_holds (checkWritten_offTables _ _ _) hstays
    (checkWritten_holds _ _ hwrote) hv₄) ?_ fun _ _ _ => trivial
  rintro - v₅ ⟨hwrote, hv₅⟩
  have hversionId : (filing N 0 start).holds i (nextVersionId N params.bucket.versioning)
      (fun versionId _ => params.bucket.versioning = .disabled → versionId = nullVersionId)
      (fun _ _ => True) v₅ := by
    cases params.bucket.versioning with
    | enabled =>
      refine Protocol.holds_mono (reading_holds (nextVersionId_traceless _)) (fun _ _ _ h => ?_)
        fun _ _ _ => trivial
      cases h
    | disabled => exact fun _ => rfl
    | suspended => exact fun _ => rfl
  rw [Protocol.holds_bind]
  refine Protocol.holds_mono (offTables_holds (nextVersionId_offTables _) hstays
    (Protocol.holds_and (traceless_holds _ (fun _ _ hgoes h => WroteBlob.goes h hgoes)
      (nextVersionId_traceless _) hwrote) hversionId) hv₅) ?_ fun _ _ _ => trivial
  rintro versionId v₆ ⟨⟨hwrote, hnull⟩, hv₆⟩
  rw [Protocol.holds_bind]
  refine Protocol.holds_mono (commit_moves hstays rfl rfl rfl
    (fun v v' => hcommit versionId v v' hnull) hwrote hv₆) ?_ fun _ _ _ => trivial
  rintro replaced v₇ ⟨hreplaced, hv₇⟩
  rw [Protocol.holds_bind]
  exact Protocol.holds_mono (offTables_holds (deleteBlobs_offTables _) hstays'
    (deleteBlobs_holds hreplaced) hv₇) (fun _ _ h => h.2) fun _ _ _ => trivial

end Commit

/-! ## The PUT -/

section Putter

variable {N : Node} {m : Meeting} {start : List Text} {v : Shared Event World}

/-- **The PUT** finds the way clear, and its version is at the key when it has committed it. -/
theorem putter_holds : (moving N m start).holds 1 (put N m.params) (fun _ => Committed m.old)
    (fun _ _ => True) v := by
  refine put_moves m.params stays_true stays_committed (fun versionId v v' hnull hcommits hmoves hv _ hcarries =>
    ?_) trivial
  obtain rfl := hnull m.unversioned
  have hcommits : Commits N m 1 m.old nullVersionId v v' := hcommits
  have hcarries : Carries N start m.content m.old v' := hcarries
  obtain ⟨x, hx, hclear, hrecord⟩ := hcommits.record
  refine ⟨fun _ => ?_, fun _ => Or.inl hcarries, hcommits.committed.mpr (Or.inl rfl)⟩
  refine ⟨fun y hy => ?_, fun k o ho => hcommits.rows hv.integrity ho, fun _ _ => hcarries,
    fun hcopied => ?_, fun o => hcommits.looked hv, fun hlooked hsome _ => ?_⟩
  · rw [hrecord]
    exact List.mem_cons_of_mem _ hy
  · by_cases hsame : m.old = m.new
    · exact hsame ▸ hcarries
    · exact hcopied.moves hmoves fun o r => hcommits.points hv.integrity hsame
  · exact absurd hlooked (hclear hx hsome).1

end Putter

/-! ## The move -/

/-- **The PUT has not committed** when the move has looked its version up, and cannot before the key is
dropped. -/
structure Ahead (m : Meeting) (v : Shared Event World) : Prop where
  lookedUp : LookedUp v
  there : (findObject m.old.1 m.old.2 v.state.db).isSome
  uncommitted : ¬ Committed m.old v

/-- **What the move copies**: what the PUT has committed, if it has. -/
def Fated (N : Node) (m : Meeting) (start : List Text) (detail : ObjectVersionDetail)
    (v : Shared Event World) : Prop :=
  (∃ key guid r, detail = toVersionDetail key guid r ∧ Pays N start m.content r v) ∨ Ahead m v

/-- **What the move has copied.** -/
def Copied (N : Node) (m : Meeting) (start : List Text) (v : Shared Event World) : Prop :=
  Carries N start m.content m.new v ∨ Ahead m v

section Mover

variable {N : Node} {m : Meeting} {start : List Text} {v v' : Shared Event World} {α : Type}

theorem Ahead.heeds (h : Ahead m v) (hheeds : Heeds N m start v v') : Ahead m v' where
  lookedUp := hheeds.lookedUp h.lookedUp
  there := hheeds.isSome h.there
  uncommitted hcommitted := h.uncommitted (hheeds.waits h.lookedUp h.there hcommitted)

theorem Copied.heeds (h : Copied N m start v) (hheeds : Heeds N m start v v') : Copied N m start v' :=
  h.imp hheeds.copied (·.heeds hheeds)

/-- A read of the move. -/
theorem reads_moves (event : World → Option Event) {f : World → α}
    (hevent : ∀ w x, event w = some x → x.OfReading) {post : α → Shared Event World → Prop}
    {fail : Fault → Shared Event World → Prop}
    (h : ∀ v', Heeds N m start v v' → Heeds N m start v' (v'.after 0 (event v'.state) v'.state) →
      Sheltered N m start v' → post (f v'.state) (v'.after 0 (event v'.state) v'.state)) :
    (moving N m start).holds 0 (Program.observe event f : Service α) post fail v := by
  rw [Protocol.holds_observe]
  intro v' hrely hinv hpermits
  have hoff : OffTables N event id := .read hevent
  have hstep := hinv.1.shrink (fun x hx => (hpermits x hx).1)
    (.of_reading fun x hx => hevent v'.state x hx) (.refl _) (.refl _) rfl rfl le_rfl
  have hsheltered : Sheltered N m start v' := hinv.2
  exact ⟨⟨hstep.moves, fun h => absurd rfl h⟩, ⟨hstep.filed, hsheltered.offTables hoff hstep.moves⟩,
    h v' (hrely.2 rfl) (heeds_of_offTables hoff hstep.moves) hsheltered⟩

/-- What a query by the key's row finds is what the key points at, if it still is that row. -/
theorem Looked.points {k : BucketKey} {o o' : ObjectRow} {r r' : ObjectVersionRow}
    (h : Looked k o v) (hguids : VersionGuids v.state)
    (hr : selectVersion o none v.state.db = some r) (hpoints : Points k v.state.db o' r') : r = r' := by
  have hmem := List.mem_of_find?_eq_some hr
  have hlatest := List.find?_some hr
  rw [decide_eq_true_iff] at hlatest
  rcases h with hfound | ⟨guid, hguid, -, hgone⟩
  · obtain rfl : o = o' := Option.some.inj (hfound.symm.trans hpoints.found)
    exact List.inj_on_of_nodup_map hguids.nodup hmem hpoints.mem
      (Option.some.inj (hlatest.trans hpoints.latest))
  · exact absurd (Option.some.inj (hlatest.trans hguid)) (hgone r hmem)

/-- **The version the move looks up** is the one the PUT has committed, if it has. -/
theorem getVersion_moves
    (hfresh : Committed m.old v → Carries N start m.content m.old v) :
    (moving N m start).holds 0 (getVersion m.old.1 m.old.2 none) (Fated N m start) (fun _ _ => True) v := by
  have hobject : ∀ (w : World) x, some (Event.readObject m.old.1 m.old.2) = some x → x.OfReading := by
    rintro w x ⟨⟩
    exact trivial
  rw [getVersion, Protocol.holds_bind]
  refine reads_moves _ hobject fun v₁ hheeds₁ hown₁ hv₁ => ?_
  rw [Protocol.holds_bind, Protocol.holds_orThrow]
  refine ⟨fun o ho => ?_, fun _ => trivial⟩
  have hread : ReadRow m.old (v₁.after 0 (some (.readObject m.old.1 m.old.2)) v₁.state) :=
    ⟨_, List.mem_cons_self, rfl⟩
  rw [Protocol.holds_bind]
  refine reads_moves _ (fun w x hx => ?_) fun v₂ hheeds₂ hown₂ hv₂ => ?_
  · obtain ⟨_, -, rfl⟩ := Option.map_eq_some_iff.mp hx
    trivial
  have hlooked := hheeds₂.looked o hread (Or.inl ho)
  have hheeds := ((hheeds₁.trans hown₁).trans hheeds₂).trans hown₂
  rw [Protocol.holds_bind, Protocol.holds_orThrow]
  refine ⟨fun r hr => ?_, fun _ => trivial⟩
  have hevent : (selectVersion o none v₂.state.db).map (Event.readVersion ·.storagePath) =
      some (.readVersion r.storagePath) := by rw [hr, Option.map_some]
  beta_reduce at hheeds ⊢
  rw [hevent] at hheeds ⊢
  by_cases hcommitted : Committed m.old (v₂.after 0 (some (.readVersion r.storagePath)) v₂.state)
  · obtain ⟨o', r', hpoints, hpays⟩ := hheeds.fresh hfresh hcommitted
    obtain rfl := hlooked.points hv₂.guids hr hpoints
    exact Or.inl ⟨_, _, r, rfl, hpays⟩
  · have hthere := (hown₂.isSome (hheeds₂.isSome (Option.isSome_of_eq_some ho)))
    exact Or.inr ⟨⟨_, List.mem_cons_self, rfl⟩, hthere, hcommitted⟩

/-- What the move knows of what it has read. -/
theorem read_moves {detail : ObjectVersionDetail} {path : Text} (hfated : Fated N m start detail v)
    (hpath : Query.present detail.storagePath = some path) :
    (moving N m start).holds 0 (StorageService.read N path none detail.encryption)
      (fun payload v' => payload.stream.content = m.content ∨ Ahead m v') (fun _ _ => True) v := by
  rcases hfated with ⟨key, guid, r, rfl, hpays⟩ | hahead
  · obtain ⟨path', -, hpath', hclaimed, hcontent⟩ := hpays.blob
    obtain rfl : path' = path := by
      have hsome := (Query.present_eq_some_iff.mp hpath).1
      exact Option.some.inj (hpath'.symm.trans hsome)
    refine Protocol.holds_mono (offTables_holds (read_offTables _ _ _) stays_true
      (Filing.read_holds hclaimed none _) trivial) ?_ fun _ _ _ => trivial
    rintro payload v' ⟨⟨blob, content, hblob, hread, -, hstream⟩, -⟩
    have hsame := hcontent blob hblob
    rw [show toBlobEncryption r.sse = (toVersionDetail key guid r).encryption from rfl, hread] at hsame
    exact Or.inl (hstream.trans (Option.some.inj hsame))
  · refine Protocol.holds_mono (offTables_holds (read_offTables _ _ _)
      (stays_of_heeds fun _ _ hheeds h => Ahead.heeds h hheeds) (reading_holds (read_traceless _ _ _)) hahead)
      (fun _ _ h => Or.inr h.2) fun _ _ _ => trivial

/-- **The copy**: the PUT's version is at the new key, if it was committed before. -/
theorem copy_moves (hne : m.old ≠ m.new) {detail : ObjectVersionDetail}
    (hfated : Fated N m start detail v) (accessKeyId : Option Text) :
    (moving N m start).holds 0 (copy N detail m.target m.newKey .copy accessKeyId {})
      (fun _ => Copied N m start) (fun _ _ => True) v := by
  rw [copy, Protocol.holds_bind, Protocol.holds_orThrow]
  refine ⟨fun path hpath => ?_, fun _ => trivial⟩
  rw [Protocol.holds_bind]
  refine Protocol.holds_mono (read_moves hfated hpath) ?_ fun _ _ _ => trivial
  intro payload v₁ hpayload
  have hstays : Stays N m start 0 fun v => payload.stream.content = m.content ∨ Ahead m v :=
    stays_of_heeds fun _ _ hheeds h => h.imp_right (·.heeds hheeds)
  have hstays' : Stays N m start 0 (Copied N m start) :=
    stays_of_heeds fun _ _ hheeds h => h.heeds hheeds
  rw [Protocol.holds_bind]
  refine Protocol.holds_mono (put_moves _ hstays hstays' (fun versionId v v' _ hcommits hmoves hv hknown
    hcarries => ?_) hpayload) ?_ fun _ _ _ => trivial
  · have hcommits : Commits N m 0 m.new versionId v v' := hcommits
    have hcarries : Carries N start payload.stream.content m.new v' := hcarries
    have hcommitted : Committed m.old v' → Committed m.old v := fun h =>
      (hcommits.committed.mp h).resolve_left hne.symm
    refine ⟨fun h => absurd rfl h, fun h => ?_, ?_⟩
    · rcases hknown with hsame | hahead
      · exact Or.inr (hsame ▸ hcarries)
      · exact absurd (hcommitted h) hahead.uncommitted
    · rcases hknown with hsame | hahead
      · exact Or.inl (hsame ▸ hcarries)
      · obtain ⟨x, -, -, hrecord⟩ := hcommits.record
        obtain ⟨o, ho⟩ := Option.isSome_iff_exists.mp hahead.there
        obtain ⟨o', ho', -⟩ := hcommits.rows hv.integrity ho
        refine Or.inr ⟨hahead.lookedUp.imp fun y hy => ⟨?_, hy.2⟩, Option.isSome_of_eq_some ho',
          fun h => hahead.uncommitted (hcommitted h)⟩
        rw [hrecord]
        exact List.mem_cons_of_mem _ hy.1
  · intro result v₂ hcopied
    exact Protocol.holds_mono (offTables_holds (.bind nextCall_offTables fun _ => .pure _) hstays'
      (reading_holds (.bind nextCall_traceless fun _ => .pure _)) hcopied) (fun _ _ h => h.2)
      fun _ _ _ => trivial

/-- **Dropping the key**: the PUT has not committed yet, or what it has committed was copied. -/
theorem drop_moves (hne : m.old ≠ m.new) (hcopied : Copied N m start v) (accessKeyId : Option Text) :
    (moving N m start).holds 0 (ObjectsService.delete N m.source m.key none accessKeyId)
      (fun _ _ => True) (fun _ _ => True) v := by
  rw [ObjectsService.delete, Protocol.holds_bind]
  refine reads_moves (fun _ => none) (by simp) fun v₁ hheeds₁ hown₁ hv₁ => ?_
  cases hfound : findObject m.source.guid m.key v₁.state.db with
  | none => trivial
  | some o =>
    have hcopied₁ := (hcopied.heeds hheeds₁).heeds hown₁
    show Protocol.holds _ 0 (if m.source.versioning = .disabled then _ else _) _ _ _
    rw [if_pos m.unversioned, Protocol.holds_bind, World.execute, Program.alter, Protocol.holds_perform]
    intro v₂ hrely hinv hpermits
    have hsheltered : Sheltered N m start v₂ := hinv.2
    have hheeds₂ : Heeds N m start _ v₂ := hrely.2 rfl
    obtain ⟨hmoves, hfiled, hretired⟩ := purge_holds o.guid v₂ hrely.1 hinv.1 (by simp)
    obtain ⟨o', hfound', hguid⟩ := hheeds₂.rows m.old o hfound
    have hatomic : Atomic N _ _ := .purge o.guid
    refine ⟨⟨hmoves, fun h => absurd rfl h⟩, ⟨hfiled, hatomic.integrity hsheltered.integrity,
      VersionGuids.atomic hatomic hsheltered.guids, hsheltered.generated, fun hcommitted => ?_⟩, ?_⟩
    · refine Or.inr (((hcopied₁.heeds hheeds₂).resolve_right fun h => h.uncommitted hcommitted).moves
        hmoves fun o'' r hpoints => ?_)
      exact hguid ▸ hpoints.purgeObject_other hsheltered.integrity hfound' hne
    · beta_reduce
      rw [Protocol.holds_bind]
      exact Protocol.holds_mono (offTables_holds (deleteBlobs_offTables _) stays_true
        (deleteBlobs_holds hretired) trivial) (fun _ _ _ => trivial) fun _ _ _ => trivial

/-- The loop copies the key alone. -/
theorem copyEach_moves (hne : m.old ≠ m.new) {destination : Text → Text}
    (hdestination : destination m.key = m.newKey)
    (hfresh : Committed m.old v → Carries N start m.content m.old v) (accessKeyId : Option Text) :
    (moving N m start).holds 0 (copyEach N m.source m.target accessKeyId destination [m.key])
      (fun _ => Copied N m start) (fun _ _ => True) v := by
  rw [copyEach, List.forM_eq_forM, List.forM_cons, List.forM_nil, Protocol.holds_bind,
    Protocol.holds_bind]
  refine Protocol.holds_mono (getVersion_moves hfresh) ?_ fun _ _ _ => trivial
  intro detail v₁ hfated
  by_cases hmarker : detail.isDeleteMarker = true
  · rw [if_pos hmarker]
    rcases hfated with ⟨key, guid, r, rfl, hpays⟩ | hahead
    · have hpresent : r.isDeleteMarker = true := hmarker
      rw [hpays.present] at hpresent
      cases hpresent
    · exact Or.inr hahead
  · rw [if_neg hmarker, hdestination, Protocol.holds_bind]
    exact Protocol.holds_mono (copy_moves hne hfated accessKeyId) (fun _ _ h => h) fun _ _ _ => trivial

/-- A key that cannot be dropped is reported. -/
theorem dropEach_moves (hne : m.old ≠ m.new) (hcopied : Copied N m start v) (accessKeyId : Option Text) :
    (moving N m start).holds 0 (deleteMany N m.source accessKeyId [{ key := m.key }])
      (fun _ _ => True) (fun _ _ => True) v := by
  rw [deleteMany, Protocol.holds_bind, Protocol.holds_tryCatch, Protocol.holds_bind]
  exact Protocol.holds_mono (drop_moves hne hcopied accessKeyId) (fun _ _ _ => trivial)
    fun _ _ _ => trivial

/-- **The move** copies what the PUT has committed before it drops the key. -/
theorem mover_holds (hfresh : Committed m.old v → Carries N start m.content m.old v) :
    (moving N m start).holds 0 (copyKeys N m.source m.target m.key m.newKey true m.accessKeyId)
      (fun _ _ => True) (fun _ _ => True) v := by
  rw [copyKeys, Protocol.holds_bind, Protocol.holds_require]
  refine ⟨fun _ => ?_, fun _ => trivial⟩
  rw [Protocol.holds_bind, Protocol.holds_require]
  refine ⟨fun hdifferent => ?_, fun _ => trivial⟩
  have hne : m.old ≠ m.new := fun h => hdifferent ⟨congrArg Prod.fst h, congrArg Prod.snd h⟩
  have hsingle : folderSuffix.isSuffixOf m.key = false := m.single
  dsimp only
  rw [Protocol.holds_bind, Protocol.holds_require]
  refine ⟨fun _ => ?_, fun _ => trivial⟩
  rw [hsingle, if_neg Bool.false_ne_true, Protocol.holds_bind, Protocol.holds_pure, Protocol.holds_bind,
    Protocol.holds_require]
  refine ⟨fun _ => ?_, fun _ => trivial⟩
  rw [Protocol.holds_bind]
  refine Protocol.holds_mono (copyEach_moves hne rfl hfresh _) ?_ fun _ _ _ => trivial
  intro _ v₁ hcopied
  rw [if_pos rfl, Protocol.holds_bind]
  exact Protocol.holds_mono (dropEach_moves hne hcopied _) (fun _ _ _ => trivial) fun _ _ _ => trivial

end Mover

/-! ## Both together -/

section Together

variable {N : Node} {m : Meeting} {w : World}

theorem program_atomic (party : Party) : (party.program N m).Every (Atomic N) := by
  cases party with
  | mover => exact .bind (copyKeys_atomic _ _ _ _ _ _) fun _ => .pure _
  | putter => exact .bind (put_atomic _) fun _ => .pure _

/-- Before the first step nothing is committed. -/
theorem begun_sound (hplace : InPlace w) (hw : Integrity w) (hguids : VersionGuids w) :
    (moving N m (pathsAt w)).Sound (fun i _ _ v => i = 1 → Committed m.old v) (fun _ _ _ _ => True)
      (begun N m w) := by
  have hinv : (moving N m (pathsAt w)).inv ⟨w, []⟩ :=
    ⟨hplace.filed, hw, hguids, by simp, fun h => absurd h not_committed_nil⟩
  refine .of_waiting hinv rfl fun i party x hthread => ?_
  obtain _ | _ | i := i
  · cases hthread
    rw [Party.program, Protocol.holds_bind]
    exact Protocol.holds_mono (mover_holds fun h => absurd h not_committed_nil)
      (fun _ _ _ h => absurd h Nat.zero_ne_one) fun _ _ _ => trivial
  · cases hthread
    rw [Party.program, Protocol.holds_bind]
    exact Protocol.holds_mono putter_holds (fun _ _ h _ => h) fun _ _ _ => trivial
  · cases hthread

theorem succeeded_iff {p : MeetingPool} {i : ℕ} :
    succeeded p i = true ↔ ∃ party, p.threads[i]? = some ⟨party, some (.done ())⟩ := by
  unfold succeeded
  split
  case h_1 party _ hthread => simp [hthread]
  case h_2 hthread =>
    refine iff_of_false Bool.false_ne_true ?_
    rintro ⟨party, h⟩
    exact hthread party () h

/-- **No move swallows what is put**, if every version of the key that is committed finds the way clear
and no path is generated twice. -/
theorem not_swallowed (hplace : InPlace w) (hw : Integrity w) (hguids : VersionGuids w) (turns : List ℕ)
    (hclear : (begun N m w).Permitted (Party.program N m) (fun v _ e => Clear m v e)
      (turns.map .advance))
    (hunique : UniquePaths (pathsAt w) (after N m w turns).record) : Survives N m w turns := by
  have hunswept : NoSweep (after N m w turns).toShared := by
    refine Pool.run_keeps (Party.program N m) program_atomic (fun _ _ hatomic _ _ hv => hv.after hatomic _)
      (fun t ht x hx => ?_) (by simp [NoSweep, begun]) _
    rcases List.mem_pair.mp ht with rfl | rfl
    · exact Option.some.inj hx ▸ program_atomic .mover
    · exact Option.some.inj hx ▸ program_atomic .putter
  have hrecord := Pool.permitted_of_record (Party.program N m)
    (fun new record (h : UniquePaths (pathsAt w) (new ++ record) ∧ ∀ e ∈ new ++ record, Unswept e.2) =>
      (⟨h.1.of_append, fun e he => h.2 e (List.mem_append_right _ he)⟩ : _ ∧ _)) ⟨hunique, hunswept⟩
  have hsound : (moving N m (pathsAt w)).Sound (fun i _ _ v => i = 1 → Committed m.old v)
      (fun _ _ _ _ => True) (after N m w turns) := Protocol.sound_of (P := moving N m (pathsAt w))
    (fun _ _ _ _ (h : False) => h.elim)
    (fun v i e _ h => ⟨⟨h.1.1, timely_of_unswept h.1.2, fun path _ =>
      not_condemned_of_unswept (fun x hx => h.1.2 x (List.mem_cons_of_mem _ hx)) path⟩, h.2⟩)
    (begun_sound hplace hw hguids) (Pool.startsWhen_advance _ _ _ turns) (hrecord.and _ hclear)
  intro _ hput
  obtain ⟨party, hthread⟩ := succeeded_iff.mp hput
  obtain ⟨v, hrely, hcommitted⟩ := hsound.threads 1 _ _ hthread
  have hcommitted := stays_committed.others v _ hrely.2 hrely.1.1.toRows (hcommitted rfl)
  have hsheltered : Sheltered N m (pathsAt w) _ := hsound.inv.2
  exact (hsheltered.carried hcommitted).imp (served_of_carries hsound.inv.1 hsheltered.guids)
    (served_of_carries hsound.inv.1 hsheltered.guids)

end Together

/-! ## A PUT that is swallowed -/

/-- The key is there. -/
def drafted : World := stateAfter (put Node.counting draft) nothingStored

/-- It is moved while it is revised. -/
def crossing : Meeting where
  source := draft.bucket
  target := draft.bucket
  key := ['a']
  newKey := ['b']
  accessKeyId := none
  put := revision
  unversioned := rfl
  single := by decide

/-- The whole of the PUT comes when the move has read the blob. -/
def amidst : List ℕ := List.replicate 6 0 ++ List.replicate 7 1 ++ List.replicate 7 0

/-- The whole of the PUT comes first. -/
def ahead : List ℕ := List.replicate 7 1 ++ List.replicate 13 0

theorem inPlace_drafted : InPlace drafted := ⟨by decide +kernel, by decide +kernel, by decide +kernel⟩

theorem integrity_drafted : Integrity drafted :=
  ⟨by decide +kernel, by decide +kernel, by decide +kernel, by decide +kernel, by decide +kernel,
    by decide +kernel, by decide +kernel⟩

/-- **What was put is at neither key**, though both were told that they succeeded. -/
theorem swallowed :
    InPlace drafted ∧ Integrity drafted ∧ VersionGuids drafted ∧
    UniquePaths (pathsAt drafted) (after Node.counting crossing drafted amidst).record ∧
    ¬ Survives Node.counting crossing drafted amidst :=
  ⟨inPlace_drafted, integrity_drafted, ⟨by decide +kernel, by decide +kernel⟩,
    ⟨by decide +kernel, by decide +kernel⟩, by decide +kernel⟩

/-- What was put first is moved. -/
theorem not_swallowed_ahead :
    succeeded (after Node.counting crossing drafted ahead) 0 = true ∧
    succeeded (after Node.counting crossing drafted ahead) 1 = true ∧
    served Node.counting (after Node.counting crossing drafted ahead).state crossing.new = some [2] ∧
    Survives Node.counting crossing drafted ahead :=
  ⟨by decide +kernel, by decide +kernel, by decide +kernel,
    not_swallowed inPlace_drafted integrity_drafted ⟨by decide +kernel, by decide +kernel⟩ ahead
      (by decide +kernel) ⟨by decide +kernel, by decide +kernel⟩⟩

end MoveRaces
end SimpleStorage
