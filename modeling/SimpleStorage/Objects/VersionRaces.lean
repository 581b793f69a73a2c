import SimpleStorage.Database.Schema
import SimpleStorage.Library.ReadCommitted

/-!
# `commitVersion` against `deleteVersion`

One `commitVersion` and one `deleteVersion` on the same key, statement by statement under
READ COMMITTED.  Only the rows of that key are followed: the row of `object`, which both of
them write, and the rows of `object_version`.

`deleteVersion` reads the newest version that is left in one statement and points the key at
it in the next.  Between the two it holds no lock on the key's row.  So if `commitVersion`
commits in between, its pointer is overwritten by the older one (`overtakes`), and that is the
only way it gets lost: `served_iff_not_overtakes`.
-/

namespace SimpleStorage
namespace VersionRaces

open ReadCommitted

/-! ## The two transactions -/

/-- The transactions, and one that only reads. -/
inductive Txn
  | commitVersion
  | deleteVersion
  | getVersion
  deriving DecidableEq, Repr

def nullVersionId : Text := "null".toList

/-- What the two requests ask for, and what the database generates for them. -/
structure Requests where
  bucketGuid : Guid
  key : Text
  /-- The guid of the key's row, should `commitVersion` have to insert one. -/
  newObjectGuid : Guid
  /-- The version `commitVersion` inserts, but for the key's row it belongs to. -/
  newVersion : ObjectVersionRow
  objectGuid : Guid
  versionId : Text

/-- How far `commitVersion` has come; the key's row as it left it. -/
inductive CommitAt
  | begin
  | upserted (row : ObjectRow)
  | cleared (row : ObjectRow)
  | inserted (row : ObjectRow)
  | pointed (row : ObjectRow)
  | committed (row : ObjectRow)
  | failed
  deriving DecidableEq, Repr

/-- How far `deleteVersion` has come: the version it removes, the newest one it found
left, and the key's row as it left it. -/
inductive DeleteAt
  | begin
  | found (version : ObjectVersionRow)
  | removed (version : ObjectVersionRow)
  | read (version : ObjectVersionRow) (newest : Option ObjectVersionRow)
  | written (version : ObjectVersionRow) (newest : Option ObjectVersionRow) (row : Option ObjectRow)
  | committed (version : ObjectVersionRow) (newest : Option ObjectVersionRow) (row : Option ObjectRow)
  | failed
  deriving DecidableEq, Repr

structure System where
  /-- The row of the key in `object`, which its unique index keeps apart from all others. -/
  object : Row Txn ObjectRow
  objectVersions : List (Row Txn ObjectVersionRow)
  commitAt : CommitAt := .begin
  deleteAt : DeleteAt := .begin
  deriving DecidableEq

variable (r : Requests)

/-- The row `commitVersion` inserts. -/
def Requests.insertedVersion (objectGuid : Guid) : ObjectVersionRow :=
  { r.newVersion with objectGuid }

def hasVersionId (objectGuid : Guid) (versionId : Text) (v : ObjectVersionRow) : Bool :=
  v.objectGuid = objectGuid && v.versionId = versionId

/-- Point the key at a version. -/
def point (row : ObjectRow) (guid : Guid) : ObjectRow := { row with latestVersionGuid := some guid }

/-- The next statement of `commitVersion`; none while it waits and when it is over. -/
def stepCommit (s : System) : Option System :=
  match s.commitAt with
  | .begin =>
      -- insert into object … on conflict do update … returning
      if s.object.lockedFor .commitVersion then none
      else
        let row := (s.object.see .commitVersion).getD ⟨r.newObjectGuid, r.bucketGuid, r.key, none⟩
        some { s with
          object := s.object.write .commitVersion (some row)
          commitAt := .upserted row }
  | .upserted row =>
      if r.newVersion.versionId = nullVersionId then
        if waits .commitVersion (hasVersionId row.guid nullVersionId) s.objectVersions then none
        else some { s with
          objectVersions := deleteWhere .commitVersion (hasVersionId row.guid nullVersionId)
            s.objectVersions
          commitAt := .cleared row }
      else some { s with commitAt := .cleared row }
  | .cleared row =>
      if waits .commitVersion (hasVersionId row.guid r.newVersion.versionId) s.objectVersions then none
      else if (rows .commitVersion s.objectVersions).any
          (hasVersionId row.guid r.newVersion.versionId) then
        some { s with
          object := s.object.rollback .commitVersion
          objectVersions := rollback .commitVersion s.objectVersions
          commitAt := .failed }
      else some { s with
        objectVersions := insertRow .commitVersion (r.insertedVersion row.guid) s.objectVersions
        commitAt := .inserted row }
  | .inserted row =>
      some { s with
        object := s.object.write .commitVersion (some (point row r.newVersion.guid))
        commitAt := .pointed (point row r.newVersion.guid) }
  | .pointed row =>
      some { s with
        object := s.object.commit .commitVersion
        objectVersions := commit .commitVersion s.objectVersions
        commitAt := .committed row }
  | .committed _ => none
  | .failed => none

/-- The next statement of `deleteVersion`; none while it waits and when it is over. -/
def stepDelete (s : System) : Option System :=
  match s.deleteAt with
  | .begin =>
      match (rows .deleteVersion s.objectVersions).find? (hasVersionId r.objectGuid r.versionId) with
      | some version => some { s with deleteAt := .found version }
      | none => some { s with deleteAt := .failed }
  | .found version =>
      if waits .deleteVersion (fun v => v.guid = version.guid) s.objectVersions then none
      else some { s with
        objectVersions := deleteWhere .deleteVersion (fun v => v.guid = version.guid) s.objectVersions
        deleteAt := .removed version }
  | .removed version =>
      some { s with
        deleteAt := .read version (newestBy (·.createdAt)
          ((rows .deleteVersion s.objectVersions).filter fun v => v.objectGuid = r.objectGuid)) }
  | .read version newest =>
      match (s.object.see .deleteVersion).filter (·.guid = r.objectGuid) with
      | none => some { s with deleteAt := .written version newest none }
      | some row =>
          if s.object.lockedFor .deleteVersion then none
          else
            match newest with
            | some newestVersion =>
                -- update object set latest_version_guid = newest
                some { s with
                  object := s.object.write .deleteVersion (some (point row newestVersion.guid))
                  deleteAt := .written version newest (some (point row newestVersion.guid)) }
            | none =>
                -- delete from object, which the rows referring to it may forbid
                if (rows .deleteVersion s.objectVersions).any (fun v => v.objectGuid = row.guid) then
                  some { s with
                    objectVersions := rollback .deleteVersion s.objectVersions
                    deleteAt := .failed }
                else some { s with
                  object := s.object.write .deleteVersion none
                  deleteAt := .written version newest none }
  | .written version newest row =>
      some { s with
        object := s.object.commit .deleteVersion
        objectVersions := commit .deleteVersion s.objectVersions
        deleteAt := .committed version newest row }
  | .committed _ _ _ => none
  | .failed => none

def step : Txn → System → Option System
  | .commitVersion => stepCommit r
  | .deleteVersion => stepDelete r
  | .getVersion => some

/-- A schedule, in which every step could be taken when its turn came. -/
def run : List Txn → System → Option System
  | [], s => some s
  | t :: ts, s => (step r t s).bind (run ts)

/-- What an unqualified read of the key finds. -/
def getVersion (s : System) : Option ObjectVersionRow :=
  (s.object.see .getVersion).bind fun row =>
    (rows .getVersion s.objectVersions).find? fun v => row.latestVersionGuid = some v.guid

/-- The commit of `commitVersion` comes between the two statements of `deleteVersion` that
read the newest version and write the pointer. -/
def Overtaken (t : Txn) (s : System) : Prop :=
  t = .commitVersion ∧ (∃ row, s.commitAt = .pointed row) ∧
    ∃ version newest, s.deleteAt = .read version newest

/-- Somewhere in the schedule. -/
def overtakes : List Txn → System → Prop
  | [], _ => False
  | t :: ts, s => Overtaken t s ∨ ∃ s', step r t s = some s' ∧ overtakes ts s'

/-! ## What holds all along -/

/-- Which version `deleteVersion` removes. -/
def DeleteAt.target : DeleteAt → Option ObjectVersionRow
  | .begin | .failed => none
  | .found version | .removed version | .read version _ => some version
  | .written version _ _ | .committed version _ _ => some version

/-- A transaction against the key's row: before it writes it, while it holds it, and after. -/
inductive Phase (β : Type)
  | before
  | holding (row : β)
  | overtaken (row : β)

def CommitAt.phase : CommitAt → Phase ObjectRow
  | .upserted row | .cleared row | .inserted row | .pointed row => .holding row
  | .committed row => .overtaken row
  | .begin | .failed => .before

def DeleteAt.phase : DeleteAt → Phase (Option ObjectRow)
  | .written _ _ row => .holding row
  | .committed _ _ row => .overtaken row
  | _ => .before

/-- The row of the new version, by how far `commitVersion` has come. -/
def CommitAt.tail (r : Requests) : CommitAt → List (Row Txn ObjectVersionRow)
  | .inserted row | .pointed row =>
      [⟨none, some (.commitVersion, some (r.insertedVersion row.guid))⟩]
  | .committed row => [⟨some (r.insertedVersion row.guid), none⟩]
  | _ => []

/-- The row of a version that was there before: all that happens to it is that it is deleted. -/
structure OldRow (r : Requests) (c : Row Txn ObjectVersionRow) : Prop where
  committed : ∀ v, c.committed = some v →
    v.guid ≠ r.newVersion.guid ∧ v.createdAt < r.newVersion.createdAt
  pending : ∀ t x, c.pending = some (t, x) → x = none

/-- The key's row, by how far both have come. -/
def KeyRow (o : ObjectRow) (object : Row Txn ObjectRow) :
    Phase ObjectRow → Phase (Option ObjectRow) → Prop
  | .before, .before => object = ⟨some o, none⟩
  | .before, .holding x => object = ⟨some o, some (.deleteVersion, x)⟩
  | .before, .overtaken x => object = ⟨x, none⟩
  | .holding row, .before => object = ⟨some o, some (.commitVersion, some row)⟩ ∧ row.guid = o.guid
  | .holding _, .holding _ => False
  | .holding row, .overtaken x => object = ⟨x, some (.commitVersion, some row)⟩
  | .overtaken row, .before => object = ⟨some row, none⟩ ∧ row.guid = o.guid
  | .overtaken row, .holding x => object = ⟨some row, some (.deleteVersion, x)⟩ ∧ row.guid = o.guid
  | .overtaken row, .overtaken x => object = ⟨some row, none⟩ ∨ object = ⟨x, none⟩

/-- The new version was the newest one left. -/
def FoundNew (r : Requests) (newest : Option ObjectVersionRow) : Prop :=
  newest.map (·.guid) = some r.newVersion.guid

structure Inv (r : Requests) (o : ObjectRow) (s : System) : Prop where
  keyRow : KeyRow o s.object s.commitAt.phase s.deleteAt.phase
  versions : ∃ olds, s.objectVersions = olds ++ s.commitAt.tail r ∧ ∀ c ∈ olds, OldRow r c
  pointed : ∀ row, s.commitAt = .pointed row ∨ s.commitAt = .committed row →
    row.latestVersionGuid = some r.newVersion.guid
  /-- The new version is only found once it is committed. -/
  found : ∀ v newest, s.deleteAt = .read v newest → FoundNew r newest →
    ∃ row, s.commitAt = .committed row
  /-- The pointer that is written is the one that was read. -/
  written : ∀ v newest row, s.deleteAt = .written v newest row ∨ s.deleteAt = .committed v newest row →
    row.map (·.latestVersionGuid) = newest.map fun m => some m.guid

/-- Neither has failed, and what is deleted is not the new version itself. -/
structure Live (r : Requests) (s : System) : Prop where
  commit : s.commitAt ≠ .failed
  delete : s.deleteAt ≠ .failed
  target : ∀ v, s.deleteAt.target = some v → v.guid ≠ r.newVersion.guid

variable {r} {o : ObjectRow} {s s' : System} {t : Txn}

theorem stepCommit_frame (h : stepCommit r s = some s') :
    s.commitAt ≠ .failed ∧ s'.deleteAt = s.deleteAt := by
  obtain ⟨object, versions, c, d⟩ := s
  refine ⟨fun hc => ?_, ?_⟩
  · obtain rfl : c = .failed := hc
    cases h
  · simp only [stepCommit] at h
    split at h <;> (try split_ifs at h) <;> cases h <;> rfl

/-- The statement that writes the key's row. -/
theorem stepDelete_read {version : ObjectVersionRow} {newest : Option ObjectVersionRow}
    (hd : s.deleteAt = .read version newest) (h : stepDelete r s = some s') :
    s'.commitAt = s.commitAt ∧
      (s'.deleteAt = .failed ∨ ∃ x, s'.deleteAt = .written version newest x) := by
  simp only [stepDelete, hd] at h
  repeat' split at h
  all_goals first
  | cases h
    exact ⟨rfl, Or.inr ⟨_, rfl⟩⟩
  | cases h
    exact ⟨rfl, Or.inl rfl⟩
  | cases h

theorem stepDelete_frame (h : stepDelete r s = some s') :
    s.deleteAt ≠ .failed ∧ s'.commitAt = s.commitAt ∧
      (s'.deleteAt ≠ .failed → ∀ v, s.deleteAt.target = some v → s'.deleteAt.target = some v) := by
  obtain ⟨object, versions, c, d⟩ := s
  cases d with
  | begin =>
    simp only [stepDelete] at h
    refine ⟨by simp, ?_, fun _ v hv => nomatch hv⟩
    split at h <;> cases h <;> rfl
  | found version =>
    simp only [stepDelete] at h
    split_ifs at h
    cases h
    exact ⟨by simp, rfl, fun _ v hv => hv⟩
  | removed version =>
    cases h
    exact ⟨by simp, rfl, fun _ v hv => hv⟩
  | read version newest =>
    obtain ⟨hcommit, hwritten⟩ := stepDelete_read rfl h
    refine ⟨by simp, hcommit, fun hne v hv => ?_⟩
    obtain ⟨x, hx⟩ := hwritten.resolve_left hne
    rw [hx]
    exact hv
  | written version newest x =>
    cases h
    exact ⟨by simp, rfl, fun _ v hv => hv⟩
  | committed version newest x => cases h
  | failed => cases h

theorem Live.of_step (h : step r t s = some s') (hlive : Live r s') : Live r s := by
  cases t with
  | getVersion =>
    cases h
    exact hlive
  | commitVersion =>
    obtain ⟨hcommit, hdelete⟩ := stepCommit_frame h
    exact ⟨hcommit, hdelete ▸ hlive.delete, fun v hv => hlive.target v (hdelete ▸ hv)⟩
  | deleteVersion =>
    obtain ⟨hdelete, hcommit, htarget⟩ := stepDelete_frame h
    exact ⟨hcommit ▸ hlive.commit, hdelete, fun v hv => hlive.target v (htarget hlive.delete v hv)⟩

theorem Live.of_run {ts : List Txn} (h : run r ts s = some s') (hlive : Live r s') : Live r s := by
  induction ts generalizing s with
  | nil =>
    cases h
    exact hlive
  | cons t ts ih =>
    rw [run, Option.bind_eq_some_iff] at h
    obtain ⟨s₁, hs₁, hrest⟩ := h
    exact (ih hrest).of_step hs₁

/-! ### The rows of the versions -/

theorem OldRow.write_none {c : Row Txn ObjectVersionRow} (h : OldRow r c) (t : Txn) :
    OldRow r (c.write t none) where
  committed := h.committed
  pending _ _ heq := by
    cases heq
    rfl

theorem OldRow.commit {c : Row Txn ObjectVersionRow} (h : OldRow r c) (t : Txn) :
    OldRow r (c.commit t) := by
  obtain ⟨x, _ | ⟨u, y⟩⟩ := c
  · exact h
  · by_cases hu : u = t
    · subst hu
      rw [Row.commit_own]
      exact ⟨fun v hv => (by rw [h.pending _ _ rfl] at hv; cases hv), fun _ _ heq => nomatch heq⟩
    · rw [Row.commit_other hu]
      exact h

theorem OldRow.see {c : Row Txn ObjectVersionRow} (h : OldRow r c) {t : Txn} {v : ObjectVersionRow}
    (hv : c.see t = some v) : v.guid ≠ r.newVersion.guid ∧ v.createdAt < r.newVersion.createdAt := by
  obtain ⟨x, _ | ⟨u, y⟩⟩ := c
  · exact h.committed v hv
  · rw [h.pending _ _ rfl] at hv
    by_cases hu : u = t
    · subst hu
      rw [Row.see_own] at hv
      cases hv
    · rw [Row.see_other hu] at hv
      exact h.committed v hv

/-- Deleting among the old rows leaves old rows. -/
theorem old_deleteWhere {olds : List (Row Txn ObjectVersionRow)} (h : ∀ c ∈ olds, OldRow r c)
    (t : Txn) (p : ObjectVersionRow → Bool) : ∀ c ∈ deleteWhere t p olds, OldRow r c := by
  intro c hc
  obtain ⟨d, hd, rfl⟩ := List.mem_map.mp hc
  split_ifs
  · exact (h d hd).write_none t
  · exact h d hd

theorem old_commit {olds : List (Row Txn ObjectVersionRow)} (h : ∀ c ∈ olds, OldRow r c) (t : Txn) :
    ∀ c ∈ ReadCommitted.commit t olds, OldRow r c := by
  intro c hc
  obtain ⟨d, hd, rfl⟩ := List.mem_map.mp hc
  exact (h d hd).commit t

theorem rows_old {olds : List (Row Txn ObjectVersionRow)} (h : ∀ c ∈ olds, OldRow r c) {t : Txn}
    {v : ObjectVersionRow} (hv : v ∈ rows t olds) :
    v.guid ≠ r.newVersion.guid ∧ v.createdAt < r.newVersion.createdAt := by
  obtain ⟨c, hc, hsee⟩ := mem_rows.mp hv
  exact (h c hc).see hsee

/-! ### The key's row -/

theorem KeyRow.upsert {object : Row Txn ObjectRow} {d : Phase (Option ObjectRow)}
    (h : KeyRow o object .before d) (hlock : object.lockedFor .commitVersion = false)
    (inserted : ObjectRow) :
    KeyRow o (object.write .commitVersion (some ((object.see .commitVersion).getD inserted)))
      (.holding ((object.see .commitVersion).getD inserted)) d := by
  cases d with
  | before =>
    obtain rfl : object = ⟨some o, none⟩ := h
    exact ⟨rfl, rfl⟩
  | holding x =>
    obtain rfl : object = ⟨some o, some (.deleteVersion, x)⟩ := h
    cases hlock
  | overtaken x =>
    obtain rfl : object = ⟨x, none⟩ := h
    rfl

theorem KeyRow.point {object : Row Txn ObjectRow} {row : ObjectRow} {d : Phase (Option ObjectRow)}
    (h : KeyRow o object (.holding row) d) (guid : Guid) :
    KeyRow o (object.write .commitVersion (some (VersionRaces.point row guid)))
      (.holding (VersionRaces.point row guid)) d := by
  cases d with
  | before =>
    obtain ⟨rfl, hguid⟩ := h
    exact ⟨rfl, hguid⟩
  | holding x => exact h
  | overtaken x =>
    obtain rfl : object = ⟨x, some (.commitVersion, some row)⟩ := h
    rfl

theorem KeyRow.commit {object : Row Txn ObjectRow} {row : ObjectRow} {d : Phase (Option ObjectRow)}
    (h : KeyRow o object (.holding row) d) :
    KeyRow o (object.commit .commitVersion) (.overtaken row) d := by
  cases d with
  | before =>
    obtain ⟨rfl, hguid⟩ := h
    exact ⟨rfl, hguid⟩
  | holding x => exact h.elim
  | overtaken x =>
    obtain rfl : object = ⟨x, some (.commitVersion, some row)⟩ := h
    exact Or.inl rfl

/-- As long as `deleteVersion` has not written the row, the row is that of the key it looked up. -/
theorem KeyRow.see_delete {object : Row Txn ObjectRow} {c : Phase ObjectRow}
    (h : KeyRow o object c .before) : ∃ row, object.see .deleteVersion = some row ∧
      row.guid = o.guid := by
  cases c with
  | before =>
    obtain rfl : object = ⟨some o, none⟩ := h
    exact ⟨o, rfl, rfl⟩
  | holding row =>
    obtain ⟨rfl, -⟩ := h
    exact ⟨o, rfl, rfl⟩
  | overtaken row =>
    obtain ⟨rfl, hguid⟩ := h
    exact ⟨row, rfl, hguid⟩

theorem KeyRow.write_delete {object : Row Txn ObjectRow} {c : Phase ObjectRow}
    (h : KeyRow o object c .before) (hlock : object.lockedFor .deleteVersion = false)
    (x : Option ObjectRow) : KeyRow o (object.write .deleteVersion x) c (.holding x) := by
  cases c with
  | before =>
    obtain rfl : object = ⟨some o, none⟩ := h
    rfl
  | holding row =>
    obtain ⟨rfl, -⟩ := h
    cases hlock
  | overtaken row =>
    obtain ⟨rfl, hguid⟩ := h
    exact ⟨rfl, hguid⟩

theorem KeyRow.commit_delete {object : Row Txn ObjectRow} {c : Phase ObjectRow}
    {x : Option ObjectRow} (h : KeyRow o object c (.holding x)) :
    KeyRow o (object.commit .deleteVersion) c (.overtaken x) := by
  cases c with
  | before =>
    obtain rfl : object = ⟨some o, some (.deleteVersion, x)⟩ := h
    rfl
  | holding row => exact h.elim
  | overtaken row =>
    obtain ⟨rfl, -⟩ := h
    exact Or.inr rfl

/-! ### Every statement keeps the invariant -/

/-- `deleteVersion` sees the new version once it is committed. -/
theorem rows_tail_delete (c : CommitAt) :
    rows .deleteVersion (c.tail r) =
      match c with
      | .committed row => [r.insertedVersion row.guid]
      | _ => [] := by
  cases c <;> rfl

theorem Inv.stepCommit (h : Inv r o s) (hs : stepCommit r s = some s') (hlive : Live r s') :
    Inv r o s' := by
  obtain ⟨hkey, ⟨olds, hversions, hold⟩, hpointed, hfound, hwritten⟩ := h
  obtain ⟨object, versions, c, d⟩ := s
  simp only at hkey hversions hpointed hfound hwritten
  have hearly : ∀ v newest, d = .read v newest → FoundNew r newest → (∀ row, c ≠ .committed row) →
      False := fun v newest hd hnew hc => (hfound v newest hd hnew).elim hc
  cases c with
  | begin =>
    simp only [VersionRaces.stepCommit] at hs
    split_ifs at hs with hlock
    obtain rfl := Option.some.inj hs
    exact ⟨hkey.upsert (by simpa using hlock) _, ⟨olds, hversions, hold⟩, by simp,
      fun v newest hd hnew => (hearly v newest hd hnew (by simp)).elim, hwritten⟩
  | upserted row =>
    obtain rfl : versions = olds := hversions.trans (List.append_nil olds)
    simp only [VersionRaces.stepCommit] at hs
    split_ifs at hs with hnull hwait
    · obtain rfl := Option.some.inj hs
      exact ⟨hkey, ⟨_, (List.append_nil _).symm,
        old_deleteWhere hold .commitVersion (hasVersionId row.guid nullVersionId)⟩, by simp,
        fun v newest hd hnew => (hearly v newest hd hnew (by simp)).elim, hwritten⟩
    · obtain rfl := Option.some.inj hs
      exact ⟨hkey, ⟨versions, hversions, hold⟩, by simp,
        fun v newest hd hnew => (hearly v newest hd hnew (by simp)).elim, hwritten⟩
  | cleared row =>
    obtain rfl : versions = olds := hversions.trans (List.append_nil olds)
    simp only [VersionRaces.stepCommit] at hs
    split_ifs at hs with hwait hconflict
    · obtain rfl := Option.some.inj hs
      exact absurd rfl hlive.commit
    · obtain rfl := Option.some.inj hs
      exact ⟨hkey, ⟨versions, rfl, hold⟩, by simp,
        fun v newest hd hnew => (hearly v newest hd hnew (by simp)).elim, hwritten⟩
  | inserted row =>
    obtain rfl := Option.some.inj hs
    refine ⟨hkey.point _, ⟨olds, hversions, hold⟩, ?_,
      fun v newest hd hnew => (hearly v newest hd hnew (by simp)).elim, hwritten⟩
    rintro row' (heq | heq) <;> cases heq
    rfl
  | pointed row =>
    obtain rfl := Option.some.inj hs
    refine ⟨hkey.commit, ⟨_, ?_, old_commit hold .commitVersion⟩, ?_,
      fun v newest hd hnew => ⟨row, rfl⟩, hwritten⟩
    · simp only [hversions, ReadCommitted.commit, List.map_append]
      rfl
    · rintro row' (heq | heq) <;> cases heq
      exact hpointed row (Or.inl rfl)
  | committed row => cases hs
  | failed => cases hs

/-- Among the versions `deleteVersion` deletes, the new one stays. -/
theorem deleteWhere_tail {version : ObjectVersionRow} (hne : version.guid ≠ r.newVersion.guid)
    (c : CommitAt) :
    deleteWhere .deleteVersion (fun v => v.guid = version.guid) (c.tail r) = c.tail r := by
  have hguid : ∀ g, ¬ (r.insertedVersion g).guid = version.guid := fun g h => hne h.symm
  cases c <;> simp [CommitAt.tail, deleteWhere, Row.see, hguid]

theorem commit_tail (c : CommitAt) :
    ReadCommitted.commit .deleteVersion (c.tail r) = c.tail r := by
  cases c <;> rfl

theorem Inv.stepDelete (h : Inv r o s) (hguid : o.guid = r.objectGuid)
    (hs : stepDelete r s = some s') (hlive : Live r s') : Inv r o s' := by
  obtain ⟨hkey, ⟨olds, hversions, hold⟩, hpointed, hfound, hwritten⟩ := h
  obtain ⟨object, versions, c, d⟩ := s
  simp only at hkey hversions hpointed hfound hwritten
  cases d with
  | begin =>
    simp only [VersionRaces.stepDelete] at hs
    split at hs
    · obtain rfl := Option.some.inj hs
      exact ⟨hkey, ⟨olds, hversions, hold⟩, hpointed, by simp, by simp⟩
    · obtain rfl := Option.some.inj hs
      exact absurd rfl hlive.delete
  | found version =>
    simp only [VersionRaces.stepDelete] at hs
    split_ifs at hs with hwait
    obtain rfl := Option.some.inj hs
    refine ⟨hkey, ⟨_, ?_, old_deleteWhere hold .deleteVersion fun v => v.guid = version.guid⟩,
      hpointed, by simp, by simp⟩
    rw [← deleteWhere_tail (hlive.target version rfl) c, hversions]
    exact List.map_append
  | removed version =>
    obtain rfl := Option.some.inj hs
    refine ⟨hkey, ⟨olds, hversions, hold⟩, hpointed, ?_, by simp⟩
    intro v newest heq hnew
    simp only [DeleteAt.read.injEq] at heq
    obtain ⟨rfl, rfl⟩ := heq
    obtain ⟨m, hm, hguid'⟩ := Option.map_eq_some_iff.mp hnew
    have hmem := (List.mem_filter.mp (newestBy_mem hm)).1
    rw [hversions, rows_append, List.mem_append, rows_tail_delete] at hmem
    rcases hmem with hmem | hmem
    · exact absurd hguid' (rows_old hold hmem).1
    · cases c with
      | committed row => exact ⟨row, rfl⟩
      | _ => cases hmem
  | read version newest =>
    obtain ⟨row, hsee, hrow⟩ := hkey.see_delete
    have hfilter : (object.see .deleteVersion).filter (·.guid = r.objectGuid) = some row := by
      rw [hsee, Option.filter_some, if_pos (by simpa using hrow.trans hguid)]
    simp only [VersionRaces.stepDelete, hfilter] at hs
    by_cases hlock : object.lockedFor .deleteVersion = true
    · rw [if_pos hlock] at hs
      cases hs
    · rw [if_neg hlock] at hs
      have hwrite := hkey.write_delete (by simpa using hlock)
      cases newest with
      | some m =>
        obtain rfl := Option.some.inj hs
        refine ⟨hwrite _, ⟨olds, hversions, hold⟩, hpointed, by simp, ?_⟩
        rintro v newest x (heq | heq) <;> cases heq
        rfl
      | none =>
        simp only at hs
        split_ifs at hs with hreferred
        · obtain rfl := Option.some.inj hs
          exact absurd rfl hlive.delete
        · obtain rfl := Option.some.inj hs
          refine ⟨hwrite _, ⟨olds, hversions, hold⟩, hpointed, by simp, ?_⟩
          rintro v newest x (heq | heq) <;> cases heq
          rfl
  | written version newest x =>
    obtain rfl := Option.some.inj hs
    refine ⟨hkey.commit_delete, ⟨_, ?_, old_commit hold .deleteVersion⟩, hpointed, by simp, ?_⟩
    · rw [← commit_tail c, hversions]
      exact List.map_append
    · rintro v newest' x' (heq | heq) <;> cases heq
      exact hwritten version newest x (Or.inl rfl)
  | committed version newest x => cases hs
  | failed => cases hs

theorem Inv.step (h : Inv r o s) (hguid : o.guid = r.objectGuid)
    (hs : VersionRaces.step r t s = some s') (hlive : Live r s') : Inv r o s' := by
  cases t with
  | getVersion =>
    cases hs
    exact h
  | commitVersion => exact h.stepCommit hs hlive
  | deleteVersion => exact h.stepDelete hguid hs hlive

/-! ## When the pointer is lost -/

/-- **The pointer is lost, or bound to be**: the version is committed, and `deleteVersion` has
read another one as the newest, or has left the key pointing at another one. -/
def Lost (r : Requests) (s : System) : Prop :=
  (∃ row, s.commitAt = .committed row) ∧
    match s.deleteAt with
    | .read _ newest | .written _ newest _ => ¬ FoundNew r newest
    | .committed _ _ _ => ∀ row, s.object.committed = some row →
        row.latestVersionGuid ≠ some r.newVersion.guid
    | _ => False

/-- Once the new version is committed, it is the newest one. -/
theorem Inv.found_of_committed (h : Inv r o s) (hguid : o.guid = r.objectGuid)
    {version : ObjectVersionRow} (hd : s.deleteAt = .removed version) {row : ObjectRow}
    (hc : s.commitAt = .committed row) :
    FoundNew r (newestBy (·.createdAt)
      ((rows .deleteVersion s.objectVersions).filter fun v => v.objectGuid = r.objectGuid)) := by
  obtain ⟨olds, hversions, hold⟩ := h.versions
  have hrow : row.guid = o.guid := by
    have hkey := h.keyRow
    rw [hc, hd] at hkey
    exact hkey.2
  have hrows : rows .deleteVersion s.objectVersions =
      rows .deleteVersion olds ++ [r.insertedVersion row.guid] := by
    rw [hversions, rows_append, rows_tail_delete, hc]
  rw [newestBy_eq (x := r.insertedVersion row.guid)]
  · rfl
  · rw [hrows, List.mem_filter]
    exact ⟨List.mem_append_right _ List.mem_cons_self, decide_eq_true (hrow.trans hguid)⟩
  · intro v hv hne
    rw [hrows] at hv
    rcases List.mem_append.mp (List.mem_filter.mp hv).1 with hv | hv
    · exact (rows_old hold hv).2
    · exact absurd (List.mem_singleton.mp hv) hne

/-- The only statement that commits is the last one. -/
theorem pointed_of_committed (h : stepCommit r s = some s') {row : ObjectRow}
    (hc : s'.commitAt = .committed row) :
    s.commitAt = .pointed row ∧ s'.object = s.object.commit .commitVersion := by
  obtain ⟨object, versions, c, d⟩ := s
  cases c with
  | pointed row' =>
    cases h
    cases hc
    exact ⟨rfl, rfl⟩
  | _ =>
    simp only [stepCommit] at h
    repeat' split at h
    all_goals cases h <;> cases hc

theorem lost_stepCommit (h : Inv r o s) (hs : stepCommit r s = some s') :
    Lost r s' ↔ Lost r s ∨ Overtaken .commitVersion s := by
  have hframe := (stepCommit_frame hs).2
  constructor
  · rintro ⟨⟨row, hc⟩, hlost⟩
    obtain ⟨hp, hobject⟩ := pointed_of_committed hs hc
    have hkey := h.keyRow
    rw [hframe] at hlost
    refine Or.inr ⟨rfl, ⟨row, hp⟩, ?_⟩
    cases hd : s.deleteAt with
    | read v newest => exact ⟨v, newest, rfl⟩
    | written v newest x =>
      rw [hp, hd] at hkey
      exact hkey.elim
    | committed v newest x =>
      rw [hp, hd] at hkey
      rw [hd] at hlost
      have hrow : s'.object.committed = some row := by
        rw [hobject, show s.object = ⟨x, some (.commitVersion, some row)⟩ from hkey, Row.commit_own]
      exact absurd (h.pointed row (Or.inl hp)) (hlost row hrow)
    | _ =>
      rw [hd] at hlost
      exact hlost.elim
  · rintro (⟨⟨row, hc⟩, -⟩ | ⟨-, ⟨row, hp⟩, v, newest, hd⟩)
    · rw [stepCommit, hc] at hs
      cases hs
    · have hnot : ¬ FoundNew r newest := by
        intro hnew
        obtain ⟨row', hc⟩ := h.found v newest hd hnew
        rw [hp] at hc
        cases hc
      rw [stepCommit, hp] at hs
      obtain rfl := Option.some.inj hs
      refine ⟨⟨row, rfl⟩, ?_⟩
      simpa only [hd] using hnot

theorem lost_stepDelete (h : Inv r o s) (hguid : o.guid = r.objectGuid)
    (hs : stepDelete r s = some s') (hlive : Live r s') : Lost r s' ↔ Lost r s := by
  have hcommit := (stepDelete_frame hs).2.1
  rw [Lost, Lost, hcommit]
  refine and_congr_right fun ⟨row, hc⟩ => ?_
  cases hd : s.deleteAt with
  | begin =>
    simp only [stepDelete, hd] at hs
    split at hs <;> cases hs <;> exact Iff.rfl
  | found version =>
    simp only [stepDelete, hd] at hs
    split_ifs at hs
    cases hs
    exact Iff.rfl
  | removed version =>
    have hnew := h.found_of_committed hguid hd hc
    simp only [stepDelete, hd] at hs
    cases hs
    exact iff_of_false (not_not_intro hnew) id
  | read version newest =>
    obtain ⟨x, hx⟩ := (stepDelete_read hd hs).2.resolve_left hlive.delete
    rw [hx]
  | written version newest x =>
    have hkey := h.keyRow
    rw [hc, hd] at hkey
    simp only [stepDelete, hd] at hs
    obtain rfl := Option.some.inj hs
    have hobject : s.object.commit .deleteVersion = ⟨x, none⟩ := by
      rw [hkey.1, Row.commit_own]
    have hpointer := h.written version newest x (Or.inl hd)
    simp only [hobject]
    -- the pointer written is the newest version read
    cases x with
    | none =>
      cases newest with
      | none => exact iff_of_true (fun _ h => nomatch h) fun h => nomatch h
      | some m => cases hpointer
    | some row' =>
      cases newest with
      | none => cases hpointer
      | some m =>
        rw [Option.map_some, Option.map_some, Option.some.injEq] at hpointer
        simp only [Option.some.injEq, forall_eq', hpointer, FoundNew, Option.map_some, ne_eq]
  | committed version newest x =>
    rw [stepDelete, hd] at hs
    cases hs
  | failed =>
    rw [stepDelete, hd] at hs
    cases hs

theorem lost_step (h : Inv r o s) (hguid : o.guid = r.objectGuid)
    (hs : VersionRaces.step r t s = some s') (hlive : Live r s') :
    Lost r s' ↔ Lost r s ∨ Overtaken t s := by
  cases t with
  | getVersion =>
    cases hs
    exact (or_iff_left fun ⟨ht, _⟩ => nomatch ht).symm
  | commitVersion => exact lost_stepCommit h hs
  | deleteVersion =>
    rw [lost_stepDelete h hguid hs hlive]
    exact (or_iff_left fun ⟨ht, _⟩ => nomatch ht).symm

/-- **Over a whole schedule**, the pointer is lost exactly if it was lost before or is overtaken. -/
theorem lost_run {ts : List Txn} (h : Inv r o s) (hguid : o.guid = r.objectGuid)
    (hs : run r ts s = some s') (hlive : Live r s') :
    Inv r o s' ∧ (Lost r s' ↔ Lost r s ∨ overtakes r ts s) := by
  induction ts generalizing s with
  | nil =>
    cases hs
    exact ⟨h, (or_iff_left id).symm⟩
  | cons t ts ih =>
    rw [run, Option.bind_eq_some_iff] at hs
    obtain ⟨s₁, hs₁, hrest⟩ := hs
    have hlive₁ := Live.of_run hrest hlive
    obtain ⟨hinv, hlost⟩ := ih (h.step hguid hs₁ hlive₁) hrest
    refine ⟨hinv, ?_⟩
    rw [hlost, lost_step h hguid hs₁ hlive₁, overtakes, hs₁]
    simp only [Option.some.injEq, exists_eq_left', or_assoc]

/-! ## What is served in the end -/

/-- The key exists, all its versions were created before, and neither request has begun. -/
structure Initial (r : Requests) (o : ObjectRow) (s : System) : Prop where
  object : s.object = ⟨some o, none⟩
  objectGuid : o.guid = r.objectGuid
  objectVersions : ∀ c ∈ s.objectVersions, ∃ v, c = ⟨some v, none⟩ ∧
    v.guid ≠ r.newVersion.guid ∧ v.createdAt < r.newVersion.createdAt
  commitAt : s.commitAt = .begin
  deleteAt : s.deleteAt = .begin

theorem Initial.inv (h : Initial r o s) : Inv r o s := by
  obtain ⟨hobject, -, hversions, hc, hd⟩ := h
  refine ⟨?_, ⟨s.objectVersions, ?_, fun c hmem => ?_⟩, ?_, ?_, ?_⟩
  · rw [hc, hd]
    exact hobject
  · rw [hc]
    exact (List.append_nil _).symm
  · obtain ⟨v, rfl, hguid, hcreated⟩ := hversions c hmem
    refine ⟨fun w hw => ?_, fun _ _ heq => nomatch heq⟩
    cases hw
    exact ⟨hguid, hcreated⟩
  · simp [hc]
  · simp [hd]
  · simp [hd]

theorem Initial.not_lost (h : Initial r o s) : ¬ Lost r s := by
  rintro ⟨⟨row, hc⟩, -⟩
  rw [h.commitAt] at hc
  cases hc

theorem Initial.old (h : Initial r o s) {v : ObjectVersionRow}
    (hv : v ∈ rows .getVersion s.objectVersions) : v.guid ≠ r.newVersion.guid := by
  obtain ⟨olds, hversions, hold⟩ := h.inv.versions
  have htail : s.commitAt.tail r = [] := by
    rw [h.commitAt]
    rfl
  rw [hversions, htail, List.append_nil] at hv
  exact (rows_old hold hv).1

/-- What a read finds when both are over. -/
theorem Inv.getVersion_iff (h : Inv r o s) {row : ObjectRow} (hc : s.commitAt = .committed row)
    {version : ObjectVersionRow} {newest : Option ObjectVersionRow} {x : Option ObjectRow}
    (hd : s.deleteAt = .committed version newest x) :
    (∃ v, getVersion s = some v ∧ v.guid = r.newVersion.guid) ↔ ¬ Lost r s := by
  obtain ⟨olds, hversions, hold⟩ := h.versions
  have hrows : rows .getVersion s.objectVersions =
      rows .getVersion olds ++ [r.insertedVersion row.guid] := by
    rw [hversions, rows_append, hc]
    rfl
  have hsee : s.object.see .getVersion = s.object.committed := by
    have hkey := h.keyRow
    rw [hc, hd] at hkey
    rcases hkey with hkey | hkey <;> rw [hkey] <;> rfl
  have hlost : Lost r s ↔ ∀ row', s.object.committed = some row' →
      row'.latestVersionGuid ≠ some r.newVersion.guid := by
    rw [Lost, hd]
    exact and_iff_right ⟨row, hc⟩
  rw [hlost, getVersion, hsee, hrows]
  constructor
  · rintro ⟨v, hv, hguid⟩ hnot
    obtain ⟨row', hrow', hfind⟩ := Option.bind_eq_some_iff.mp hv
    have hpoints := List.find?_some hfind
    rw [decide_eq_true_iff, hguid] at hpoints
    exact hnot row' hrow' hpoints
  · intro hnot
    simp only [not_forall, not_not] at hnot
    obtain ⟨row', hrow', hpoints⟩ := hnot
    refine ⟨r.insertedVersion row.guid, ?_, rfl⟩
    rw [hrow', Option.bind_some, List.find?_append, List.find?_eq_none.mpr fun v hv => ?_]
    · simp [hpoints, Requests.insertedVersion]
    · rw [decide_eq_true_iff, hpoints, Option.some.injEq]
      exact fun heq => (rows_old hold hv).1 heq.symm

/-- **The version is served if and only if its commit does not come between the two statements of
`deleteVersion`** that read the newest version left and point the key at it.  This is about
every schedule in which both requests succeed. -/
theorem served_iff_not_overtakes (r : Requests) (o : ObjectRow) (s s' : System) (ts : List Txn)
    (hinitial : Initial r o s) (hrun : run r ts s = some s')
    (hcommit : ∃ row, s'.commitAt = .committed row)
    (hdelete : ∃ version newest row, s'.deleteAt = .committed version newest row ∧
      version ∈ rows .getVersion s.objectVersions) :
    (∃ v, getVersion s' = some v ∧ v.guid = r.newVersion.guid) ↔ ¬ overtakes r ts s := by
  obtain ⟨row, hc⟩ := hcommit
  obtain ⟨version, newest, x, hd, hversion⟩ := hdelete
  have hlive : Live r s' := by
    refine ⟨by rw [hc]; simp, by rw [hd]; simp, fun v hv => ?_⟩
    rw [hd] at hv
    cases hv
    exact hinitial.old hversion
  obtain ⟨hinv, hlost⟩ := lost_run hinitial.inv hinitial.objectGuid hrun hlive
  rw [hinv.getVersion_iff hc hd, hlost, or_iff_right hinitial.not_lost]

/-! ## An acknowledged version that is hidden -/

/-- A key with two versions, of which the older one is to be deleted. -/
def twoVersions : System where
  object := ⟨some ⟨1, 0, "k".toList, some 12⟩, none⟩
  objectVersions :=
    [⟨some { guid := 11, objectGuid := 1, versionId := "a".toList, etag := [], createdAt := 1 }, none⟩,
      ⟨some { guid := 12, objectGuid := 1, versionId := "b".toList, etag := [], createdAt := 2 }, none⟩]

/-- A third one is written meanwhile. -/
def thirdVersion : Requests where
  bucketGuid := 0
  key := "k".toList
  newObjectGuid := 2
  newVersion := { guid := 13, objectGuid := 0, versionId := "c".toList, etag := [], createdAt := 3 }
  objectGuid := 1
  versionId := "a".toList

/-- First the one request, then the other. -/
def serial : List Txn := List.replicate 5 .commitVersion ++ List.replicate 5 .deleteVersion

/-- The commit comes after `deleteVersion` has read that the second version is the newest. -/
def overtaking : List Txn :=
  List.replicate 3 .deleteVersion ++ List.replicate 5 .commitVersion ++ List.replicate 2 .deleteVersion

theorem twoVersions_initial : Initial thirdVersion ⟨1, 0, "k".toList, some 12⟩ twoVersions where
  object := rfl
  objectGuid := rfl
  objectVersions := by
    intro c hc
    rcases List.mem_cons.mp hc with rfl | hc
    · exact ⟨_, rfl, by decide, by decide⟩
    · obtain rfl := List.mem_singleton.mp hc
      exact ⟨_, rfl, by decide, by decide⟩
  commitAt := rfl
  deleteAt := rfl

theorem served_iff_not_overtakes_serial : ∃ s', run thirdVersion serial twoVersions = some s' ∧
    ((∃ v, getVersion s' = some v ∧ v.guid = thirdVersion.newVersion.guid) ↔
      ¬ overtakes thirdVersion serial twoVersions) :=
  ⟨_, rfl, served_iff_not_overtakes thirdVersion _ twoVersions _ serial twoVersions_initial rfl
    ⟨_, rfl⟩ ⟨_, _, _, rfl, by decide⟩⟩

/-- **Both requests succeed, and a read still finds the second version.** -/
theorem overtaking_hides_version : ∃ s', run thirdVersion overtaking twoVersions = some s' ∧
    (∃ row, s'.commitAt = .committed row) ∧
    (∃ version newest row, s'.deleteAt = .committed version newest row ∧
      version ∈ rows .getVersion twoVersions.objectVersions) ∧
    (getVersion s').map (·.guid) = some 12 ∧
    ¬ ∃ v, getVersion s' = some v ∧ v.guid = thirdVersion.newVersion.guid := by
  have hserved : ∀ x : Option ObjectVersionRow, x.map (·.guid) = some 12 →
      ¬ ∃ v, x = some v ∧ v.guid = thirdVersion.newVersion.guid := by
    rintro x hx ⟨v, rfl, hv⟩
    rw [Option.map_some, hv] at hx
    exact absurd hx (by decide)
  exact ⟨_, rfl, ⟨_, rfl⟩, ⟨_, _, _, rfl, by decide⟩, rfl, hserved _ rfl⟩

end VersionRaces
end SimpleStorage
