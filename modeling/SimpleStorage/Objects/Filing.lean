import SimpleStorage.Library.Interleaving
import SimpleStorage.Objects.Integrity
import SimpleStorage.Objects.Requests
import Mathlib.Data.List.Pairwise

/-!
# Rows and their blobs

A blob is written under a new path, then one row is given that path, and once the row is
gone the blob is removed.  Three things are said of a path here, all of them by what is on
record.

* It is *claimed* once a row was given it.  The thread that generated it is the only one
  that may claim it, and it claims it once.
* It is *named* while a row of the tables has it.  A claimed path that is no longer named
  is never named again.
* It is *condemned* once the cut-off of a sweep has passed its blob.  If payloads are
  committed in time, a condemned path is not claimed any more.

`Filed` is the invariant: what is named is on disk.  `Step` is what every step of every
thread has to be like, and there is one lemma for each kind of step.
-/

namespace SimpleStorage
namespace Filing

open ObjectsService ObjectsTypes Program Statements StorageService

/-! ## What is on record about paths -/

/-- The path a row was given, and the number of the call to the clock. -/
def claimOf : Event → Option (Text × ℕ)
  | .committedVersion _ _ path _ call => path.map (·, call)
  | .storedPart _ _ path _ call => some (path, call)
  | _ => none

def pathGenerated : Event → Option Text
  | .generatedPath path => some path
  | _ => none

/-- Every path the tables name. -/
def namedPaths (db : Database) : List Text :=
  db.objectVersions.filterMap (·.storagePath) ++ db.multipartParts.map (·.storagePath)

variable (N : Node) (age : ℕ) (start : List Text)

/-- A row was given the path, or the path was there from the start. -/
def Claimed (record : List (ℕ × Event)) (path : Text) : Prop :=
  path ∈ start ∨ ∃ e ∈ record, ∃ call, claimOf e.2 = some (path, call)

/-- A cut-off was computed that has passed the blob. -/
def Condemned (record : List (ℕ × Event)) (path : Text) : Prop :=
  ∃ j written k cutOff, (j, .wroteBlob path written) ∈ record ∧
    (k, .computedCutOff cutOff) ∈ record ∧ N.now written + age ≤ N.now cutOff

/-- **No path is generated twice**, and none that was there from the start. -/
def UniquePaths (record : List (ℕ × Event)) : Prop :=
  (record.filterMap (pathGenerated ·.2)).Nodup ∧
    ∀ path ∈ record.filterMap (pathGenerated ·.2), path ∉ start

/-- **Every payload is committed in time**: the time from the write of its blob to the commit of its
row, and the time any sweep takes from the start of its reading to its cut-off, are together
less than the age a blob has to have. -/
def Timely (record : List (ℕ × Event)) : Prop :=
  ∀ e ∈ record, ∀ path committed, claimOf e.2 = some (path, committed) →
    ∀ j written, (j, .wroteBlob path written) ∈ record →
    ∀ k started cutOff, (k, .startedSweep started) ∈ record → (k, .computedCutOff cutOff) ∈ record →
      ((N.now committed : ℤ) - N.now written) + (N.now cutOff - N.now started) < age

/-! ## The invariant -/

/-- **What the tables name is on disk**, and what keeps it so. -/
structure Filed (v : Shared Event World) : Prop where
  onDisk : ∀ path ∈ namedPaths v.state.db, (v.state.disk.get path).isSome
  claimed : ∀ path ∈ namedPaths v.state.db, Claimed start v.record path
  nodup : (namedPaths v.state.db).Nodup
  partKeys : (v.state.db.multipartParts.map fun p => (p.uploadGuid, p.partNumber)).Nodup
  unique : UniquePaths start v.record
  timely : Timely N age v.record
  claimant : ∀ i e path call, (i, e) ∈ v.record → claimOf e = some (path, call) →
    (i, .generatedPath path) ∈ v.record ∧ call ≤ v.state.calls
  writer : ∀ i path call, (i, .wroteBlob path call) ∈ v.record → (i, .generatedPath path) ∈ v.record
  written : ∀ path blob, v.state.disk.get path = some blob → path ∈ start ∨
    ∃ i call, (i, .wroteBlob path call) ∈ v.record ∧ blob.modifiedAt = N.now call
  started : ∀ k call, (k, .startedSweep call) ∈ v.record → call ≤ v.state.calls
  cutOff : ∀ k call, (k, .computedCutOff call) ∈ v.record → call ≤ v.state.calls ∧
    ∃ started, (k, .startedSweep started) ∈ v.record

/-! ## Steps -/

/-- **Only paths that were not claimed before come into the tables.** -/
structure Rows (v v' : Shared Event World) : Prop where
  record : ∃ new, v'.record = new ++ v.record
  versions : ∀ r ∈ v'.state.db.objectVersions, r ∈ v.state.db.objectVersions ∨
    ∀ path, r.storagePath = some path → ¬ Claimed start v.record path
  parts : ∀ r ∈ v'.state.db.multipartParts, r ∈ v.state.db.multipartParts ∨
    ¬ Claimed start v.record r.storagePath
  later : ∀ e ∈ v'.record, ∀ path call, claimOf e.2 = some (path, call) →
    e ∈ v.record ∨ v.state.calls ≤ call
  calls : v.state.calls ≤ v'.state.calls
  encryption : v'.state.encryption = v.state.encryption

/-- **What thread `i` may do**: it claims and writes only paths of its own, and a blob that goes is
one of its own, or one of a path that was claimed or condemned. -/
structure Moves (i : ℕ) (v v' : Shared Event World) : Prop extends Rows start v v' where
  claims : ∀ path, Claimed start v'.record path → Claimed start v.record path ∨
    (i, .generatedPath path) ∈ v'.record
  disk : ∀ path, v'.state.disk.get path = v.state.disk.get path ∨
    ((i, .generatedPath path) ∈ v'.record ∧ ¬ Claimed start v.record path) ∨
    (v'.state.disk.get path = none ∧ (Claimed start v.record path ∨ Condemned N age v.record path))

/-- **What becomes of what a thread sees**, while others move. -/
structure Goes (i : ℕ) (v v' : Shared Event World) : Prop extends Rows start v v' where
  unclaimed : ∀ path, (i, .generatedPath path) ∈ v.record → ¬ Claimed start v.record path →
    ¬ Claimed start v'.record path
  held : ∀ path blob, (i, .generatedPath path) ∈ v.record → ¬ Claimed start v.record path →
    v.state.disk.get path = some blob →
      v'.state.disk.get path = some blob ∨ Condemned N age v'.record path
  content : ∀ path blob, Claimed start v.record path → v'.state.disk.get path = some blob →
    v.state.disk.get path = some blob

variable {N age start} {i : ℕ} {v v' v'' : Shared Event World} {path : Text}

theorem Claimed.mono {record new : List (ℕ × Event)} (h : Claimed start record path) :
    Claimed start (new ++ record) path :=
  h.imp_right fun ⟨e, he, hclaim⟩ => ⟨e, List.mem_append_right _ he, hclaim⟩

theorem Condemned.mono {record new : List (ℕ × Event)} (h : Condemned N age record path) :
    Condemned N age (new ++ record) path := by
  obtain ⟨j, written, k, cutOff, hwritten, hcutOff, hle⟩ := h
  exact ⟨j, written, k, cutOff, List.mem_append_right _ hwritten, List.mem_append_right _ hcutOff, hle⟩

theorem Rows.claimed (h : Rows start v v') (hclaimed : Claimed start v.record path) :
    Claimed start v'.record path := by
  obtain ⟨new, hrecord⟩ := h.record
  exact hrecord ▸ hclaimed.mono

theorem Rows.condemned (h : Rows start v v') (hcondemned : Condemned N age v.record path) :
    Condemned N age v'.record path := by
  obtain ⟨new, hrecord⟩ := h.record
  exact hrecord ▸ hcondemned.mono

theorem Rows.mem (h : Rows start v v') {e : ℕ × Event} (he : e ∈ v.record) : e ∈ v'.record := by
  obtain ⟨new, hrecord⟩ := h.record
  rw [hrecord]
  exact List.mem_append_right _ he

theorem Rows.refl (v : Shared Event World) : Rows start v v where
  record := ⟨[], rfl⟩
  versions _ hr := Or.inl hr
  parts _ hr := Or.inl hr
  later _ he _ _ _ := Or.inl he
  calls := le_rfl
  encryption := rfl

theorem Rows.trans (h : Rows start v v') (h' : Rows start v' v'') : Rows start v v'' where
  record := by
    obtain ⟨new, hrecord⟩ := h.record
    obtain ⟨new', hrecord'⟩ := h'.record
    exact ⟨new' ++ new, by rw [hrecord', hrecord, List.append_assoc]⟩
  versions r hr := by
    rcases h'.versions r hr with hr | hnot
    · exact h.versions r hr
    · exact Or.inr fun path hpath hclaimed => hnot path hpath (h.claimed hclaimed)
  parts r hr := by
    rcases h'.parts r hr with hr | hnot
    · exact h.parts r hr
    · exact Or.inr fun hclaimed => hnot (h.claimed hclaimed)
  later e he path call hclaim := by
    rcases h'.later e he path call hclaim with he | hle
    · exact h.later e he path call hclaim
    · exact Or.inr (h.calls.trans hle)
  calls := h.calls.trans h'.calls
  encryption := h'.encryption.trans h.encryption

theorem Goes.refl (v : Shared Event World) : Goes N age start i v v where
  toRows := .refl v
  unclaimed _ _ h := h
  held _ _ _ _ h := Or.inl h
  content _ _ _ h := h

theorem Goes.trans (h : Goes N age start i v v') (h' : Goes N age start i v' v'') :
    Goes N age start i v v'' where
  toRows := h.toRows.trans h'.toRows
  unclaimed path hown hnot := h'.unclaimed path (h.mem hown) (h.unclaimed path hown hnot)
  held path blob hown hnot hblob := by
    rcases h.held path blob hown hnot hblob with hblob | hcondemned
    · exact h'.held path blob (h.mem hown) (h.unclaimed path hown hnot) hblob
    · exact Or.inr (h'.condemned hcondemned)
  content path blob hclaimed hblob :=
    h.content path blob hclaimed (h'.content path blob (h.claimed hclaimed) hblob)

/-- A path of one's own, not in the tables yet. -/
structure Reserved (start : List Text) (i : ℕ) (path : Text) (v : Shared Event World) : Prop where
  own : (i, .generatedPath path) ∈ v.record
  unclaimed : ¬ Claimed start v.record path

theorem Reserved.goes (h : Reserved start i path v) (hgoes : Goes N age start i v v') :
    Reserved start i path v' where
  own := hgoes.mem h.own
  unclaimed := hgoes.unclaimed path h.own h.unclaimed

/-! ## Owners -/

/-- Who generated a path is the only one who did. -/
theorem UniquePaths.owner {record : List (ℕ × Event)} (h : UniquePaths start record) {i j : ℕ}
    (hi : (i, .generatedPath path) ∈ record) (hj : (j, .generatedPath path) ∈ record) : i = j := by
  have hpairwise := List.pairwise_filterMap.mp h.1
  have : Std.Symm fun e e' : ℕ × Event => ∀ p, pathGenerated e.2 = some p →
      ∀ p', pathGenerated e'.2 = some p' → p ≠ p' :=
    ⟨fun e e' hne p hp p' hp' heq => hne p' hp' p hp heq.symm⟩
  by_contra hne
  exact hpairwise.forall hi hj (fun heq => hne (congrArg Prod.fst heq)) path rfl path rfl rfl

/-- A path that was generated is not one of the start. -/
theorem UniquePaths.notMem {record : List (ℕ × Event)} (h : UniquePaths start record) {i : ℕ}
    (hi : (i, .generatedPath path) ∈ record) : path ∉ start :=
  h.2 path (List.mem_filterMap.mpr ⟨_, hi, rfl⟩)

/-- Part of a record. -/
theorem UniquePaths.of_append {new record : List (ℕ × Event)}
    (h : UniquePaths start (new ++ record)) : UniquePaths start record := by
  rw [UniquePaths, List.filterMap_append] at h
  exact ⟨(List.nodup_append.mp h.1).2.1, fun path hpath => h.2 path (List.mem_append_right _ hpath)⟩

theorem Timely.of_append {new record : List (ℕ × Event)} (h : Timely N age (new ++ record)) :
    Timely N age record := by
  intro e he path committed hclaim j written hwrote k started cutOff hstarted hcutOff
  exact h e (List.mem_append_right _ he) path committed hclaim j written
    (List.mem_append_right _ hwrote) k started cutOff (List.mem_append_right _ hstarted)
    (List.mem_append_right _ hcutOff)

/-- What one thread does is what the others see. -/
theorem Moves.goes {j : ℕ} {e : Option Event} {s : World} (hij : i ≠ j)
    (hv' : Filed N age start (v.after j e s)) (h : Moves N age start j v (v.after j e s)) :
    Goes N age start i v (v.after j e s) := by
  have hother : ∀ path, (i, .generatedPath path) ∈ v.record →
      (j, .generatedPath path) ∉ (v.after j e s).record := fun path hown hj =>
    hij (hv'.unique.owner (List.mem_append_right _ hown) hj)
  refine ⟨h.toRows, fun path hown hnot hclaimed => ?_,
    fun path blob hown hnot hblob => ?_, fun path blob hclaimed hblob => ?_⟩
  · exact (h.claims path hclaimed).elim hnot (hother path hown)
  · rcases h.disk path with heq | ⟨hj, -⟩ | ⟨-, hclaimed | hcondemned⟩
    · exact Or.inl (heq.trans hblob)
    · exact absurd hj (hother path hown)
    · exact absurd hclaimed hnot
    · exact Or.inr hcondemned.mono
  · rcases h.disk path with heq | ⟨-, hnot⟩ | ⟨hnone, -⟩
    · exact heq.symm.trans hblob
    · exact absurd hclaimed hnot
    · rw [hnone] at hblob
      cases hblob

/-- **Rows and blobs, as a protocol.** -/
def filing (N : Node) (age : ℕ) (start : List Text) : Protocol Event World where
  permits v i e := UniquePaths start ((i, e) :: v.record) ∧ Timely N age ((i, e) :: v.record) ∧
    ∀ path, claimOf e = some (path, v.state.calls) → ¬ Condemned N age v.record path
  inv := Filed N age start
  rely i v v' := Goes N age start i v v' ∧ ∃ new, v'.record = new ++ v.record ∧ ∀ e ∈ new, e.1 ≠ i
  guar j v e s := Moves N age start j v (v.after j e s)
  refl i v := ⟨.refl v, [], rfl, nofun⟩
  trans := by
    rintro i v v' v'' ⟨hgoes, new, hrecord, hother⟩ ⟨hgoes', new', hrecord', hother'⟩
    exact ⟨hgoes.trans hgoes', new' ++ new, by rw [hrecord', hrecord, List.append_assoc],
      fun e he => (List.mem_append.mp he).elim (hother' e) (hother e)⟩
  rely_of_guar := by
    rintro i j v e s hij - hmoves hinv
    refine ⟨hmoves.goes hij hinv, e.toList.map (j, ·), rfl, fun e' he' => ?_⟩
    obtain ⟨_, -, rfl⟩ := List.mem_map.mp he'
    exact hij.symm

/-! ## What a step leaves on record -/

section Steps

variable {e : Option Event} {s : World}

theorem mem_record_after {x : ℕ × Event} :
    x ∈ (v.after i e s).record ↔ (x.1 = i ∧ e = some x.2) ∨ x ∈ v.record := by
  obtain ⟨j, y⟩ := x
  cases e with
  | none => simp
  | some z => simp [Prod.ext_iff, eq_comm]

theorem claimed_after : Claimed start (v.after i e s).record path ↔
    Claimed start v.record path ∨ ∃ call, e.bind claimOf = some (path, call) := by
  constructor
  · rintro (hstart | ⟨x, hx, call, hclaim⟩)
    · exact Or.inl (Or.inl hstart)
    · rcases mem_record_after.mp hx with ⟨-, rfl⟩ | hx
      · exact Or.inr ⟨call, hclaim⟩
      · exact Or.inl (Or.inr ⟨x, hx, call, hclaim⟩)
  · rintro (hclaimed | ⟨call, hclaim⟩)
    · exact hclaimed.mono
    · obtain ⟨x, hx, hclaim⟩ := Option.bind_eq_some_iff.mp hclaim
      exact Or.inr ⟨(i, x), mem_record_after.mpr (Or.inl ⟨rfl, hx⟩), call, hclaim⟩

theorem later_after (he : ∀ path call, e.bind claimOf = some (path, call) → v.state.calls ≤ call) :
    ∀ x ∈ (v.after i e s).record, ∀ path call, claimOf x.2 = some (path, call) →
      x ∈ v.record ∨ v.state.calls ≤ call := by
  intro x hx path call hclaim
  rcases mem_record_after.mp hx with ⟨-, rfl⟩ | hx
  · exact Or.inr (he path call hclaim)
  · exact Or.inl hx

/-- The event is permitted where it is left. -/
def Permits (N : Node) (age : ℕ) (start : List Text) (i : ℕ) (v : Shared Event World)
    (e : Option Event) : Prop :=
  ∀ x, e = some x → (filing N age start).permits v i x

/-- **The invariant after a step**, by what has to be looked at. -/
theorem Filed.after (hv : Filed N age start v) (hpermits : Permits N age start i v e)
    (hcalls : v.state.calls ≤ s.calls)
    (honDisk : ∀ path ∈ namedPaths s.db, (s.disk.get path).isSome)
    (hclaimed : ∀ path ∈ namedPaths s.db, path ∈ namedPaths v.state.db ∨
      ∃ call, e.bind claimOf = some (path, call))
    (hnodup : (namedPaths s.db).Nodup)
    (hpartKeys : (s.db.multipartParts.map fun p => (p.uploadGuid, p.partNumber)).Nodup)
    (hclaim : ∀ path call, e.bind claimOf = some (path, call) →
      (i, .generatedPath path) ∈ v.record ∧ call ≤ s.calls)
    (hwrite : ∀ path call, e = some (.wroteBlob path call) → (i, .generatedPath path) ∈ v.record)
    (hwritten : ∀ path blob, s.disk.get path = some blob → v.state.disk.get path = some blob ∨
      ∃ call, e = some (.wroteBlob path call) ∧ blob.modifiedAt = N.now call)
    (hstarted : ∀ call, e = some (.startedSweep call) → call ≤ s.calls)
    (hcutOff : ∀ call, e = some (.computedCutOff call) → call ≤ s.calls ∧
      ∃ started, (i, .startedSweep started) ∈ v.record) :
    Filed N age start (v.after i e s) where
  onDisk := honDisk
  claimed path hpath := by
    rw [claimed_after]
    exact (hclaimed path hpath).imp_left (hv.claimed path)
  nodup := hnodup
  partKeys := hpartKeys
  unique := by
    cases e with
    | none => exact hv.unique
    | some x => exact (hpermits x rfl).1
  timely := by
    cases e with
    | none => exact hv.timely
    | some x => exact (hpermits x rfl).2.1
  claimant j x path call hx hclaims := by
    rcases mem_record_after.mp hx with ⟨rfl, rfl⟩ | hx
    · obtain ⟨hgenerated, hle⟩ := hclaim path call hclaims
      exact ⟨List.mem_append_right _ hgenerated, hle⟩
    · obtain ⟨hgenerated, hle⟩ := hv.claimant j x path call hx hclaims
      exact ⟨List.mem_append_right _ hgenerated, hle.trans hcalls⟩
  writer j path call hx := by
    rcases mem_record_after.mp hx with ⟨rfl, he⟩ | hx
    · exact List.mem_append_right _ (hwrite path call he)
    · exact List.mem_append_right _ (hv.writer j path call hx)
  written path blob hblob := by
    rcases hwritten path blob hblob with hblob | ⟨call, he, hmodified⟩
    · refine (hv.written path blob hblob).imp_right fun ⟨j, call, hx, hmodified⟩ => ?_
      exact ⟨j, call, List.mem_append_right _ hx, hmodified⟩
    · exact Or.inr ⟨i, call, mem_record_after.mpr (Or.inl ⟨rfl, he⟩), hmodified⟩
  started k call hx := by
    rcases mem_record_after.mp hx with ⟨-, he⟩ | hx
    · exact hstarted call he
    · exact (hv.started k call hx).trans hcalls
  cutOff k call hx := by
    rcases mem_record_after.mp hx with ⟨rfl, he⟩ | hx
    · obtain ⟨hle, started, hstarted⟩ := hcutOff call he
      exact ⟨hle, started, List.mem_append_right _ hstarted⟩
    · obtain ⟨hle, started, hstarted⟩ := hv.cutOff k call hx
      exact ⟨hle.trans hcalls, started, List.mem_append_right _ hstarted⟩

/-- No path is claimed or written by this, and what it says of a sweep is so. -/
structure Unnoticed (i : ℕ) (v : Shared Event World) (e : Option Event) (s : World) : Prop where
  claimOf : e.bind claimOf = none
  wroteBlob : ∀ path call, e ≠ some (.wroteBlob path call)
  startedSweep : ∀ call, e = some (.startedSweep call) → call ≤ s.calls
  computedCutOff : ∀ call, e = some (.computedCutOff call) → call ≤ s.calls ∧
    ∃ started, (i, .startedSweep started) ∈ v.record

/-- What a step does to rows and blobs: the invariant holds again, and thread `i` did nothing but
what it may. -/
structure Step (N : Node) (age : ℕ) (start : List Text) (i : ℕ) (v : Shared Event World)
    (e : Option Event) (s : World) : Prop where
  filed : Filed N age start (v.after i e s)
  moves : Moves N age start i v (v.after i e s)

/-- Rows may go, and no blob. -/
theorem Filed.shrink (hv : Filed N age start v) (hpermits : Permits N age start i v e)
    (he : Unnoticed i v e s) (hversions : s.db.objectVersions.Sublist v.state.db.objectVersions)
    (hparts : s.db.multipartParts.Sublist v.state.db.multipartParts)
    (hdisk : s.disk = v.state.disk) (hencryption : s.encryption = v.state.encryption)
    (hcalls : v.state.calls ≤ s.calls) : Step N age start i v e s where
  filed := by
    have hnamed : (namedPaths s.db).Sublist (namedPaths v.state.db) :=
      (hversions.filterMap _).append (hparts.map _)
    refine hv.after hpermits hcalls (fun path hpath => ?_)
      (fun path hpath => Or.inl (hnamed.subset hpath)) (hv.nodup.sublist hnamed)
      (hv.partKeys.sublist (hparts.map _)) (fun path call hclaim => ?_)
      (fun path call h => absurd h (he.wroteBlob path call)) (fun path blob hblob => ?_)
      he.startedSweep he.computedCutOff
    · rw [hdisk]
      exact hv.onDisk path (hnamed.subset hpath)
    · rw [he.claimOf] at hclaim
      cases hclaim
    · exact Or.inl (hdisk ▸ hblob)
  moves := by
    refine ⟨⟨⟨_, rfl⟩, fun r hr => Or.inl (hversions.subset hr),
      fun r hr => Or.inl (hparts.subset hr),
      later_after (fun _ _ h => nomatch he.claimOf.symm.trans h), hcalls, hencryption⟩,
      fun path hclaimed => ?_,
      fun path => Or.inl (congrArg (·.get path) hdisk)⟩
    rw [claimed_after, he.claimOf] at hclaimed
    exact Or.inl (hclaimed.resolve_right fun ⟨_, h⟩ => nomatch h)

/-- A blob is written under a path of one's own. -/
theorem Filed.write (hv : Filed N age start v)
    (hpermits : Permits N age start i v (some (.wroteBlob path v.state.calls)))
    (hpath : Reserved start i path v) (content : Bytes) :
    Step N age start i v (some (.wroteBlob path v.state.calls)) { v.state with
      disk := v.state.disk.set path ⟨content, N.now v.state.calls⟩
      calls := v.state.calls + 1 } where
  filed := by
    refine hv.after hpermits (Nat.le_succ _) (fun path' hpath' => ?_) (fun path' h => Or.inl h) hv.nodup
      hv.partKeys nofun (fun path' call heq => ?_) (fun path' blob hblob => ?_) nofun nofun
    · by_cases heq : path' = path
      · rw [heq, FileTable.get_set_self]
        rfl
      · rw [FileTable.get_set_of_ne heq]
        exact hv.onDisk path' hpath'
    · cases heq
      exact hpath.own
    · by_cases heq : path' = path
      · subst heq
        rw [FileTable.get_set_self, Option.some.injEq] at hblob
        exact Or.inr ⟨_, rfl, hblob ▸ rfl⟩
      · rw [FileTable.get_set_of_ne heq] at hblob
        exact Or.inl hblob
  moves := by
    refine ⟨⟨⟨_, rfl⟩, fun r hr => Or.inl hr, fun r hr => Or.inl hr, later_after nofun,
      Nat.le_succ _, rfl⟩,
      fun path' hclaimed => ?_, fun path' => ?_⟩
    · rw [claimed_after] at hclaimed
      exact Or.inl (hclaimed.resolve_right fun ⟨_, h⟩ => nomatch h)
    · by_cases heq : path' = path
      · exact Or.inr (Or.inl ⟨List.mem_append_right _ (heq ▸ hpath.own), heq ▸ hpath.unclaimed⟩)
      · exact Or.inl (FileTable.get_set_of_ne heq)

/-- A blob goes that no row names. -/
theorem Filed.remove (hv : Filed N age start v)
    (hpermits : Permits N age start i v (some (.removedBlob path)))
    (hnamed : path ∉ namedPaths v.state.db)
    (hfree : Reserved start i path v ∨ Claimed start v.record path ∨ Condemned N age v.record path) :
    Step N age start i v (some (.removedBlob path)) { v.state with disk := v.state.disk.remove path } where
  filed := by
    refine hv.after hpermits le_rfl (fun path' hpath' => ?_) (fun path' h => Or.inl h) hv.nodup
      hv.partKeys nofun nofun (fun path' blob hblob => Or.inl ?_) nofun nofun
    · rw [FileTable.get_remove_of_ne fun heq : path' = path => hnamed (heq ▸ hpath')]
      exact hv.onDisk path' hpath'
    · by_cases heq : path' = path
      · rw [heq, FileTable.get_remove_self] at hblob
        cases hblob
      · rwa [FileTable.get_remove_of_ne heq] at hblob
  moves := by
    refine ⟨⟨⟨_, rfl⟩, fun r hr => Or.inl hr, fun r hr => Or.inl hr, later_after nofun, le_rfl, rfl⟩,
      fun path' hclaimed => ?_, fun path' => ?_⟩
    · rw [claimed_after] at hclaimed
      exact Or.inl (hclaimed.resolve_right fun ⟨_, h⟩ => nomatch h)
    · by_cases heq : path' = path
      · subst heq
        rcases hfree with hpath | hfree
        · exact Or.inr (Or.inl ⟨List.mem_append_right _ hpath.own, hpath.unclaimed⟩)
        · exact Or.inr (Or.inr ⟨FileTable.get_remove_self _ _, hfree⟩)
      · exact Or.inl (FileTable.get_remove_of_ne heq)

/-! ## What a thread knows of a path -/

/-- A path of one's own with its blob. -/
structure Held (N : Node) (age : ℕ) (start : List Text) (i : ℕ) (path : Text) (blob : Blob)
    (v : Shared Event World) : Prop extends Reserved start i path v where
  onDisk : v.state.disk.get path = some blob ∨ Condemned N age v.record path

/-- A claimed path only rows of a kind have. -/
structure Only (start : List Text) (p : ObjectVersionRow → Prop) (q : MultipartPartRow → Prop)
    (path : Text) (v : Shared Event World) : Prop where
  claimed : Claimed start v.record path
  versions : ∀ r ∈ v.state.db.objectVersions, r.storagePath = some path → p r
  parts : ∀ r ∈ v.state.db.multipartParts, r.storagePath = path → q r

/-- A claimed path no row has any more. -/
abbrev Retired (start : List Text) (path : Text) (v : Shared Event World) : Prop :=
  Only start (fun _ => False) (fun _ => False) path v

theorem Held.goes {blob : Blob} (h : Held N age start i path blob v) (hgoes : Goes N age start i v v') :
    Held N age start i path blob v' where
  toReserved := h.toReserved.goes hgoes
  onDisk := h.onDisk.elim (hgoes.held path blob h.own h.unclaimed) fun h => Or.inr (hgoes.condemned h)

theorem Only.rows {p : ObjectVersionRow → Prop} {q : MultipartPartRow → Prop} (h : Only start p q path v)
    (hrows : Rows start v v') : Only start p q path v' where
  claimed := hrows.claimed h.claimed
  versions r hr hpath := (hrows.versions r hr).elim (h.versions r · hpath)
    fun hnot => absurd h.claimed (hnot path hpath)
  parts r hr hpath := (hrows.parts r hr).elim (h.parts r · hpath)
    fun hnot => absurd h.claimed (hpath ▸ hnot)

theorem mem_namedPaths {db : Database} : path ∈ namedPaths db ↔
    (∃ r ∈ db.objectVersions, r.storagePath = some path) ∨
      ∃ r ∈ db.multipartParts, r.storagePath = path := by
  rw [namedPaths, List.mem_append, List.mem_filterMap, List.mem_map]

theorem Only.notMem_namedPaths (h : Retired start path v) : path ∉ namedPaths v.state.db := by
  rw [mem_namedPaths]
  rintro (⟨r, hr, hpath⟩ | ⟨r, hr, hpath⟩)
  · exact h.versions r hr hpath
  · exact h.parts r hr hpath

/-- What is not claimed is not named. -/
theorem Filed.notMem_namedPaths (hv : Filed N age start v) (h : ¬ Claimed start v.record path) :
    path ∉ namedPaths v.state.db := fun hmem => h (hv.claimed path hmem)

theorem eq_of_nodup_filterMap {α β : Type} {f : α → Option β} {xs : List α} (h : (xs.filterMap f).Nodup)
    {a b : α} (ha : a ∈ xs) (hb : b ∈ xs) {y : β} (hya : f a = some y) (hyb : f b = some y) : a = b := by
  have hpairwise := List.pairwise_filterMap.mp h
  have : Std.Symm fun a b : α => ∀ y, f a = some y → ∀ y', f b = some y' → y ≠ y' :=
    ⟨fun a b hne y hy y' hy' heq => hne y' hy' y hy heq.symm⟩
  by_contra hne
  exact hpairwise.forall ha hb hne y hya y hyb rfl

/-- A version row's path is its alone. -/
theorem Filed.only_version (hv : Filed N age start v) {r : ObjectVersionRow}
    (hr : r ∈ v.state.db.objectVersions) (hpath : r.storagePath = some path) :
    Only start (· = r) (fun _ => False) path v where
  claimed := hv.claimed path (mem_namedPaths.mpr (Or.inl ⟨r, hr, hpath⟩))
  versions _ hr' hpath' :=
    eq_of_nodup_filterMap (List.nodup_append.mp hv.nodup).1 hr' hr hpath' hpath
  parts p hp hpath' := (List.nodup_append.mp hv.nodup).2.2 path (List.mem_filterMap.mpr ⟨r, hr, hpath⟩)
    path (List.mem_map.mpr ⟨p, hp, hpath'⟩) rfl

/-- A part row's path is its alone. -/
theorem Filed.only_part (hv : Filed N age start v) {p : MultipartPartRow}
    (hp : p ∈ v.state.db.multipartParts) : Only start (fun _ => False) (· = p) p.storagePath v where
  claimed := hv.claimed _ (mem_namedPaths.mpr (Or.inr ⟨p, hp, rfl⟩))
  versions r hr hpath := (List.nodup_append.mp hv.nodup).2.2 p.storagePath
    (List.mem_filterMap.mpr ⟨r, hr, hpath⟩) _ (List.mem_map.mpr ⟨p, hp, rfl⟩) rfl
  parts _ hp' hpath := List.inj_on_of_nodup_map (List.nodup_append.mp hv.nodup).2.1 hp' hp hpath

/-! ## Claims -/

/-- **A blob is on disk when its row is committed in time.** -/
theorem Held.present {blob : Blob} (h : Held N age start i path blob v)
    {x : Event} (hpermits : Permits N age start i v (some x))
    (hclaim : claimOf x = some (path, v.state.calls)) : v.state.disk.get path = some blob :=
  h.onDisk.resolve_right ((hpermits x rfl).2.2 path hclaim)

/-- **Rows are given paths of one's own**, or none. -/
theorem Filed.claim (hv : Filed N age start v) {x : Event} {db : Database}
    (hpermits : Permits N age start i v (some x))
    (hclaim : ∀ path call, claimOf x = some (path, call) →
      call = v.state.calls ∧ ∃ blob, Held N age start i path blob v)
    (hquiet : (∀ path call, x ≠ .wroteBlob path call) ∧ (∀ call, x ≠ .startedSweep call) ∧
      ∀ call, x ≠ .computedCutOff call)
    (hversions : ∀ r ∈ db.objectVersions, r ∈ v.state.db.objectVersions ∨
      ∀ path, r.storagePath = some path → claimOf x = some (path, v.state.calls))
    (hparts : ∀ r ∈ db.multipartParts, r ∈ v.state.db.multipartParts ∨
      claimOf x = some (r.storagePath, v.state.calls))
    (hnodup : (namedPaths db).Nodup)
    (hpartKeys : (db.multipartParts.map fun p => (p.uploadGuid, p.partNumber)).Nodup) :
    Step N age start i v (some x) { v.state with db, calls := v.state.calls + 1 } := by
  have hnamed : ∀ path ∈ namedPaths db, path ∈ namedPaths v.state.db ∨
      claimOf x = some (path, v.state.calls) := by
    intro path hpath
    rcases mem_namedPaths.mp hpath with ⟨r, hr, hrpath⟩ | ⟨r, hr, hrpath⟩
    · exact (hversions r hr).imp (fun hr => mem_namedPaths.mpr (Or.inl ⟨r, hr, hrpath⟩))
        fun hclaimed => hclaimed path hrpath
    · exact (hparts r hr).imp (fun hr => mem_namedPaths.mpr (Or.inr ⟨r, hr, hrpath⟩))
        fun hclaimed => hrpath ▸ hclaimed
  have hunclaimed : ∀ {path call}, claimOf x = some (path, call) → ¬ Claimed start v.record path :=
    fun h => (hclaim _ _ h).2.elim fun _ hheld => hheld.unclaimed
  refine ⟨hv.after hpermits (Nat.le_succ _) (fun path hpath => ?_)
    (fun path hpath => (hnamed path hpath).imp_right fun h => ⟨_, h⟩) hnodup hpartKeys
    (fun path call h => ?_) (fun path call h => absurd (Option.some.inj h) (hquiet.1 path call))
    (fun path blob h => Or.inl h) (fun call h => absurd (Option.some.inj h) (hquiet.2.1 call))
    (fun call h => absurd (Option.some.inj h) (hquiet.2.2 call)), ?_⟩
  · rcases hnamed path hpath with hmem | hclaimed
    · exact hv.onDisk path hmem
    · obtain ⟨blob, hheld⟩ := (hclaim _ _ hclaimed).2
      exact Option.isSome_of_eq_some (hheld.present hpermits hclaimed)
  · obtain ⟨rfl, blob, hheld⟩ := hclaim path call h
    exact ⟨hheld.own, Nat.le_succ _⟩
  · refine ⟨⟨⟨_, rfl⟩, fun r hr => (hversions r hr).imp_right fun h path hpath => ?_,
      fun r hr => (hparts r hr).imp_right hunclaimed,
      later_after (fun path call h => (hclaim path call h).1.ge), Nat.le_succ _, rfl⟩,
      fun path hclaimed => ?_, fun path => Or.inl rfl⟩
    · exact hunclaimed (h path hpath)
    · rw [claimed_after] at hclaimed
      refine hclaimed.imp_right fun ⟨call, h⟩ => ?_
      obtain ⟨-, blob, hheld⟩ := hclaim path call h
      exact List.mem_append_right _ hheld.own

/-- A version is committed with a blob of one's own, or none. -/
theorem Filed.commit (hv : Filed N age start v) (bucketGuid : Guid) (key versionId : Text)
    (values : VersionValues)
    (hpermits : Permits N age start i v
      (some (.committedVersion bucketGuid key values.storagePath values.size v.state.calls)))
    (hheld : ∀ path, values.storagePath = some path → ∃ blob, Held N age start i path blob v) :
    Step N age start i v
      (some (.committedVersion bucketGuid key values.storagePath values.size v.state.calls))
      { v.state with
        db := (Statements.commitVersion v.state.calls (N.now v.state.calls) bucketGuid key versionId
          values v.state.db).2
        calls := v.state.calls + 1 } := by
  obtain ⟨objects, objectVersions, hframe⟩ :=
    commitVersion_others v.state.calls (N.now v.state.calls) bucketGuid key versionId values v.state.db
  have hversions : objectVersions =
      keptVersions (commitRow v.state.calls (bucketGuid, key) v.state.db).guid versionId
        v.state.db.objectVersions ++ [committedVersion v.state.calls (N.now v.state.calls)
          (bucketGuid, key) versionId values v.state.db] := by
    rw [← objectVersions_commitVersion, hframe]
  have hsub := keptVersions_sublist (commitRow v.state.calls (bucketGuid, key) v.state.db).guid
    versionId v.state.db.objectVersions
  rw [hframe]
  refine hv.claim hpermits (fun path call h => ?_) ⟨nofun, nofun, nofun⟩ (fun r hr => ?_)
    (fun r hr => Or.inl hr) ?_ hv.partKeys
  · obtain ⟨_, hpath, heq⟩ := Option.map_eq_some_iff.mp h
    obtain ⟨rfl, rfl⟩ := Prod.mk.inj heq
    exact ⟨rfl, hheld _ hpath⟩
  · rw [hversions, List.mem_append, List.mem_singleton] at hr
    refine hr.imp (fun hr => hsub.subset hr) fun hr path hpath => ?_
    have hvalues : values.storagePath = some path := by rw [← hpath, hr]; rfl
    exact congrArg (Option.map (·, v.state.calls)) hvalues
  · have hone : [committedVersion v.state.calls (N.now v.state.calls) (bucketGuid, key) versionId
        values v.state.db].filterMap (·.storagePath) = values.storagePath.toList := by
      have hpath : (committedVersion v.state.calls (N.now v.state.calls) (bucketGuid, key) versionId
        values v.state.db).storagePath = values.storagePath := rfl
      rw [List.filterMap_cons, List.filterMap_nil, hpath]
      cases values.storagePath <;> rfl
    have hkept := (hsub.filterMap (·.storagePath)).append
      (List.Sublist.refl (v.state.db.multipartParts.map (·.storagePath)))
    show (objectVersions.filterMap (·.storagePath) ++ _).Nodup
    rw [hversions, List.filterMap_append, hone]
    cases hpath : values.storagePath with
    | none =>
      rw [Option.toList_none, List.append_nil]
      exact hv.nodup.sublist hkept
    | some path =>
      rw [Option.toList_some, List.append_assoc, List.singleton_append, List.nodup_middle,
        List.nodup_cons]
      obtain ⟨blob, hblob⟩ := hheld path hpath
      exact ⟨fun hmem => hv.notMem_namedPaths hblob.unclaimed (hkept.subset hmem),
        hv.nodup.sublist hkept⟩

/-- A part is stored with a blob of one's own. -/
theorem Filed.storePart (hv : Filed N age start v) (bucketGuid : Guid) (part : MultipartPartRow)
    (hpermits : Permits N age start i v
      (some (.storedPart bucketGuid part.uploadGuid part.storagePath part.size v.state.calls)))
    (hheld : ∃ blob, Held N age start i part.storagePath blob v) :
    Step N age start i v
      (some (.storedPart bucketGuid part.uploadGuid part.storagePath part.size v.state.calls))
      { v.state with db := upsertPart part v.state.db, calls := v.state.calls + 1 } := by
  obtain ⟨createdAt, hupserted⟩ := upsertedPart_eq part v.state.db
  have hmem {p : MultipartPartRow} : p ∈ (upsertPart part v.state.db).multipartParts ↔ _ :=
    mem_upsertPart hv.partKeys
  have hnumbers : ((upsertPart part v.state.db).multipartParts.map _).Nodup :=
    upsertPart_numbers hv.partKeys
  have hnew : part.storagePath ∉ namedPaths v.state.db :=
    hheld.elim fun _ h => hv.notMem_namedPaths h.unclaimed
  have hold := List.nodup_append.mp hv.nodup
  refine hv.claim hpermits (fun path call h => ?_) ⟨nofun, nofun, nofun⟩
    (fun r hr => Or.inl hr) (fun p hp => ?_) ?_ hnumbers
  · obtain ⟨rfl, rfl⟩ := Prod.mk.inj (Option.some.inj h)
    exact ⟨rfl, hheld⟩
  · rcases hmem.mp hp with rfl | ⟨hp, -⟩
    · rw [hupserted]
      exact Or.inr rfl
    · exact Or.inl hp
  · refine List.nodup_append.mpr ⟨hold.1, (List.nodup_map_iff_inj_on hnumbers.of_map).mpr
      fun p hp q hq heq => ?_, fun path hpath path' hpath' => ?_⟩
    · have hpath : (upsertedPart part v.state.db).storagePath = part.storagePath := by rw [hupserted]
      have hother {p : MultipartPartRow} (hp : p ∈ v.state.db.multipartParts) :
          p.storagePath ≠ part.storagePath := fun h =>
        hnew (List.mem_append_right _ (h ▸ List.mem_map_of_mem hp))
      rcases hmem.mp hp with rfl | ⟨hp, -⟩ <;> rcases hmem.mp hq with rfl | ⟨hq, -⟩
      · rfl
      · exact absurd (heq.symm.trans hpath) (hother hq)
      · exact absurd (heq.trans hpath) (hother hp)
      · exact List.inj_on_of_nodup_map hold.2.1 hp hq heq
    · obtain ⟨p, hp, rfl⟩ := List.mem_map.mp hpath'
      rcases hmem.mp hp with rfl | ⟨hp, -⟩
      · rw [hupserted]
        exact fun h => hnew (h ▸ List.mem_append_left _ hpath)
      · exact hold.2.2 path hpath _ (List.mem_map_of_mem hp)

/-! ## Paths that go out of use -/

theorem Only.retired {p : ObjectVersionRow → Prop} {q : MultipartPartRow → Prop}
    (h : Only start p q path v) (hp : ∀ r ∈ v.state.db.objectVersions, ¬ p r)
    (hq : ∀ r ∈ v.state.db.multipartParts, ¬ q r) : Retired start path v where
  claimed := h.claimed
  versions r hr hpath := hp r hr (h.versions r hr hpath)
  parts r hr hpath := hq r hr (h.parts r hr hpath)

/-- The paths of the versions a transaction drops. -/
theorem Filed.retired_versions (hv : Filed N age start v) (hstep : Step N age start i v e s)
    {dropped : List ObjectVersionRow} (hdropped : ∀ r ∈ dropped, r ∈ v.state.db.objectVersions)
    (hgone : ∀ r ∈ dropped, r.storagePath.isSome → r ∉ s.db.objectVersions) :
    ∀ path ∈ storagePaths dropped, Retired start path (v.after i e s) := by
  intro path hpath
  obtain ⟨r, hr, hrpath⟩ := List.mem_filterMap.mp hpath
  have hsome := (Query.present_eq_some_iff.mp hrpath).1
  refine ((hv.only_version (hdropped r hr) hsome).rows hstep.moves.toRows).retired ?_ fun _ _ h => h
  rintro r' hr' rfl
  exact hgone r' hr (Option.isSome_of_eq_some hsome) hr'

theorem not_mem_kept_of_replaced {objectGuid : Guid} {versionId : Text} {vs : List ObjectVersionRow}
    {r : ObjectVersionRow} (h : r ∈ replacedVersions objectGuid versionId vs) :
    r ∉ keptVersions objectGuid versionId vs := by
  unfold replacedVersions at h
  unfold keptVersions
  split_ifs at h ⊢
  · intro hkept
    have hnot := (List.mem_filter.mp hkept).2
    rw [(List.mem_filter.mp h).2] at hnot
    cases hnot
  · cases h

/-- What a commit replaces. -/
theorem Filed.retired_commit (hv : Filed N age start v) {bucketGuid : Guid} {key versionId : Text}
    {values : VersionValues} {t : ℕ} {createdAt : Timestamp}
    (hstep : Step N age start i v e { v.state with
      db := (Statements.commitVersion t createdAt bucketGuid key versionId values v.state.db).2
      calls := v.state.calls + 1 })
    (hheld : ∀ path, values.storagePath = some path → ¬ Claimed start v.record path) :
    ∀ path ∈ (Statements.commitVersion t createdAt bucketGuid key versionId values v.state.db).1,
      Retired start path (v.after i e { v.state with
        db := (Statements.commitVersion t createdAt bucketGuid key versionId values v.state.db).2
        calls := v.state.calls + 1 }) := by
  have hsame : (upsertObject t bucketGuid key v.state.db).2.objectVersions =
      v.state.db.objectVersions := by
    unfold upsertObject
    cases findObject bucketGuid key v.state.db <;> rfl
  have hpaths : (Statements.commitVersion t createdAt bucketGuid key versionId values v.state.db).1 =
      storagePaths (replacedVersions (commitRow t (bucketGuid, key) v.state.db).guid versionId
        v.state.db.objectVersions) := by
    rw [commitVersion_eq (k := (bucketGuid, key)), ← hsame]
  rw [hpaths]
  have hmem {r : ObjectVersionRow} : r ∈ v.state.db.objectVersions ↔
      r ∈ keptVersions (commitRow t (bucketGuid, key) v.state.db).guid versionId v.state.db.objectVersions ∨
        r ∈ replacedVersions (commitRow t (bucketGuid, key) v.state.db).guid versionId
          v.state.db.objectVersions := mem_or_replaced
  refine hv.retired_versions hstep (fun r hr => hmem.mpr (Or.inr hr)) fun r hr hsome hr' => ?_
  rw [objectVersions_commitVersion, List.mem_append, List.mem_singleton] at hr'
  rcases hr' with hkept | rfl
  · exact not_mem_kept_of_replaced hr hkept
  · obtain ⟨path, hpath⟩ := Option.isSome_iff_exists.mp hsome
    exact hheld path hpath (hv.claimed path
      (mem_namedPaths.mpr (Or.inl ⟨_, hmem.mpr (Or.inr hr), hpath⟩)))

/-- What removing a version leaves without a row. -/
theorem Only.retired_removeVersion {objectGuid versionGuid : Guid}
    (h : Only start (·.guid = versionGuid) (fun _ => False) path v)
    (hstep : Step N age start i v e { v.state with
      db := Statements.removeVersion objectGuid versionGuid v.state.db }) :
    Retired start path (v.after i e { v.state with
      db := Statements.removeVersion objectGuid versionGuid v.state.db }) := by
  refine (h.rows hstep.moves.toRows).retired (fun r hr hguid => ?_) fun _ _ h => h
  have hversions : (Statements.removeVersion objectGuid versionGuid v.state.db).objectVersions = _ :=
    removeVersion_objectVersions objectGuid versionGuid
  rw [Shared.state_after, hversions] at hr
  have hne := (List.mem_filter.mp hr).2
  simp [hguid] at hne

/-- What dropping a key does. -/
theorem Filed.retired_purge (hv : Filed N age start v) {objectGuid : Guid}
    (hstep : Step N age start i v e { v.state with
      db := (Statements.purgeObject objectGuid v.state.db).2 }) :
    ∀ path ∈ (Statements.purgeObject objectGuid v.state.db).1,
      Retired start path (v.after i e { v.state with
        db := (Statements.purgeObject objectGuid v.state.db).2 }) := by
  refine hv.retired_versions hstep (fun r hr => (List.mem_filter.mp hr).1) fun r hr _ hr' => ?_
  have hgone : (!decide (r.objectGuid = objectGuid)) = true := (List.mem_filter.mp hr').2
  rw [(List.mem_filter.mp hr).2] at hgone
  cases hgone

/-- What dropping the parts of an upload does. -/
theorem Only.retired_deleteParts {uploadGuid : Guid}
    (h : Only start (fun _ => False) (·.uploadGuid = uploadGuid) path v)
    (hstep : Step N age start i v e { v.state with db := deleteParts uploadGuid v.state.db }) :
    Retired start path (v.after i e { v.state with db := deleteParts uploadGuid v.state.db }) := by
  refine (h.rows hstep.moves.toRows).retired (fun _ _ h => h) fun p hp hguid => ?_
  exact absurd hguid (of_decide_eq_true (List.mem_filter.mp hp).2)

/-- What storing a part replaces. -/
theorem Only.retired_upsertPart {part : MultipartPartRow} (hv : Filed N age start v)
    (h : Only start (fun _ => False)
      (fun p => (p.uploadGuid, p.partNumber) = (part.uploadGuid, part.partNumber)) path v)
    (hnot : ¬ Claimed start v.record part.storagePath)
    (hstep : Step N age start i v e { v.state with
      db := upsertPart part v.state.db
      calls := v.state.calls + 1 }) :
    Retired start path (v.after i e { v.state with
      db := upsertPart part v.state.db
      calls := v.state.calls + 1 }) where
  claimed := (h.rows hstep.moves.toRows).claimed
  versions r hr hpath := (h.rows hstep.moves.toRows).versions r hr hpath
  parts p hp hpath := by
    rcases (mem_upsertPart hv.partKeys).mp hp with rfl | ⟨hp, hne⟩
    · obtain ⟨createdAt, hupserted⟩ := upsertedPart_eq part v.state.db
      rw [hupserted] at hpath
      obtain rfl : part.storagePath = path := hpath
      exact hnot h.claimed
    · exact hne (h.parts p hp hpath)

end Steps

/-! ## At the beginning -/

/-- The paths there are at the beginning. -/
def pathsAt (w : World) : List Text := namedPaths w.db ++ w.disk.bindings.map (·.1)

/-- **How things are at the beginning**: what the tables name is on disk, under paths of its own,
and no two parts of an upload have one number. -/
structure InPlace (w : World) : Prop where
  onDisk : ∀ path ∈ namedPaths w.db, (w.disk.get path).isSome
  nodup : (namedPaths w.db).Nodup
  partKeys : (w.db.multipartParts.map fun p => (p.uploadGuid, p.partNumber)).Nodup

theorem InPlace.filed {w : World} (h : InPlace w) : Filed N age (pathsAt w) ⟨w, []⟩ where
  onDisk := h.onDisk
  claimed _ hpath := Or.inl (List.mem_append_left _ hpath)
  nodup := h.nodup
  partKeys := h.partKeys
  unique := ⟨List.nodup_nil, nofun⟩
  timely := nofun
  claimant := nofun
  writer := nofun
  written _ _ hblob := Or.inl (List.mem_append_right _
    (List.mem_map.mpr ⟨_, FileTable.mem_of_get hblob, rfl⟩))
  started := nofun
  cutOff := nofun

end Filing
end SimpleStorage
