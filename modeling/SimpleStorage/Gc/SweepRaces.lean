import SimpleStorage.Gc.GcService
import SimpleStorage.Objects.FilingOperations

/-!
# Sweeps in the middle of requests

A sweep reads what the tables refer to, one table after the other, and then works with what it
has read while requests go on.  What it may miss are the rows that come in later, and what it
goes by for their blobs is the age.

* `surveyed_of_rows`: a path that is named is one of those that were read, or a row was given it
  after the sweep had started.
* `condemned_of_old`: a blob that is old enough to go was condemned by the cut-off of the sweep,
  so by `notMem_of_old` no row names it if payloads are committed in time.
* `collect_holds`: a sweep keeps to the protocol of `Filing`.
* `named_onDisk`: **no row ever points at a missing blob**, on any schedule of requests, sweeps
  and crashes.
-/

namespace SimpleStorage
namespace SweepRaces

open ObjectsService Program Statements StorageService GcService Filing

variable {N : Node} {age : ℕ} {start : List Text} {i : ℕ} {v v' : Shared Event World} {path : Text}

/-! ## What a sweep has not seen -/

/-- The path was free when the sweep started: rows have been given it since, if at all. -/
structure Late (start : List Text) (started : ℕ) (path : Text) (v : Shared Event World) : Prop where
  notMem : path ∉ start
  claims : ∀ e ∈ v.record, ∀ call, claimOf e.2 = some (path, call) → started ≤ call

theorem Late.rows {started : ℕ} (h : Late start started path v) (hcalls : started ≤ v.state.calls)
    (hrows : Rows start v v') : Late start started path v' where
  notMem := h.notMem
  claims e he call hclaim := (hrows.later e he path call hclaim).elim
    (fun he => h.claims e he call hclaim) hcalls.trans

/-- What was not claimed is late from here on. -/
theorem late_of_rows {started : ℕ} (hcalls : started ≤ v.state.calls) (hrows : Rows start v v')
    (h : ¬ Claimed start v.record path) : Late start started path v' where
  notMem hmem := h (Or.inl hmem)
  claims e he call hclaim := (hrows.later e he path call hclaim).elim
    (fun he => absurd (Or.inr ⟨e, he, call, hclaim⟩) h) hcalls.trans

/-- **What a sweep has read of the version table**: a path there is one of these, or late. -/
structure SurveyedVersions (start referenced : List Text) (started : ℕ) (v : Shared Event World) :
    Prop where
  calls : started ≤ v.state.calls
  versions : ∀ r ∈ v.state.db.objectVersions, ∀ path, r.storagePath = some path → path ≠ [] →
    path ∈ referenced ∨ Late start started path v

/-- **And of both tables.** -/
structure Surveyed (start referenced : List Text) (started : ℕ) (v : Shared Event World) : Prop
    extends SurveyedVersions start referenced started v where
  parts : ∀ r ∈ v.state.db.multipartParts, r.storagePath ≠ [] →
    r.storagePath ∈ referenced ∨ Late start started r.storagePath v

section Survey

variable {referenced : List Text} {started : ℕ}

theorem SurveyedVersions.rows (h : SurveyedVersions start referenced started v)
    (hrows : Rows start v v') : SurveyedVersions start referenced started v' where
  calls := h.calls.trans hrows.calls
  versions r hr path hpath hne := by
    rcases hrows.versions r hr with hr | hfree
    · exact (h.versions r hr path hpath hne).imp_right fun hlate => hlate.rows h.calls hrows
    · exact Or.inr (late_of_rows h.calls hrows (hfree path hpath))

/-- What was read stays all there is, but for what is late. -/
theorem surveyed_of_rows (h : Surveyed start referenced started v) (hrows : Rows start v v') :
    Surveyed start referenced started v' where
  toSurveyedVersions := h.toSurveyedVersions.rows hrows
  parts r hr hne := by
    rcases hrows.parts r hr with hr | hfree
    · exact (h.parts r hr hne).imp_right fun hlate => hlate.rows h.calls hrows
    · exact Or.inr (late_of_rows h.calls hrows hfree)

/-- Reading the part table after the version table. -/
theorem SurveyedVersions.readParts (h : SurveyedVersions start referenced started v) :
    Surveyed start (referenced ++ v.state.db.multipartParts.map (·.storagePath)) started v where
  calls := h.calls
  versions r hr path hpath hne :=
    (h.versions r hr path hpath hne).imp_left (List.mem_append_left _)
  parts _ hr _ := Or.inl (List.mem_append_right _ (List.mem_map_of_mem hr))

theorem Surveyed.named (h : Surveyed start referenced started v) (hne : path ≠ [])
    (hmem : path ∈ namedPaths v.state.db) : path ∈ referenced ∨ Late start started path v := by
  rcases mem_namedPaths.mp hmem with ⟨r, hr, hpath⟩ | ⟨r, hr, rfl⟩
  · exact h.versions r hr path hpath hne
  · exact h.parts r hr hne

end Survey

/-- **What a sweep knows on its walk**: what was read, and when it started and set its cut-off. -/
structure Walking (start referenced : List Text) (i started cutOff : ℕ) (v : Shared Event World) : Prop
    extends Surveyed start referenced started v where
  started_mem : (i, .startedSweep started) ∈ v.record
  cutOff_mem : (i, .computedCutOff cutOff) ∈ v.record

section Walk

variable {referenced : List Text} {started cutOff : ℕ}

theorem Walking.rows (h : Walking start referenced i started cutOff v) (hrows : Rows start v v') :
    Walking start referenced i started cutOff v' where
  toSurveyed := surveyed_of_rows h.toSurveyed hrows
  started_mem := hrows.mem h.started_mem
  cutOff_mem := hrows.mem h.cutOff_mem

/-- A blob that is old enough for the sweep is condemned, if it was written meanwhile. -/
theorem condemned_of_old (hv : Filed N age start v) (h : Walking start referenced i started cutOff v)
    {blob : Blob} (hblob : v.state.disk.get path = some blob)
    (hold : (blob.modifiedAt : ℤ) ≤ N.now cutOff - age) :
    path ∈ start ∨ Condemned N age v.record path := by
  refine (hv.written path blob hblob).imp_right fun ⟨j, call, hwrote, hmodified⟩ => ?_
  refine ⟨j, call, i, cutOff, hwrote, h.cutOff_mem, ?_⟩
  have hpassed : (N.now call : ℤ) + age ≤ N.now cutOff := by
    rw [← hmodified]
    omega
  exact_mod_cast hpassed

/-- **No row names a blob that the sweep has not seen named and that is old enough**, if payloads
are committed in time. -/
theorem notMem_of_old (hclock : ∀ s t, s ≤ t → N.now s ≤ N.now t) (hv : Filed N age start v)
    (h : Walking start referenced i started cutOff v) (hne : path ≠ []) (hfree : path ∉ referenced)
    (hold : path ∈ start ∨
      ∃ j call, (j, .wroteBlob path call) ∈ v.record ∧ (N.now call : ℤ) ≤ N.now cutOff - age) :
    path ∉ namedPaths v.state.db := by
  intro hmem
  have hlate := (h.named hne hmem).resolve_left hfree
  obtain ⟨j, written, hwrote, hle⟩ := hold.resolve_left hlate.notMem
  obtain ⟨e, he, committed, hclaim⟩ := (hv.claimed path hmem).resolve_left hlate.notMem
  -- The row came in after the sweep had started, so its payload was not committed in time.
  have hafter : (N.now started : ℤ) ≤ N.now committed := by
    exact_mod_cast hclock started committed (hlate.claims e he committed hclaim)
  have htimely := hv.timely e he path committed hclaim j written hwrote i started cutOff
    h.started_mem h.cutOff_mem
  omega

end Walk

/-! ## The steps of a sweep -/

section Steps

variable {γ : Type} {f : γ → StorageTypes.BlobEntry → Service γ} (known : Shared Event World → Prop)

/-- What is done with a file that is there, whatever is known is kept. -/
theorem visitBlob_holds (hknown : ∀ v v', Goes N age start i v v' → known v → known v')
    (hf : ∀ acc blob v, known v → Filed N age start v → v.state.disk.get path = some blob →
      (filing N age start).holds i (f acc ⟨path, blob.modifiedAt, blob.content.length⟩)
        (fun _ => known) (fun _ _ => True) v) (acc : γ) (hv : known v) :
    (filing N age start).holds i (visitBlob f acc path) (fun _ => known) (fun _ _ => True) v := by
  rw [visitBlob, Protocol.holds_bind]
  refine query_holds fun v₁ hgoes hinv => ?_
  have hv₁ := hknown v v₁ hgoes hv
  cases hget : v₁.state.disk.get path with
  | none => exact hv₁
  | some blob => exact hf acc blob v₁ hv₁ hinv hget

/-- **What is kept with every file is kept by the walk**, while others go on. -/
theorem listBlobs_holds (hknown : ∀ v v', Goes N age start i v v' → known v → known v')
    (hf : ∀ path, path ≠ [] → ∀ acc blob v, known v → Filed N age start v →
      v.state.disk.get path = some blob →
      (filing N age start).holds i (f acc ⟨path, blob.modifiedAt, blob.content.length⟩)
        (fun _ => known) (fun _ _ => True) v) (acc : γ) (hv : known v) :
    (filing N age start).holds i (listBlobs f acc) (fun _ => known) (fun _ _ => True) v := by
  have hread {β : Type} {x : List Text → Service β} {directory : List Text} {v : Shared Event World}
      (hx : ∀ names v, known v → (filing N age start).holds i (x names) (fun _ => known)
        (fun _ _ => True) v) (hv : known v) :
      (filing N age start).holds i (readDirNames directory >>= x) (fun _ => known)
        (fun _ _ => True) v := by
    rw [Protocol.holds_bind]
    exact query_holds fun v₁ hgoes _ => hx _ v₁ (hknown v v₁ hgoes hv)
  refine hread (fun firsts v hv => ?_) hv
  refine Protocol.holds_foldlM known (fun acc first _ v hv => ?_) hv
  refine hread (fun seconds v hv => ?_) hv
  refine Protocol.holds_foldlM known (fun acc second _ v hv => ?_) hv
  refine hread (fun names v hv => ?_) hv
  refine Protocol.holds_foldlM known (fun acc name _ v hv => ?_) hv
  refine visitBlob_holds known hknown (hf _ ?_) acc hv
  rw [List.cons_append, Text.join_cons (by simp)]
  simp

end Steps

section Sweep

variable (hclock : ∀ s t, s ≤ t → N.now s ≤ N.now t) {config : GcTypes.Config}

include hclock in
/-- **A blob goes only if no row names it.** -/
theorem sweepBlob_holds {referenced : List Text} {started cutOff : ℕ} {blob : Blob} (hne : path ≠ [])
    (hv : Walking start referenced i started cutOff v) (hinv : Filed N age start v)
    (hblob : v.state.disk.get path = some blob) (result : GcTypes.Sweep) :
    (filing N age start).holds i
      (sweepBlob referenced (N.now cutOff - age) result ⟨path, blob.modifiedAt, blob.content.length⟩)
      (fun _ => Walking start referenced i started cutOff) (fun _ _ => True) v := by
  rw [sweepBlob]
  by_cases hmem : path ∈ referenced
  · rw [if_pos hmem]
    exact hv
  rw [if_neg hmem]
  by_cases hyoung : (blob.modifiedAt : ℤ) > N.now cutOff - age
  · rw [if_pos hyoung]
    exact hv
  rw [if_neg hyoung, Protocol.holds_bind]
  have hold := not_lt.mp hyoung
  have hfree := condemned_of_old hinv hv hblob hold
  have hwritten : path ∈ start ∨
      ∃ j call, (j, .wroteBlob path call) ∈ v.record ∧ (N.now call : ℤ) ≤ N.now cutOff - age := by
    refine (hinv.written path blob hblob).imp_right fun ⟨j, call, hwrote, hmodified⟩ => ?_
    exact ⟨j, call, hwrote, hmodified ▸ hold⟩
  refine Protocol.holds_mono (frame_holds (Walking start referenced i started cutOff)
    (fun _ _ hrows h => h.rows hrows) (delete_holds fun v' hgoes hinv' => ⟨?_, ?_⟩) hv)
    (fun _ _ h => h.2) fun _ _ _ => trivial
  · refine notMem_of_old hclock hinv' (hv.rows hgoes.toRows) hne hmem (hwritten.imp_right ?_)
    rintro ⟨j, call, hwrote, hle⟩
    exact ⟨j, call, hgoes.mem hwrote, hle⟩
  · exact Or.inr (hfree.imp (fun hstart => Or.inl hstart) hgoes.condemned)

/-- The tables are read one after the other. -/
theorem referencedStoragePaths_holds :
    (filing N age start).holds i referencedStoragePaths
      (fun referenced v' => ∃ started, (i, .startedSweep started) ∈ v'.record ∧
        Surveyed start referenced started v') (fun _ _ => True) v := by
  rw [referencedStoragePaths, Protocol.holds_bind, Protocol.holds_observe]
  intro v₁ hrely hinv hpermits
  have hunnoticed : Unnoticed i v₁ (some (.startedSweep v₁.state.calls)) v₁.state :=
    ⟨rfl, nofun, fun call h => by cases h; exact le_rfl, nofun⟩
  have hstep := hinv.shrink hpermits hunnoticed (.refl _) (.refl _) rfl rfl le_rfl
  refine ⟨hstep.moves, hstep.filed, ?_⟩
  have hversions : SurveyedVersions start (storagePaths v₁.state.db.objectVersions) v₁.state.calls
      (v₁.after i (some (.startedSweep v₁.state.calls)) v₁.state) := by
    refine ⟨le_rfl, fun r hr path hpath hne => Or.inl (List.mem_filterMap.mpr ⟨r, hr, ?_⟩)⟩
    exact Query.present_eq_some_iff.mpr ⟨hpath, hne⟩
  have hstarted : (i, .startedSweep v₁.state.calls) ∈
      (v₁.after i (some (.startedSweep v₁.state.calls)) v₁.state).record := List.mem_cons_self
  show (filing N age start).holds i (World.select _ >>= _) _ _
    (v₁.after i (some (.startedSweep v₁.state.calls)) v₁.state)
  rw [Protocol.holds_bind]
  refine query_holds fun v₃ hgoes _ => ⟨_, hgoes.mem hstarted, ?_⟩
  exact (hversions.rows hgoes.toRows).readParts

include hclock in
/-- The walk, with what was read before it. -/
theorem collectOrphanedBlobs_holds (hage : age = config.blobMinAgeHours * hourMs) :
    (filing N age start).holds i (collectOrphanedBlobs N config) (fun _ _ => True) (fun _ _ => True)
      v := by
  rw [collectOrphanedBlobs, Protocol.holds_bind]
  refine Protocol.holds_mono referencedStoragePaths_holds ?_ fun _ _ _ => trivial
  rintro referenced v₁ ⟨started, hstarted, hsurveyed⟩
  rw [Protocol.holds_bind, World.nextCallFor, Protocol.holds_perform]
  intro v₂ hrely hinv hpermits
  have hrows := hrely.1.toRows
  have hunnoticed : Unnoticed i v₂ (some (.computedCutOff v₂.state.calls))
      { v₂.state with calls := v₂.state.calls + 1 } :=
    ⟨rfl, by simp, by simp, fun call h => by
      cases h
      exact ⟨Nat.le_succ _, started, hrows.mem hstarted⟩⟩
  have hstep := hinv.shrink hpermits hunnoticed (.refl _) (.refl _) rfl rfl (Nat.le_succ _)
  refine ⟨hstep.moves, hstep.filed, ?_⟩
  have hwalking : Walking start referenced i started v₂.state.calls
      (v₂.after i (some (.computedCutOff v₂.state.calls))
        { v₂.state with calls := v₂.state.calls + 1 }) :=
    ⟨surveyed_of_rows (surveyed_of_rows hsurveyed hrows) hstep.moves.toRows,
      List.mem_cons_of_mem _ (hrows.mem hstarted), List.mem_cons_self⟩
  have hcutOff : (N.now v₂.state.calls : ℤ) - config.blobMinAgeHours * hourMs =
      N.now v₂.state.calls - age := by
    rw [hage, Nat.cast_mul]
  beta_reduce
  rw [hcutOff]
  refine Protocol.holds_mono (listBlobs_holds
    (Walking start referenced i started v₂.state.calls) (fun _ _ hgoes h => h.rows hgoes.toRows)
    (fun path hne acc blob v hv hinv hblob => sweepBlob_holds hclock hne hv hinv hblob acc) {} hwalking)
    (fun _ _ _ => trivial) fun _ _ _ => trivial

theorem abortAbandonedUploads_holds :
    (filing N age start).holds i (abortAbandonedUploads N config) (fun _ _ => True) (fun _ _ => True)
      v := by
  rw [abortAbandonedUploads, Protocol.holds_bind]
  refine Protocol.holds_mono (reading_holds nextCall_traceless) ?_ fun _ _ _ => trivial
  intro t v₁ _
  rw [Protocol.holds_bind]
  refine query_holds fun v₂ _ _ => ?_
  refine Protocol.holds_foldlM (fun _ => True) (fun aborted upload _ v _ => ?_) trivial
  rw [Protocol.holds_tryCatch, Protocol.holds_bind]
  exact abortMultipartUpload_holds upload.1 upload.2

include hclock in
/-- **A sweep keeps rows and blobs together.** -/
theorem collect_holds (hage : age = config.blobMinAgeHours * hourMs) :
    (filing N age start).holds i (collect N config) (fun _ _ => True) (fun _ _ => True) v := by
  rw [collect, Protocol.holds_bind]
  refine Protocol.holds_mono (reading_holds nextCall_traceless) ?_ fun _ _ _ => trivial
  intro startedAt v₁ _
  rw [Protocol.holds_bind]
  refine Protocol.holds_mono abortAbandonedUploads_holds ?_ fun _ _ _ => trivial
  intro abortedUploads v₂ _
  rw [Protocol.holds_bind]
  refine Protocol.holds_mono (collectOrphanedBlobs_holds hclock hage) ?_ fun _ _ _ => trivial
  intro blobs v₃ _
  exact reading_holds (.bind nextCall_traceless fun _ => .pure _)

end Sweep

/-! ## All together -/

/-- What is going on: requests about objects, and sweeps. -/
inductive StoreRequest where
  | objects (request : ObjectRequest)
  | collect
  deriving DecidableEq

def StoreRequest.program (N : Node) (config : GcTypes.Config) : StoreRequest → Service Unit
  | .objects request => request.program N
  | .collect => do let _ ← GcService.collect N config

theorem storeRequest_holds (hclock : ∀ s t, s ≤ t → N.now s ≤ N.now t) (config : GcTypes.Config)
    (request : StoreRequest) :
    (filing N (config.blobMinAgeHours * hourMs) start).holds i (request.program N config)
      (fun _ _ => True) (fun _ _ => True) v := by
  cases request with
  | objects request => exact request_holds request
  | collect =>
    rw [StoreRequest.program, Protocol.holds_bind]
    exact collect_holds hclock rfl

/-- **A path that a row is given in time is not condemned**: the cut-off of a sweep has not passed its
blob. -/
theorem not_condemned (hclock : ∀ s t, s ≤ t → N.now s ≤ N.now t) (hv : Filed N age start v) {e : Event}
    (htimely : Timely N age ((i, e) :: v.record)) (hclaim : claimOf e = some (path, v.state.calls)) :
    ¬ Condemned N age v.record path := by
  rintro ⟨j, written, k, cutOff, hwritten, hcutOff, hle⟩
  obtain ⟨-, started, hstarted⟩ := hv.cutOff k cutOff hcutOff
  have hbefore := htimely (i, e) List.mem_cons_self path _ hclaim j written
    (List.mem_cons_of_mem _ hwritten) k started cutOff (List.mem_cons_of_mem _ hstarted)
    (List.mem_cons_of_mem _ hcutOff)
  have hnow : (N.now started : ℤ) ≤ N.now v.state.calls := by
    exact_mod_cast hclock started v.state.calls (hv.started k started hstarted)
  have hpassed : (N.now written : ℤ) + age ≤ N.now cutOff := by exact_mod_cast hle
  omega

/-- **No row ever points at a missing blob.**  Whatever requests and sweeps do at the same time, and
wherever they crash, what the tables name is on disk, if no path is generated twice and payloads
are committed in time. -/
theorem named_onDisk (config : GcTypes.Config) (hclock : ∀ s t, s ≤ t → N.now s ≤ N.now t) {w₀ : World}
    (h₀ : InPlace w₀) (schedule : List (Move StoreRequest))
    (hunique : UniquePaths (pathsAt w₀)
      ((⟨⟨w₀, []⟩, []⟩ : Pool _ _ _ _ _).run (StoreRequest.program N config) schedule).record)
    (htimely : Timely N (config.blobMinAgeHours * hourMs)
      ((⟨⟨w₀, []⟩, []⟩ : Pool _ _ _ _ _).run (StoreRequest.program N config) schedule).record) :
    let p := (⟨⟨w₀, []⟩, []⟩ : Pool _ _ _ _ _).run (StoreRequest.program N config) schedule
    (∀ r ∈ p.state.db.objectVersions, ∀ path, r.storagePath = some path →
      (p.state.disk.get path).isSome) ∧
    ∀ r ∈ p.state.db.multipartParts, (p.state.disk.get r.storagePath).isSome := by
  intro p
  -- The record at the end is what is assumed of, and every older part of it is like it.
  have hpermitted := Pool.permitted_of_record (StoreRequest.program N config)
    (fun new record (h : UniquePaths (pathsAt w₀) (new ++ record) ∧
      Timely N (config.blobMinAgeHours * hourMs) (new ++ record)) =>
        (⟨h.1.of_append, h.2.of_append⟩ : _ ∧ _)) ⟨hunique, htimely⟩
  have hfiled : Filed N (config.blobMinAgeHours * hourMs) (pathsAt w₀) p.toShared :=
    (Protocol.sound_of (P := filing N (config.blobMinAgeHours * hourMs) (pathsAt w₀))
      (fun r i v _ _ _ => storeRequest_holds hclock config r)
      (fun v i e hv h => ⟨h.1, h.2, fun path hclaim => not_condemned hclock hv h.2 hclaim⟩)
      (.of_idle (v := ⟨w₀, []⟩) h₀.filed rfl) (Pool.startsWhen_true _ _ _) hpermitted).inv
  exact ⟨fun r hr path hpath => hfiled.onDisk path (mem_namedPaths.mpr (.inl ⟨r, hr, hpath⟩)),
    fun r hr => hfiled.onDisk _ (mem_namedPaths.mpr (.inr ⟨r, hr, rfl⟩))⟩

/-! ## A commit behind the back of a sweep -/

/-- When a blob was written under the path. -/
def writtenAs (path : Text) : Event → Option ℕ
  | .wroteBlob path' call => if path' = path then some call else none
  | _ => none

def sweepStarted : Event → Option ℕ
  | .startedSweep call => some call
  | _ => none

def cutOffComputed : Event → Option ℕ
  | .computedCutOff call => some call
  | _ => none

/-- Checked event by event. -/
theorem timely_of_events {record : List (ℕ × Event)} (h : ∀ e ∈ record, ∀ c ∈ claimOf e.2,
      ∀ e₁ ∈ record, ∀ written ∈ writtenAs c.1 e₁.2, ∀ e₂ ∈ record, ∀ started ∈ sweepStarted e₂.2,
      ∀ e₃ ∈ record, ∀ cutOff ∈ cutOffComputed e₃.2, e₂.1 = e₃.1 →
        ((N.now c.2 : ℤ) - N.now written) + (N.now cutOff - N.now started) < age) :
    Timely N age record := by
  intro e he path committed hclaim j written hwrote k started cutOff hstarted hcutOff
  exact h e he (path, committed) hclaim (j, .wroteBlob path written) hwrote written (if_pos rfl)
    (k, .startedSweep started) hstarted started rfl (k, .computedCutOff cutOff) hcutOff cutOff rfl rfl

/-- An hour goes by with every call. -/
def hourly : Node := { Node.counting with now := fun call => call * hourMs }

/-- A blob no row names, from long ago. -/
def oneOrphan : World where
  db := {}
  disk := ⟨[("p/q/r".toList, ⟨[7], 0⟩)]⟩
  encryption := ⟨false, []⟩
  calls := 100

/-- A sweep computes its cut-off when a payload is on disk that is not committed yet. -/
def overtakenSweep : List (Move StoreRequest) :=
  [.start (.objects (.put {
      bucket := ⟨⟨1, "user-1".toList, none⟩, .disabled⟩
      key := ['a']
      stream := ⟨[[1]], false⟩ })),
    .start .collect] ++
  List.replicate 5 (.advance 0) ++ List.replicate 6 (.advance 1) ++
  List.replicate 10 (.advance 0) ++ List.replicate 30 (.advance 1)

/-- The sweep takes the orphan and leaves the payload. -/
theorem named_onDisk_overtaken :
    let p := (⟨⟨oneOrphan, []⟩, []⟩ : Pool _ _ _ _ _).run
      (StoreRequest.program hourly ⟨7 * 24, 24⟩) overtakenSweep
    p.state.db.objectVersions.length = 1 ∧ p.state.disk.get "p/q/r".toList = none ∧
    (∀ r ∈ p.state.db.objectVersions, ∀ path, r.storagePath = some path →
      (p.state.disk.get path).isSome) ∧
    ∀ r ∈ p.state.db.multipartParts, (p.state.disk.get r.storagePath).isSome := by
  have h₀ : InPlace oneOrphan := ⟨by decide, by decide, by decide⟩
  refine ⟨by decide +kernel, by decide +kernel, ?_⟩
  exact named_onDisk ⟨7 * 24, 24⟩ (fun s t h => Nat.mul_le_mul_right _ h) h₀ overtakenSweep
    ⟨by decide +kernel, by decide +kernel⟩ (timely_of_events (by decide +kernel))

end SweepRaces
end SimpleStorage
