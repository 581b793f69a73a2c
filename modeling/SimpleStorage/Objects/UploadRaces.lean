import SimpleStorage.Library.Interleaving
import SimpleStorage.Objects.AtomicSteps

/-!
# Retiring an upload while others use it

Every call on an upload first reads that the upload is in progress, and writes much later: a
part is stored, or the upload is retired, which is a commit, a status update and the deletion
of the part rows in three steps.

`retired_once` says that an upload is retired once, and leaves no part row behind, on any
schedule on which no write comes after another call began to retire the upload: either that
call had retired the upload before the check, which then fails, or it is in the way.
`retired_twice` is a schedule of two calls that both check first.
-/

namespace SimpleStorage
namespace UploadRaces

open ObjectsService ObjectsTypes Program Statements

/-- Calls on uploads, with the buckets they resolved earlier. -/
inductive UploadCall where
  | uploadPart (bucket : BucketContext) (uploadId : Text) (partNumber : ℤ) (stream : Readable)
      (contentMd5 : Option Text) (declaredLength maxBytes : Option ℕ)
  | complete (bucket : BucketContext) (uploadId : Text) (parts : List CompletePart)
  | abort (bucketGuid : Guid) (uploadId : Text)

variable (N : Node)

def UploadCall.program : UploadCall → Service Unit
  | .uploadPart bucket uploadId partNumber stream contentMd5 declaredLength maxBytes => do
      let _ ← ObjectsService.uploadPart N bucket uploadId partNumber stream contentMd5 declaredLength
        maxBytes
  | .complete bucket uploadId parts => do
      let _ ← completeMultipartUpload N bucket uploadId parts
  | .abort bucketGuid uploadId => abortMultipartUpload bucketGuid uploadId

/-- The call is to retire the upload. -/
def UploadCall.retires : UploadCall → Bool
  | .uploadPart .. => false
  | .complete .. | .abort .. => true

/-! ## What is on record about an upload -/

/-- A version was committed. -/
def commits : Event → Bool
  | .committedVersion .. => true
  | _ => false

/-- A part was stored. -/
def storesPart : Event → Bool
  | .storedPart .. => true
  | _ => false

/-- An entry of a call that retires the upload: it committed a version after it had found the
upload, or it deleted the part rows or updated the status. -/
def Retires (record : List (ℕ × Event)) (uploadGuid : Guid) (e : ℕ × Event) : Prop :=
  e.2 = .droppedParts uploadGuid ∨ e.2 = .retiredUpload uploadGuid ∨
    commits e.2 ∧ (e.1, .requiredUpload uploadGuid) ∈ record

/-- The versions that were created from an upload. -/
def versionsFrom (uploadGuid : Guid) (record : List (ℕ × Event)) : List (ℕ × Event) :=
  record.filter fun e => commits e.2 ∧ (e.1, .requiredUpload uploadGuid) ∈ record

/-- The uploads an event of thread `i` is a write to. -/
def touched (record : List (ℕ × Event)) (i : ℕ) : Event → List Guid
  | .storedPart _ uploadGuid _ _ _ => [uploadGuid]
  | .droppedParts uploadGuid => [uploadGuid]
  | .retiredUpload uploadGuid => [uploadGuid]
  | .committedVersion .. => record.filterMap fun e =>
      match e with
      | (j, .requiredUpload uploadGuid) => if j = i then some uploadGuid else none
      | _ => none
  | _ => []

/-- What another call did that is in the way of a write: a part is not stored after the part rows
were deleted, and an upload is not retired by two. -/
def Hinders (e : Event) (record : List (ℕ × Event)) (uploadGuid : Guid) (other : ℕ × Event) : Prop :=
  if storesPart e then other.2 = .droppedParts uploadGuid else Retires record uploadGuid other

/-- **No write overlaps with another call that retires the upload**: whatever such a call did came
before this call found the upload, and so did its update of the status. -/
def Undisturbed (v : Shared Event World) (i : ℕ) (e : Event) : Prop :=
  ∀ uploadGuid ∈ touched v.record i e, ∀ other ∈ v.record, other.1 ≠ i →
    Hinders e v.record uploadGuid other →
      other ∈ v.record.dropWhile (· ≠ (i, .requiredUpload uploadGuid)) ∧
      (other.1, .retiredUpload uploadGuid) ∈ v.record.dropWhile (· ≠ (i, .requiredUpload uploadGuid))

instance (record : List (ℕ × Event)) (uploadGuid : Guid) (e : ℕ × Event) :
    Decidable (Retires record uploadGuid e) := inferInstanceAs (Decidable (_ ∨ _))

instance (e : Event) (record : List (ℕ × Event)) (uploadGuid : Guid) (other : ℕ × Event) :
    Decidable (Hinders e record uploadGuid other) := inferInstanceAs
    (Decidable (if storesPart e then other.2 = .droppedParts uploadGuid else Retires record uploadGuid other))

instance (v : Shared Event World) (i : ℕ) (e : Event) : Decidable (Undisturbed v i e) :=
  inferInstanceAs (Decidable (∀ uploadGuid ∈ _, ∀ other ∈ _, _))

/-! ## Once -/

/-- The call was to retire its upload, and returned. -/
def Succeeded (p : Pool UploadCall Event Fault World Unit) (i : ℕ) : Bool :=
  match p.threads[i]? with
  | some ⟨call, some (.done ())⟩ => call.retires
  | _ => false

/-- **An upload is retired once**: one call at most succeeds, one version at most is created, and
after a success no row of a part is there. -/
structure RetiredOnce (p : Pool UploadCall Event Fault World Unit) : Prop where
  calls : ∀ uploadGuid i j, Succeeded p i → Succeeded p j →
    (i, .requiredUpload uploadGuid) ∈ p.record → (j, .requiredUpload uploadGuid) ∈ p.record → i = j
  versions : ∀ uploadGuid, (versionsFrom uploadGuid p.record).length ≤ 1
  parts : ∀ uploadGuid i, Succeeded p i → (i, .requiredUpload uploadGuid) ∈ p.record →
    ∀ part ∈ p.state.db.multipartParts, part.uploadGuid ≠ uploadGuid

/-! ## The protocol -/

/-- **What the record and the tables say about uploads.** -/
structure Recorded (v : Shared Event World) : Prop where
  one : ∀ uploadGuid, ∀ e ∈ v.record, ∀ e' ∈ v.record, Retires v.record uploadGuid e →
    Retires v.record uploadGuid e' → e.1 = e'.1
  committed : ∀ i, v.record.countP (fun e => e.1 = i && commits e.2) ≤ 1
  retired : ∀ uploadGuid i, (i, .retiredUpload uploadGuid) ∈ v.record →
    ∀ u ∈ v.state.db.multipartUploads, u.guid = uploadGuid → u.status ≠ .inProgress
  dropped : ∀ uploadGuid i, (i, .droppedParts uploadGuid) ∈ v.record →
    ∀ part ∈ v.state.db.multipartParts, part.uploadGuid ≠ uploadGuid

/-- Threads rely on the record alone. -/
def retiring : Protocol Event World where
  permits := Undisturbed
  inv := Recorded
  rely i v v' := ∃ new, v'.record = new ++ v.record ∧ ∀ e ∈ new, e.1 ≠ i
  guar _ _ _ _ := True
  refl _ v := ⟨[], rfl, nofun⟩
  trans := by
    rintro i v v' v'' ⟨new, hrecord, hother⟩ ⟨new', hrecord', hother'⟩
    exact ⟨new' ++ new, by rw [hrecord', hrecord, List.append_assoc],
      fun e he => (List.mem_append.mp he).elim (hother' e) (hother e)⟩
  rely_of_guar := by
    rintro i j v e s hij - - -
    refine ⟨e.toList.map (j, ·), rfl, fun e' he' => ?_⟩
    obtain ⟨_, -, rfl⟩ := List.mem_map.mp he'
    exact hij.symm

/-! ## What a call knows -/

/-- The call found this upload, and no other, when it was not retired. -/
structure Found (i : ℕ) (uploadGuid : Guid) (v : Shared Event World) : Prop where
  mem : (i, .requiredUpload uploadGuid) ∈ v.record
  only : ∀ guid, (i, .requiredUpload guid) ∈ v.record → guid = uploadGuid
  unretired : ∀ e ∈ v.record.dropWhile (· ≠ (i, .requiredUpload uploadGuid)),
    e.2 ≠ .retiredUpload uploadGuid

/-- The call has written nothing to a table yet. -/
def Unwritten (i : ℕ) (v : Shared Event World) : Prop :=
  ∀ e ∈ v.record, e.1 = i → commits e.2 = false ∧ ∀ uploadGuid, e.2 ≠ .droppedParts uploadGuid

/-- The call found an upload and retired it. -/
def Ended (i : ℕ) (v : Shared Event World) : Prop :=
  ∃ uploadGuid, Found i uploadGuid v ∧ (i, .retiredUpload uploadGuid) ∈ v.record ∧
    (i, .droppedParts uploadGuid) ∈ v.record

/-- More is on record, none of it by thread `i` about the tables. -/
def Goes (i : ℕ) (v v' : Shared Event World) : Prop :=
  ∃ new, v'.record = new ++ v.record ∧ ∀ e ∈ new, e.1 = i → e.2.OffTables

theorem Goes.of_rely {i : ℕ} {v v' : Shared Event World} (h : retiring.rely i v v') : Goes i v v' := by
  obtain ⟨new, hrecord, hother⟩ := h
  exact ⟨new, hrecord, fun e he hi => absurd hi (hother e he)⟩

theorem Goes.of_step {i : ℕ} {v : Shared Event World} {e : Option Event} (he : ∀ x ∈ e, x.OffTables)
    (s : World) : Goes i v (v.after i e s) := by
  refine ⟨e.toList.map (i, ·), rfl, fun x hx _ => ?_⟩
  obtain ⟨y, hy, rfl⟩ := List.mem_map.mp hx
  exact he y (Option.mem_toList.mp hy)

theorem Goes.mem {i : ℕ} {v v' : Shared Event World} (h : Goes i v v') {e : ℕ × Event}
    (he : e ∈ v.record) : e ∈ v'.record := by
  obtain ⟨new, hrecord, -⟩ := h
  rw [hrecord]
  exact List.mem_append_right _ he

theorem not_offTables_requiredUpload (guid : Guid) : ¬ (Event.requiredUpload guid).OffTables := by
  rintro (h | h) <;> exact h

theorem commits_of_offTables {e : Event} (h : e.OffTables) : commits e = false := by
  cases e <;> first | rfl | exact absurd h (by rintro (h | h) <;> exact h)

theorem Found.goes {i : ℕ} {uploadGuid : Guid} {v v' : Shared Event World} (h : Found i uploadGuid v)
    (hgoes : Goes i v v') : Found i uploadGuid v' := by
  obtain ⟨new, hrecord, hnew⟩ := id hgoes
  have hnot : ∀ guid, (i, .requiredUpload guid) ∉ new := fun guid he =>
    not_offTables_requiredUpload guid (hnew _ he rfl)
  refine ⟨hgoes.mem h.mem, fun guid hguid => ?_, ?_⟩
  · rw [hrecord, List.mem_append] at hguid
    exact h.only guid (hguid.resolve_left (hnot guid))
  · rw [hrecord, List.dropWhile_append_of_pos]
    · exact h.unretired
    · intro e he
      rw [decide_eq_true_iff]
      rintro rfl
      exact hnot _ he

theorem Unwritten.goes {i : ℕ} {v v' : Shared Event World} (h : Unwritten i v) (hgoes : Goes i v v') :
    Unwritten i v' := by
  obtain ⟨new, hrecord, hnew⟩ := hgoes
  intro e he hi
  rw [hrecord] at he
  rcases List.mem_append.mp he with he | he
  · refine ⟨commits_of_offTables (hnew e he hi), fun guid hdropped => ?_⟩
    have hoff := hnew e he hi
    rw [hdropped] at hoff
    rcases hoff with hoff | hoff <;> exact hoff
  · exact h e he hi

theorem Ended.goes {i : ℕ} {v v' : Shared Event World} (h : Ended i v) (hgoes : Goes i v v') :
    Ended i v' := by
  obtain ⟨uploadGuid, hfound, hretired, hdropped⟩ := h
  exact ⟨uploadGuid, hfound.goes hgoes, hgoes.mem hretired, hgoes.mem hdropped⟩

/-! ## Steps -/

variable {N : Node} {i : ℕ} {uploadGuid : Guid} {v : Shared Event World}

theorem retires_cons {record : List (ℕ × Event)} {x y : ℕ × Event}
    (hx : ∀ guid, x.2 ≠ .requiredUpload guid) :
    Retires (x :: record) uploadGuid y ↔ Retires record uploadGuid y := by
  have hmem : (y.1, .requiredUpload uploadGuid) ∈ x :: record ↔
      (y.1, .requiredUpload uploadGuid) ∈ record := by
    rw [List.mem_cons]
    exact or_iff_right fun h => hx uploadGuid (congrArg Prod.snd h).symm
  rw [Retires, Retires, hmem]

/-- A step that leaves something on record, by what has to be looked at. -/
theorem Recorded.step {e : Event} {s : World} (hv : Recorded v) (hreq : ∀ guid, e ≠ .requiredUpload guid)
    (hone : ∀ guid, Retires v.record guid (i, e) → ∀ x ∈ v.record, Retires v.record guid x → x.1 = i)
    (hcommit : commits e = true → ∀ x ∈ v.record, x.1 = i → commits x.2 = false)
    (hretired : ∀ guid, (e = .retiredUpload guid ∨ ∃ j, (j, .retiredUpload guid) ∈ v.record) →
      ∀ u ∈ s.db.multipartUploads, u.guid = guid → u.status ≠ .inProgress)
    (hdropped : ∀ guid, (e = .droppedParts guid ∨ ∃ j, (j, .droppedParts guid) ∈ v.record) →
      ∀ part ∈ s.db.multipartParts, part.uploadGuid ≠ guid) : Recorded (v.after i (some e) s) where
  one := fun guid x hx y hy hrx hry => by
    rw [Shared.record_after_some] at hx hy hrx hry
    rw [retires_cons hreq] at hrx hry
    rcases List.mem_cons.mp hx with rfl | hx
    · rcases List.mem_cons.mp hy with rfl | hy
      · rfl
      · exact (hone guid hrx y hy hry).symm
    · rcases List.mem_cons.mp hy with rfl | hy
      · exact hone guid hry x hx hrx
      · exact hv.one guid x hx y hy hrx hry
  committed := fun j => by
    rw [Shared.record_after_some, List.countP_cons]
    have hold := hv.committed j
    split_ifs with h
    · rw [Bool.and_eq_true, decide_eq_true_iff] at h
      obtain ⟨rfl, hcommits⟩ := h
      have hnone : v.record.countP (fun x => x.1 = i && commits x.2) = 0 := by
        rw [List.countP_eq_zero]
        intro x hx
        rw [Bool.and_eq_true, decide_eq_true_iff]
        rintro ⟨hi, hc⟩
        rw [hcommit hcommits x hx hi] at hc
        cases hc
      rw [hnone]
    · exact hold
  retired := fun guid j h => by
    rw [Shared.record_after_some] at h
    refine hretired guid ?_
    rcases List.mem_cons.mp h with h | h
    · exact Or.inl (congrArg Prod.snd h).symm
    · exact Or.inr ⟨j, h⟩
  dropped := fun guid j h => by
    rw [Shared.record_after_some] at h
    refine hdropped guid ?_
    rcases List.mem_cons.mp h with h | h
    · exact Or.inl (congrArg Prod.snd h).symm
    · exact Or.inr ⟨j, h⟩

/-- Nobody else retires the upload when a call writes to it undisturbed. -/
theorem Found.alone {e : Event} (h : Found i uploadGuid v) (hundisturbed : Undisturbed v i e)
    (htouched : uploadGuid ∈ touched v.record i e) :
    ∀ x ∈ v.record, Hinders e v.record uploadGuid x → x.1 = i := by
  intro x hx hhinders
  by_contra hother
  exact h.unretired _ (hundisturbed uploadGuid htouched x hx hother hhinders).2 rfl

theorem Recorded.quiet {e : Option Event} {s : World} (hv : Recorded v) (he : ∀ x ∈ e, x.OffTables)
    (hdb : s.db = v.state.db) : Recorded (v.after i e s) := by
  cases e with
  | none =>
    refine ⟨hv.one, hv.committed, ?_, ?_⟩
    · rw [Shared.state_after, hdb]
      exact hv.retired
    · rw [Shared.state_after, hdb]
      exact hv.dropped
  | some e =>
    have hoff := he e rfl
    have hnot : ∀ {e'}, ¬ e'.OffTables → e ≠ e' := fun h heq => h (heq ▸ hoff)
    have hnotRetired : ∀ guid, ¬ (Event.retiredUpload guid).OffTables := by
      rintro guid (h | h) <;> exact h
    have hnotDropped : ∀ guid, ¬ (Event.droppedParts guid).OffTables := by
      rintro guid (h | h) <;> exact h
    refine hv.step (fun guid => hnot (not_offTables_requiredUpload guid)) (fun guid hretires => ?_)
      (fun hcommits => ?_) (fun guid h => ?_) fun guid h => ?_
    · rcases hretires with h | h | h
      · exact absurd h (hnot (hnotDropped guid))
      · exact absurd h (hnot (hnotRetired guid))
      · rw [commits_of_offTables hoff] at h
        exact absurd h.1 Bool.false_ne_true
    · rw [commits_of_offTables hoff] at hcommits
      cases hcommits
    · obtain ⟨j, hj⟩ := h.resolve_left (hnot (hnotRetired guid))
      rw [hdb]
      exact hv.retired guid j hj
    · obtain ⟨j, hj⟩ := h.resolve_left (hnot (hnotDropped guid))
      rw [hdb]
      exact hv.dropped guid j hj

/-- **Off the tables** a call keeps what it knows. -/
theorem quiet_holds {known : Shared Event World → Prop}
    (hknown : ∀ v v', known v → Goes i v v' → known v') {α : Type} {x : Service α}
    (hx : x.Every (OffTables N)) (hv : known v) :
    retiring.holds i x (fun _ => known) (fun _ => known) v := by
  refine Protocol.holds_of_stable known (fun event effect h v hv v' hrely hinv _ => ?_) hx hv
  have hoff : ∀ e ∈ event v'.state, e.OffTables := fun e he => h.event he
  exact ⟨trivial, hinv.quiet hoff (h.db v'.state),
    hknown _ _ (hknown _ _ hv (.of_rely hrely)) (.of_step hoff _)⟩

/-- A call finds an upload. -/
theorem Recorded.check (hv : Recorded v) (hfresh : Protocol.Fresh i v) (guid : Guid) :
    Recorded (v.after i (some (.requiredUpload guid)) v.state) where
  one := fun guid' x hx y hy hrx hry => by
    rw [Shared.record_after_some] at hx hy hrx hry
    have hretires : ∀ z ∈ (i, Event.requiredUpload guid) :: v.record,
        Retires ((i, .requiredUpload guid) :: v.record) guid' z →
          z ∈ v.record ∧ Retires v.record guid' z := by
      intro z hz hretires
      rcases List.mem_cons.mp hz with rfl | hz
      · rcases hretires with h | h | ⟨h, -⟩ <;> cases h
      · refine ⟨hz, hretires.imp_right fun h => h.imp_right fun h => ⟨h.1, ?_⟩⟩
        exact (List.mem_cons.mp h.2).resolve_left fun heq => hfresh z hz (congrArg Prod.fst heq)
    obtain ⟨hx, hrx⟩ := hretires x hx hrx
    obtain ⟨hy, hry⟩ := hretires y hy hry
    exact hv.one guid' x hx y hy hrx hry
  committed := fun j => by
    rw [Shared.record_after_some, List.countP_cons_of_neg]
    · exact hv.committed j
    · rw [Bool.and_eq_true]
      exact fun h => Bool.false_ne_true h.2
  retired := fun guid' j h => by
    rw [Shared.record_after_some] at h
    exact hv.retired guid' j ((List.mem_cons.mp h).resolve_left fun heq => nomatch congrArg Prod.snd heq)
  dropped := fun guid' j h => by
    rw [Shared.record_after_some] at h
    exact hv.dropped guid' j ((List.mem_cons.mp h).resolve_left fun heq => nomatch congrArg Prod.snd heq)

/-- What it finds is in progress, so nobody has retired it. -/
theorem Found.of_check (hv : Recorded v) (hfresh : Protocol.Fresh i v) {u : MultipartUploadRow}
    (hu : u ∈ v.state.db.multipartUploads) (hstatus : u.status = .inProgress) :
    Found i u.guid (v.after i (some (.requiredUpload u.guid)) v.state) where
  mem := List.mem_cons_self
  only := fun guid h => by
    rw [Shared.record_after_some] at h
    rcases List.mem_cons.mp h with h | h
    · exact Event.requiredUpload.inj (congrArg Prod.snd h)
    · exact absurd rfl (hfresh _ h)
  unretired := fun e he hretired => by
    rw [Shared.record_after_some, List.dropWhile_cons_of_neg (by simp)] at he
    rcases List.mem_cons.mp he with rfl | he
    · cases hretired
    · refine hv.retired u.guid e.1 ?_ u hu rfl hstatus
      rw [← hretired]
      exact he

theorem Unwritten.of_check (hfresh : Protocol.Fresh i v) (guid : Guid) (s : World) :
    Unwritten i (v.after i (some (.requiredUpload guid)) s) := by
  intro e he hi
  rw [Shared.record_after_some] at he
  rcases List.mem_cons.mp he with rfl | he
  · exact ⟨rfl, nofun⟩
  · exact absurd hi (hfresh e he)

/-- **The check** finds an upload nobody has retired. -/
theorem requireUpload_holds (bucketGuid : Guid) (uploadId : Text) (hfresh : Protocol.Fresh i v) :
    retiring.holds i (requireUpload bucketGuid uploadId)
      (fun u v' => Found i u.guid v' ∧ Unwritten i v') (fun _ _ => True) v := by
  rw [requireUpload, Protocol.holds_bind, World.selectFor, Protocol.holds_observe]
  rintro v₁ ⟨new, hrecord, hother⟩ hinv -
  have hfresh₁ : Protocol.Fresh i v₁ := by
    intro e he
    rw [hrecord] at he
    exact (List.mem_append.mp he).elim (hother e) (hfresh e)
  beta_reduce
  rw [Protocol.holds_orThrow]
  cases hfound : findUpload bucketGuid uploadId v₁.state.db with
  | none => exact ⟨trivial, hinv.quiet (by simp) rfl, by simp, fun _ => trivial⟩
  | some u =>
    have hp := List.find?_some hfound
    simp only [Bool.and_eq_true, decide_eq_true_iff] at hp
    refine ⟨trivial, hinv.check hfresh₁ u.guid, ?_, by simp⟩
    rintro _ ⟨⟩
    exact ⟨.of_check hinv hfresh₁ (List.mem_of_find?_eq_some hfound) hp.2, .of_check hfresh₁ _ _⟩

/-! ## Writes -/

/-- A write that retires the upload is the call's own doing, as all before it. -/
theorem Found.hone {e : Event} (h : Found i uploadGuid v) (hundisturbed : Undisturbed v i e)
    (htouched : uploadGuid ∈ touched v.record i e) (hstores : storesPart e = false)
    (honly : ∀ guid, Retires v.record guid (i, e) → guid = uploadGuid) (guid : Guid)
    (hretires : Retires v.record guid (i, e)) : ∀ x ∈ v.record, Retires v.record guid x → x.1 = i := by
  obtain rfl := honly guid hretires
  intro x hx hrx
  refine h.alone hundisturbed htouched x hx ?_
  rw [Hinders, hstores, if_neg Bool.false_ne_true]
  exact hrx

/-- The call's own entries about the tables keep what it found. -/
theorem Found.after {e : Event} (h : Found i uploadGuid v) (hreq : ∀ guid, e ≠ .requiredUpload guid)
    (s : World) : Found i uploadGuid (v.after i (some e) s) where
  mem := List.mem_cons_of_mem _ h.mem
  only := fun guid hguid => by
    rw [Shared.record_after_some] at hguid
    exact h.only guid ((List.mem_cons.mp hguid).resolve_left fun heq =>
      hreq guid (congrArg Prod.snd heq).symm)
  unretired := by
    rw [Shared.record_after_some, List.dropWhile_cons_of_pos]
    · exact h.unretired
    · rw [decide_eq_true_iff]
      exact fun heq => hreq _ (congrArg Prod.snd heq)

theorem commitVersion_holds (bucket : BucketContext) (key versionId : Text) (values : VersionValues)
    (hfound : Found i uploadGuid v) (hunwritten : Unwritten i v) :
    retiring.holds i (ObjectsService.commitVersion N bucket key versionId values)
      (fun _ => Found i uploadGuid) (fun _ _ => True) v := by
  rw [ObjectsService.commitVersion, World.insertFor, Protocol.holds_perform]
  intro v' hrely hinv hundisturbed
  have hfound' := hfound.goes (.of_rely hrely)
  have hunwritten' := hunwritten.goes (.of_rely hrely)
  obtain ⟨objects, objectVersions, hframe⟩ :=
    commitVersion_others v'.state.calls (N.now v'.state.calls) bucket.guid key versionId values v'.state.db
  have htouched : uploadGuid ∈ touched v'.record i
      (.committedVersion bucket.guid key values.storagePath values.size v'.state.calls) :=
    List.mem_filterMap.mpr ⟨_, hfound'.mem, if_pos rfl⟩
  refine ⟨trivial, hinv.step nofun ?_ (fun _ x hx hi => (hunwritten' x hx hi).1) ?_ ?_,
    hfound'.after (e := .committedVersion _ _ _ _ _) nofun _⟩
  · refine hfound'.hone (hundisturbed _ rfl) htouched rfl fun guid hretires => ?_
    rcases hretires with h | h | h
    · cases h
    · cases h
    · exact hfound'.only guid h.2
  · rintro guid (h | ⟨j, hj⟩)
    · cases h
    · change ∀ u ∈ (Statements.commitVersion _ _ _ _ _ _ _).2.multipartUploads, _
      rw [hframe]
      exact hinv.retired guid j hj
  · rintro guid (h | ⟨j, hj⟩)
    · cases h
    · change ∀ part ∈ (Statements.commitVersion _ _ _ _ _ _ _).2.multipartParts, _
      rw [hframe]
      exact hinv.dropped guid j hj

/-- The entry is on record, besides what the call found. -/
def FoundAnd (i : ℕ) (uploadGuid : Guid) (events : List Event) (v : Shared Event World) : Prop :=
  Found i uploadGuid v ∧ ∀ e ∈ events, (i, e) ∈ v.record

theorem FoundAnd.goes {events : List Event} {v' : Shared Event World}
    (h : FoundAnd i uploadGuid events v) (hgoes : Goes i v v') : FoundAnd i uploadGuid events v' :=
  ⟨h.1.goes hgoes, fun e he => hgoes.mem (h.2 e he)⟩

theorem FoundAnd.after {events : List Event} (h : FoundAnd i uploadGuid events v) {e : Event}
    (hreq : ∀ guid, e ≠ .requiredUpload guid) (s : World) :
    FoundAnd i uploadGuid (e :: events) (v.after i (some e) s) := by
  refine ⟨h.1.after hreq s, fun x hx => ?_⟩
  rcases List.mem_cons.mp hx with rfl | hx
  · exact List.mem_cons_self
  · exact List.mem_cons_of_mem _ (h.2 x hx)

theorem retire_holds (status : MultipartUploadStatus) (hstatus : status ≠ .inProgress)
    {events : List Event} (hfound : FoundAnd i uploadGuid events v) :
    retiring.holds i (World.executeFor (.retiredUpload uploadGuid) fun db =>
        ((), setUploadStatus uploadGuid status db))
      (fun _ => FoundAnd i uploadGuid (.retiredUpload uploadGuid :: events)) (fun _ _ => True) v := by
  rw [World.executeFor, Protocol.holds_perform]
  intro v' hrely hinv hundisturbed
  have hfound' := hfound.goes (.of_rely hrely)
  refine ⟨trivial, hinv.step nofun ?_ (fun h => absurd h Bool.false_ne_true) ?_ ?_,
    hfound'.after (e := .retiredUpload uploadGuid) nofun _⟩
  · refine hfound'.1.hone (hundisturbed _ rfl) (List.mem_singleton_self _) rfl fun guid hretires => ?_
    rcases hretires with h | h | h
    · cases h
    · exact (Event.retiredUpload.inj h).symm
    · exact absurd h.1 Bool.false_ne_true
  · intro guid h u hu hguid
    obtain ⟨u', hu', rfl⟩ := List.mem_map.mp hu
    split_ifs at hguid ⊢ with hself
    · exact hstatus
    · rcases h with h | ⟨j, hj⟩
      · exact absurd (hguid.trans (Event.retiredUpload.inj h).symm) hself
      · exact hinv.retired guid j hj u' hu' hguid
  · rintro guid (h | ⟨j, hj⟩)
    · cases h
    · exact hinv.dropped guid j hj

theorem dropParts_holds {events : List Event} (hfound : FoundAnd i uploadGuid events v) :
    retiring.holds i (World.executeFor (.droppedParts uploadGuid) fun db =>
        ((), deleteParts uploadGuid db))
      (fun _ => FoundAnd i uploadGuid (.droppedParts uploadGuid :: events)) (fun _ _ => True) v := by
  rw [World.executeFor, Protocol.holds_perform]
  intro v' hrely hinv hundisturbed
  have hfound' := hfound.goes (.of_rely hrely)
  refine ⟨trivial, hinv.step nofun ?_ (fun h => absurd h Bool.false_ne_true) ?_ ?_,
    hfound'.after (e := .droppedParts uploadGuid) nofun _⟩
  · refine hfound'.1.hone (hundisturbed _ rfl) (List.mem_singleton_self _) rfl fun guid hretires => ?_
    rcases hretires with h | h | h
    · exact (Event.droppedParts.inj h).symm
    · cases h
    · exact absurd h.1 Bool.false_ne_true
  · rintro guid (h | ⟨j, hj⟩)
    · cases h
    · exact hinv.retired guid j hj
  · intro guid h part hpart
    obtain ⟨hpart, hne⟩ := List.mem_filter.mp hpart
    rcases h with h | ⟨j, hj⟩
    · obtain rfl := Event.droppedParts.inj h
      exact of_decide_eq_true hne
    · exact hinv.dropped guid j hj part hpart

/-- The parts after one was stored are parts of before, or of its upload. -/
theorem uploadGuid_of_mem_upsertPart {part p : MultipartPartRow} {db : Database}
    (hp : p ∈ (upsertPart part db).multipartParts) :
    p.uploadGuid = part.uploadGuid ∨ ∃ q ∈ db.multipartParts, q.uploadGuid = p.uploadGuid := by
  rw [upsertPart] at hp
  cases hfound : findPart part.uploadGuid part.partNumber db with
  | none =>
    rw [hfound] at hp
    rcases List.mem_append.mp hp with hp | hp
    · exact Or.inr ⟨p, hp, rfl⟩
    · exact Or.inl (congrArg _ (List.mem_singleton.mp hp))
  | some old =>
    rw [hfound] at hp
    obtain ⟨q, hq, rfl⟩ := List.mem_map.mp hp
    refine Or.inr ⟨q, hq, ?_⟩
    split_ifs <;> rfl

theorem storePart_holds (bucketGuid : Guid) (row : ℕ → MultipartPartRow)
    (hrow : ∀ call, (row call).uploadGuid = uploadGuid) (hfound : Found i uploadGuid v)
    (hunwritten : Unwritten i v) :
    retiring.holds i (World.insertFor (fun call => some (.storedPart bucketGuid (row call).uploadGuid
        (row call).storagePath (row call).size call)) fun call db => ((), upsertPart (row call) db))
      (fun _ _ => True) (fun _ _ => True) v := by
  rw [World.insertFor, Protocol.holds_perform]
  intro v' hrely hinv hundisturbed
  have hfound' := hfound.goes (.of_rely hrely)
  have hunwritten' := hunwritten.goes (.of_rely hrely)
  refine ⟨trivial, hinv.step nofun (fun guid hretires => ?_)
    (fun h => absurd h Bool.false_ne_true) ?_ ?_, trivial⟩
  · rcases hretires with h | h | h
    · cases h
    · cases h
    · exact absurd h.1 Bool.false_ne_true
  · rintro guid (h | ⟨j, hj⟩)
    · cases h
    · exact hinv.retired guid j hj
  · rintro guid (h | ⟨j, hj⟩)
    · cases h
    intro p hp hguid
    rcases uploadGuid_of_mem_upsertPart hp with h | ⟨q, hq, h⟩
    · obtain rfl : uploadGuid = guid := (hrow _).symm.trans (h.symm.trans hguid)
      have htouched : uploadGuid ∈ touched v'.record i (.storedPart bucketGuid
          (row v'.state.calls).uploadGuid (row v'.state.calls).storagePath (row v'.state.calls).size
          v'.state.calls) := by
        rw [hrow]
        exact List.mem_singleton_self _
      obtain rfl : j = i := hfound'.alone (hundisturbed _ rfl) htouched _ hj (by
        rw [Hinders, storesPart, if_pos rfl])
      exact (hunwritten' _ hj rfl).2 uploadGuid rfl
    · exact hinv.dropped guid j hj q hq (h.trans hguid)

/-! ## Calls -/

/-- What a call knows before it writes. -/
def Ready (i : ℕ) (uploadGuid : Guid) (v : Shared Event World) : Prop :=
  Found i uploadGuid v ∧ Unwritten i v

theorem Ready.goes {v' : Shared Event World} (h : Ready i uploadGuid v) (hgoes : Goes i v v') :
    Ready i uploadGuid v' := ⟨h.1.goes hgoes, h.2.goes hgoes⟩

/-- Off the tables a call stays ready. -/
theorem ready_holds {α : Type} {x : Service α} (hx : x.Every (OffTables N)) (hv : Ready i uploadGuid v) :
    retiring.holds i x (fun _ => Ready i uploadGuid) (fun _ _ => True) v :=
  Protocol.holds_mono (quiet_holds (fun _ _ => Ready.goes) hx hv) (fun _ _ h => h) fun _ _ _ => trivial

theorem uploadPart_holds (bucket : BucketContext) (uploadId : Text) (partNumber : ℤ) (stream : Readable)
    (contentMd5 : Option Text) (declaredLength maxBytes : Option ℕ) (hfresh : Protocol.Fresh i v) :
    retiring.holds i (ObjectsService.uploadPart N bucket uploadId partNumber stream contentMd5
      declaredLength maxBytes) (fun _ _ => True) (fun _ _ => True) v := by
  rw [ObjectsService.uploadPart, Protocol.holds_bind]
  refine Protocol.holds_mono (requireUpload_holds _ _ hfresh) ?_ fun _ _ _ => trivial
  intro u v₁ hv₁
  rw [Protocol.holds_bind, Protocol.holds_require]
  refine ⟨fun _ => ?_, fun _ => trivial⟩
  rw [Protocol.holds_bind, assertWithinMaxBytes, Protocol.holds_require]
  refine ⟨fun _ => ?_, fun _ => trivial⟩
  rw [Protocol.holds_bind]
  refine Protocol.holds_mono (ready_holds (assertQuota_offTables (N := N) _ _) hv₁) ?_ fun _ _ _ => trivial
  intro _ v₂ hv₂
  rw [Protocol.holds_bind]
  refine Protocol.holds_mono (ready_holds (write_offTables _ _) hv₂) ?_ fun _ _ _ => trivial
  intro written v₃ hv₃
  rw [Protocol.holds_bind]
  refine Protocol.holds_mono (ready_holds (checkWritten_offTables (N := N) _ _ _) hv₃) ?_
    fun _ _ _ => trivial
  intro _ v₄ hv₄
  rw [Protocol.holds_bind]
  refine Protocol.holds_mono (ready_holds (select_offTables (N := N) _) hv₄) ?_ fun _ _ _ => trivial
  intro previous v₅ hv₅
  rw [Protocol.holds_bind]
  refine Protocol.holds_mono (storePart_holds bucket.guid (fun call => {
    uploadGuid := u.guid
    partNumber
    size := written.size
    etag := written.etag
    storagePath := written.storagePath
    sse := toEncryptionColumns written.encryption
    createdAt := N.now call }) (fun _ => rfl) hv₅.1 hv₅.2) ?_ fun _ _ _ => trivial
  intro _ v₆ _
  exact quiet_holds (N := N) (fun _ _ _ _ => trivial)
    (.bind (deleteBlobs_offTables _) fun _ => .pure _) trivial

/-- The last step of a call that retired its upload. -/
theorem ended_holds {α : Type} {x : Service α} (hx : x.Every (OffTables N)) (hv : Ended i v) :
    retiring.holds i x (fun _ => Ended i) (fun _ _ => True) v :=
  Protocol.holds_mono (quiet_holds (fun _ _ => Ended.goes) hx hv) (fun _ _ h => h) fun _ _ _ => trivial

theorem abortMultipartUpload_holds (bucketGuid : Guid) (uploadId : Text) (hfresh : Protocol.Fresh i v) :
    retiring.holds i (abortMultipartUpload bucketGuid uploadId) (fun _ => Ended i) (fun _ _ => True) v := by
  rw [abortMultipartUpload, Protocol.holds_bind]
  refine Protocol.holds_mono (requireUpload_holds _ _ hfresh) ?_ fun _ _ _ => trivial
  intro u v₁ hv₁
  rw [Protocol.holds_bind]
  refine Protocol.holds_mono (ready_holds (select_offTables (N := Node.counting) _) hv₁) ?_
    fun _ _ _ => trivial
  intro parts v₂ hv₂
  rw [Protocol.holds_bind]
  refine Protocol.holds_mono (dropParts_holds (⟨hv₂.1, nofun⟩ : FoundAnd i u.guid [] v₂)) ?_
    fun _ _ _ => trivial
  intro _ v₃ hv₃
  rw [Protocol.holds_bind]
  refine Protocol.holds_mono (retire_holds .aborted nofun hv₃) ?_ fun _ _ _ => trivial
  intro _ v₄ hv₄
  refine ended_holds (deleteBlobs_offTables (N := Node.counting) _) ⟨u.guid, hv₄.1, hv₄.2 _ ?_, hv₄.2 _ ?_⟩
  · exact List.mem_cons_self
  · exact List.mem_cons_of_mem _ List.mem_cons_self

theorem completeMultipartUpload_holds (bucket : BucketContext) (uploadId : Text) (parts : List CompletePart)
    (hfresh : Protocol.Fresh i v) :
    retiring.holds i (completeMultipartUpload N bucket uploadId parts) (fun _ => Ended i) (fun _ _ => True)
      v := by
  rw [completeMultipartUpload, Protocol.holds_bind]
  refine Protocol.holds_mono (requireUpload_holds _ _ hfresh) ?_ fun _ _ _ => trivial
  intro u v₁ hv₁
  rw [Protocol.holds_bind, Protocol.holds_require]
  refine ⟨fun _ => ?_, fun _ => trivial⟩
  rw [Protocol.holds_bind]
  refine Protocol.holds_mono (ready_holds (select_offTables (N := N) _) hv₁) ?_ fun _ _ _ => trivial
  intro stored v₂ hv₂
  cases matchRequestedParts stored none parts with
  | error e => trivial
  | ok ordered =>
    dsimp only
    rw [Protocol.holds_bind, Protocol.holds_pure, Protocol.holds_bind]
    refine Protocol.holds_mono (ready_holds (concat_offTables _) hv₂) ?_ fun _ _ _ => trivial
    intro written v₃ hv₃
    rw [Protocol.holds_bind]
    refine Protocol.holds_mono (ready_holds (nextVersionId_offTables _) hv₃) ?_ fun _ _ _ => trivial
    intro versionId v₄ hv₄
    rw [Protocol.holds_bind]
    refine Protocol.holds_mono (commitVersion_holds _ _ _ _ hv₄.1 hv₄.2) ?_ fun _ _ _ => trivial
    intro replaced v₅ hv₅
    rw [Protocol.holds_bind]
    refine Protocol.holds_mono (retire_holds .completed nofun
      (⟨hv₅, nofun⟩ : FoundAnd i u.guid [] v₅)) ?_ fun _ _ _ => trivial
    intro _ v₆ hv₆
    rw [Protocol.holds_bind]
    refine Protocol.holds_mono (dropParts_holds hv₆) ?_ fun _ _ _ => trivial
    intro _ v₇ hv₇
    refine ended_holds (N := N) (.bind (deleteBlobs_offTables _) fun _ => .pure _)
      ⟨u.guid, hv₇.1, hv₇.2 _ ?_, hv₇.2 _ ?_⟩
    · exact List.mem_cons_of_mem _ List.mem_cons_self
    · exact List.mem_cons_self

/-- **Every call keeps to the protocol**, and one that retires its upload has done so when it returns. -/
theorem call_holds (call : UploadCall) (hfresh : Protocol.Fresh i v) :
    retiring.holds i (call.program N) (fun _ v' => call.retires = true → Ended i v') (fun _ _ => True)
      v := by
  cases call with
  | uploadPart bucket uploadId partNumber stream contentMd5 declaredLength maxBytes =>
    rw [UploadCall.program, Protocol.holds_bind]
    exact Protocol.holds_mono (uploadPart_holds bucket uploadId partNumber stream contentMd5
      declaredLength maxBytes hfresh) (fun _ _ _ h => absurd h Bool.false_ne_true) fun _ _ _ => trivial
  | complete bucket uploadId parts =>
    rw [UploadCall.program, Protocol.holds_bind]
    exact Protocol.holds_mono (completeMultipartUpload_holds bucket uploadId parts hfresh)
      (fun _ _ h _ => h) fun _ _ _ => trivial
  | abort bucketGuid uploadId =>
    exact Protocol.holds_mono (abortMultipartUpload_holds bucketGuid uploadId hfresh)
      (fun _ _ h _ => h) fun _ _ _ => trivial

/-! ## All calls together -/

theorem versionsFrom_length_le (hv : Recorded v) (uploadGuid : Guid) :
    (versionsFrom uploadGuid v.record).length ≤ 1 := by
  rw [versionsFrom, ← List.countP_eq_length_filter]
  by_cases hsome : ∃ e ∈ v.record, commits e.2 = true ∧ (e.1, .requiredUpload uploadGuid) ∈ v.record
  · obtain ⟨e, he, hcommits, hfound⟩ := hsome
    refine le_trans (List.countP_mono_left fun x hx h => ?_) (hv.committed e.1)
    rw [decide_eq_true_iff] at h
    rw [Bool.and_eq_true, decide_eq_true_iff]
    exact ⟨hv.one uploadGuid x hx e he (Or.inr (Or.inr h)) (Or.inr (Or.inr ⟨hcommits, hfound⟩)), h.1⟩
  · rw [List.countP_eq_zero.mpr]
    · exact Nat.zero_le 1
    · intro x hx h
      exact hsome ⟨x, hx, of_decide_eq_true h⟩

/-- **An upload is retired once** on any schedule on which no write overlaps with another call that
retires the upload. -/
theorem retired_once (w : World) (schedule : List (Move UploadCall))
    (hpermitted : (⟨⟨w, []⟩, []⟩ : Pool _ _ _ _ _).Permitted (UploadCall.program N) Undisturbed schedule) :
    RetiredOnce ((⟨⟨w, []⟩, []⟩ : Pool _ _ _ _ _).run (UploadCall.program N) schedule) := by
  have hidle : Recorded ⟨w, []⟩ := ⟨nofun, fun _ => Nat.zero_le 1, nofun, nofun⟩
  have hsound := Protocol.sound (P := retiring) (fun call i v _ hfresh => call_holds call hfresh)
    (.of_idle (v := ⟨w, []⟩) hidle rfl) hpermitted
  generalize (⟨⟨w, []⟩, []⟩ : Pool _ _ _ _ _).run (UploadCall.program N) schedule = p at hsound ⊢
  have hended : ∀ i guid, Succeeded p i = true → (i, .requiredUpload guid) ∈ p.record →
      (i, .retiredUpload guid) ∈ p.record ∧ (i, .droppedParts guid) ∈ p.record := by
    intro i guid hsucceeded hguid
    unfold Succeeded at hsucceeded
    split at hsucceeded
    case h_2 => cases hsucceeded
    case h_1 call hthread =>
      obtain ⟨v, hrely, hholds⟩ := hsound.threads i call _ hthread
      obtain ⟨uploadGuid, hfound, hretired, hdropped⟩ := (hholds hsucceeded).goes (.of_rely hrely)
      obtain rfl := hfound.only guid hguid
      exact ⟨hretired, hdropped⟩
  refine ⟨fun guid i j hi hj hfi hfj => ?_, versionsFrom_length_le hsound.inv, fun guid i hi hfi => ?_⟩
  · exact hsound.inv.one guid _ (hended i guid hi hfi).1 _ (hended j guid hj hfj).1 (Or.inr (Or.inl rfl))
      (Or.inr (Or.inl rfl))
  · exact hsound.inv.dropped guid i (hended i guid hi hfi).2

/-! ## An upload retired twice -/

/-- One upload in progress, with one part. -/
def partStored : World where
  db := {
    multipartUploads := [
      { guid := 2, uploadId := ['u'], bucketGuid := 1, key := ['a'], createdAt := 0 }]
    multipartParts := [
      { uploadGuid := 2, partNumber := 1, size := 1, etag := ['e'], storagePath := ['p'], createdAt := 0 }] }
  disk := ⟨[(['p'], ⟨[7], 0⟩)]⟩
  encryption := ⟨false, []⟩
  calls := 3

def partStoredPool : Pool UploadCall Event Fault World Unit := ⟨⟨partStored, []⟩, []⟩

def completeAll : UploadCall :=
  .complete ⟨⟨1, "user-1".toList, none⟩, .disabled⟩ ['u'] [⟨1, ['e']⟩]

/-- Both calls find the upload before either retires it. -/
def bothFound : List (Move UploadCall) :=
  [.start completeAll, .start completeAll] ++ List.replicate 6 (.advance 0) ++
    List.replicate 6 (.advance 1) ++ List.replicate 6 (.advance 0) ++ List.replicate 6 (.advance 1)

/-- **An upload is retired twice**: both calls succeed, and each created a version. -/
theorem retired_twice :
    ¬ RetiredOnce (partStoredPool.run (UploadCall.program Node.counting) bothFound) := by
  intro h
  have hcalls := h.calls 2 0 1
  revert hcalls
  decide

/-- One after the other, the second call finds no upload. -/
theorem retired_once_inTurn : RetiredOnce (partStoredPool.run (UploadCall.program Node.counting)
    ([.start completeAll, .start completeAll] ++ List.replicate 12 (.advance 0) ++
      List.replicate 12 (.advance 1))) :=
  retired_once partStored _ (by decide)

end UploadRaces
end SimpleStorage
