import SimpleStorage.Objects.Integrity
import SimpleStorage.Objects.KeyRules

/-!
# The store over whole runs

Every request keeps the invariant of the store, as long as the random values it draws differ from
those drawn before.  The clients of an operation made of others do not know how many it draws, so
that is asked of the state it ends in: `KeptInv`.  Referential integrity is kept in any case.

* `request_keeps_inv`: every request about the objects of a bucket, with `KeptInv` as what it keeps.
* `runAll_inv`, `runAll_integrity`: the invariant and integrity after a run of requests.
-/

namespace SimpleStorage
namespace ObjectsService

open ObjectsTypes Program Statements StorageService

variable {N : Node}

/-! ## What a request keeps -/

variable (N) in
/-- **The invariant was kept**, if all random values drawn so far differ; and so was integrity. -/
structure KeptInv (w w' : World) : Prop where
  calls_le : w.calls ≤ w'.calls
  integrity : Integrity w → Integrity w'
  inv : N.Distinct (w'.calls + callsPerRequest) → Inv N w → Inv N w'

theorem KeptInv.refl (w : World) : KeptInv N w w := ⟨le_rfl, id, fun _ hw => hw⟩

theorem KeptInv.trans {w w' w'' : World} (h : KeptInv N w w') (h' : KeptInv N w' w'') : KeptInv N w w'' where
  calls_le := h.calls_le.trans h'.calls_le
  integrity := h'.integrity ∘ h.integrity
  inv := fun hdistinct hw => h'.inv hdistinct
    (h.inv (hdistinct.mono (Nat.add_le_add_right h'.calls_le _)) hw)

/-- Drawing a number keeps the invariant. -/
theorem KeptInv.draw {w w' : World} (h : KeptInv N w w') : KeptInv N w { w' with calls := w'.calls + 1 } :=
  h.trans ⟨Nat.le_succ _, fun hw => hw.congr rfl (Nat.le_succ _),
    fun _ hw => (Quiet.of_calls (Nat.le_succ _)).inv hw⟩

/-- An operation keeps the invariant that keeps it wherever the next random values differ. -/
theorem keeps_inv {α : Type} {x : Service α} (hatomic : x.Every (Atomic N))
    (hspec : ∀ w, Inv N w → N.Distinct (w.calls + callsPerRequest) →
      wp x (fun _ w' => Inv N w') (fun _ w' => Inv N w') w) (w₀ : World) : Keeps (KeptInv N w₀) x := by
  intro w h
  have hstep : ∀ event effect, Atomic N event effect → ∀ w' : World,
      (w.calls ≤ w'.calls ∧ (Integrity w → Integrity w')) →
      w.calls ≤ (effect w').calls ∧ (Integrity w → Integrity (effect w')) :=
    fun _ _ hp w' hw' => ⟨hw'.1.trans (hp.calls_le w'), fun hw => hp.integrity (hw'.2 hw)⟩
  have hkept := hatomic.wp_keeps hstep ⟨le_rfl, id⟩
  by_cases hready : Inv N w ∧ N.Distinct (w.calls + callsPerRequest)
  · refine wp_mono (wp_and hkept (hspec w hready.1 hready.2)) ?_ ?_
    · intro _ w' hw'
      exact h.trans ⟨hw'.1.1, hw'.1.2, fun _ _ => hw'.2⟩
    · intro _ w' hw'
      exact h.trans ⟨hw'.1.1, hw'.1.2, fun _ _ => hw'.2⟩
  · have hnot : ∀ w', (w.calls ≤ w'.calls ∧ (Integrity w → Integrity w')) → KeptInv N w₀ w' :=
      fun w' hw' => h.trans ⟨hw'.1, hw'.2, fun hdistinct hw =>
        absurd ⟨hw, hdistinct.mono (Nat.add_le_add_right hw'.1 _)⟩ hready⟩
    exact wp_mono hkept (fun _ w' => hnot w') fun _ w' => hnot w'

/-- **What an operation does each time, it does over and over**: a relation between the states
before and after it, wherever integrity and the invariant hold. -/
theorem keeps_rel (R : World → World → Prop) (htrans : ∀ {w w' w''}, R w w' → R w' w'' → R w w'')
    {α : Type} {x : Service α} (hkept : ∀ w₀, Keeps (KeptInv N w₀) x)
    (hspec : ∀ w, Integrity w → Inv N w → N.Distinct (w.calls + callsPerRequest) →
      wp x (fun _ w' => R w w') (fun _ w' => R w w') w) (w₀ : World) :
    Keeps (fun w' => KeptInv N w₀ w' ∧ (N.Distinct (w'.calls + callsPerRequest) → Integrity w₀ →
      Inv N w₀ → R w₀ w')) x := by
  intro w ⟨hkept₀, hrel₀⟩
  have hkept' := hkept w w (KeptInv.refl w)
  by_cases hready : Integrity w ∧ Inv N w ∧ N.Distinct (w.calls + callsPerRequest)
  · have hstep : ∀ w', KeptInv N w w' → R w w' → KeptInv N w₀ w' ∧
        (N.Distinct (w'.calls + callsPerRequest) → Integrity w₀ → Inv N w₀ → R w₀ w') :=
      fun w' hk hr => ⟨hkept₀.trans hk, fun hdistinct hint hw =>
        htrans (hrel₀ hready.2.2 hint hw) hr⟩
    exact wp_mono (wp_and hkept' (hspec w hready.1 hready.2.1 hready.2.2))
      (fun _ w' h => hstep w' h.1 h.2) fun _ w' h => hstep w' h.1 h.2
  · have hstep : ∀ w', KeptInv N w w' → KeptInv N w₀ w' ∧
        (N.Distinct (w'.calls + callsPerRequest) → Integrity w₀ → Inv N w₀ → R w₀ w') := by
      intro w' hk
      refine ⟨hkept₀.trans hk, fun hdistinct hint hw => absurd ?_ hready⟩
      have hbefore := hdistinct.mono (Nat.add_le_add_right hk.calls_le callsPerRequest)
      exact ⟨hkept₀.integrity hint, hkept₀.inv hbefore hw, hbefore⟩
    exact wp_mono hkept' (fun _ w' h => hstep w' h) fun _ w' h => hstep w' h

/-! ## The operations -/

section Operations

variable (w₀ : World)

theorem put_keeps_inv (params : PutObjectParams) : Keeps (KeptInv N w₀) (put N params) :=
  keeps_inv (put_atomic params) (fun _ hw hdistinct =>
    wp_mono (put_spec params hw (hdistinct.mono (by simp only [callsPerRequest]; omega)))
      (fun _ _ h => h.1.inv) fun _ _ h => h.1.inv) w₀

theorem copy_keeps_inv (source : ObjectVersionDetail) (target : BucketContext) (key : Text)
    (directive : MetadataDirective) (accessKeyId : Option Text) (headers : ObjectHeaders) :
    Keeps (KeptInv N w₀) (copy N source target key directive accessKeyId headers) :=
  copy_keeps (fun _ h => h.draw) source (fun params _ _ => put_keeps_inv w₀ params) directive
    accessKeyId headers

theorem delete_keeps_inv (bucket : BucketContext) (key : Text) (versionId accessKeyId : Option Text) :
    Keeps (KeptInv N w₀) (delete N bucket key versionId accessKeyId) := by
  refine keeps_inv (delete_atomic bucket key versionId accessKeyId) (fun w hw hdistinct => ?_) w₀
  refine wp_mono (delete_spec hw (hdistinct.mono (by simp only [callsPerRequest]; omega)) bucket key
    versionId accessKeyId) ?_ ?_
  · intro _ w' h
    obtain ⟨vs, heffect⟩ := h.effect
    exact heffect.inv
  · intro _ w' h
    exact h.1 ▸ hw

theorem createMultipartUpload_keeps_inv (bucket : BucketContext) (key : Text)
    (accessKeyId : Option Text) (headers : ObjectHeaders) :
    Keeps (KeptInv N w₀) (createMultipartUpload N bucket key accessKeyId headers) :=
  keeps_inv (createMultipartUpload_atomic bucket key accessKeyId headers) (fun _ hw hdistinct =>
    wp_mono (createMultipartUpload_spec hw (hdistinct.mono (by simp only [callsPerRequest]; omega))
      bucket key accessKeyId headers) (fun _ _ h => h.2.inv) fun _ _ h => h.elim) w₀

theorem uploadPart_keeps_inv (bucket : BucketContext) (uploadId : Text) (partNumber : ℤ)
    (stream : Readable) (contentMd5 : Option Text) (declaredLength maxBytes : Option ℕ) :
    Keeps (KeptInv N w₀) (uploadPart N bucket uploadId partNumber stream contentMd5 declaredLength maxBytes) := by
  refine keeps_inv (uploadPart_atomic _ _ _ _ _ _ _) (fun w hw hdistinct => ?_) w₀
  refine wp_mono (uploadPart_spec hw (hdistinct.mono (by simp only [callsPerRequest]; omega)) bucket
    uploadId partNumber stream contentMd5 declaredLength maxBytes) ?_ fun _ _ h => h.1.inv
  intro _ w' h
  obtain ⟨u, -, -, -, -, -, heffect⟩ := h
  exact heffect.inv

theorem completeMultipartUpload_keeps_inv (bucket : BucketContext) (uploadId : Text)
    (parts : List CompletePart) :
    Keeps (KeptInv N w₀) (completeMultipartUpload N bucket uploadId parts) := by
  refine keeps_inv (completeMultipartUpload_atomic bucket uploadId parts) (fun w hw hdistinct => ?_) w₀
  refine wp_mono (completeMultipartUpload_spec hw
    (hdistinct.mono (by simp only [callsPerRequest]; omega)) bucket uploadId parts) ?_
    fun _ _ h => h.1.inv
  intro _ w' h
  obtain ⟨u, contents, -, -, -, -, -, -, -, heffect⟩ := h
  exact heffect.inv

theorem abortMultipartUpload_keeps_inv (bucketGuid : Guid) (uploadId : Text) :
    Keeps (KeptInv N w₀) (abortMultipartUpload bucketGuid uploadId) :=
  keeps_inv (abortMultipartUpload_atomic bucketGuid uploadId) (fun _ hw _ =>
    wp_mono (abortMultipartUpload_spec hw bucketGuid uploadId) (fun _ _ h => h.2.inv)
      fun _ _ h => h.1.inv) w₀

/-- **Every request keeps the invariant.** -/
theorem request_keeps_inv (r : KeyRequest) : Keeps (KeptInv N w₀) (r.program N) := by
  cases r with
  | object r =>
    cases r with
    | put params => exact (put_keeps_inv w₀ params).bind fun _ => .pure ()
    | copy => exact (copy_keeps_inv w₀ _ _ _ _ _ _).bind fun _ => .pure ()
    | delete => exact (delete_keeps_inv w₀ _ _ _ _).bind fun _ => .pure ()
    | create => exact (createMultipartUpload_keeps_inv w₀ _ _ _ _).bind fun _ => .pure ()
    | uploadPart => exact (uploadPart_keeps_inv w₀ _ _ _ _ _ _ _).bind fun _ => .pure ()
    | complete => exact (completeMultipartUpload_keeps_inv w₀ _ _ _).bind fun _ => .pure ()
    | abort => exact abortMultipartUpload_keeps_inv w₀ _ _
  | copyKeys =>
    exact (copyKeys_keeps (fun _ h => h.draw) (fun params _ => put_keeps_inv w₀ params)
      (fun _ => delete_keeps_inv w₀ _ _ _ _) _ _ _).bind fun _ => .pure ()
  | createFolder =>
    exact (createFolder_keeps (fun params _ => put_keeps_inv w₀ params) _ _).bind fun _ => .pure ()
  | deleteMany =>
    exact (deleteMany_keeps fun _ _ => delete_keeps_inv w₀ _ _ _ _).bind fun _ => .pure ()
  | deleteByPrefix =>
    exact (deleteByPrefix_keeps (fun _ => delete_keeps_inv w₀ _ _ _ _) _).bind fun _ => .pure ()
  | uploadPartCopy =>
    exact (uploadPartCopy_keeps (fun _ => uploadPart_keeps_inv w₀ _ _ _ _ _ _ _) _ _).bind
      fun _ => .pure ()

end Operations

/-! ## Runs -/

theorem runAll_kept (requests : List KeyRequest) (w : World) :
    KeptInv N w (runAll (KeyRequest.program N) requests w) :=
  runAll_keeps (KeyRequest.program N) (fun r _ _ h => (request_keeps_inv w r).stateAfter h) (KeptInv.refl w)

/-- **The invariant holds after every run** that began with no keys and no uploads. -/
theorem runAll_inv {w : World} (hempty : Empty w.db) {requests : List KeyRequest}
    (hdistinct : N.Distinct ((runAll (KeyRequest.program N) requests w).calls + callsPerRequest)) :
    Inv N (runAll (KeyRequest.program N) requests w) :=
  (runAll_kept requests w).inv hdistinct (Inv.of_empty hempty)

/-- Without keys and uploads, integrity is that of the buckets. -/
theorem Integrity.of_empty {w : World} (hempty : Empty w.db) (hbuckets : (w.db.buckets.map (·.guid)).Nodup) :
    Integrity w := by
  refine ⟨hbuckets, ?_, ?_, ?_, ?_, ?_, ?_⟩ <;>
    simp [hempty.objects, hempty.versions, hempty.uploads, hempty.parts]

/-- **Integrity holds after every run.** -/
theorem runAll_integrity {w : World} (hempty : Empty w.db) (hbuckets : (w.db.buckets.map (·.guid)).Nodup)
    (requests : List KeyRequest) : Integrity (runAll (KeyRequest.program N) requests w) :=
  (runAll_kept requests w).integrity (Integrity.of_empty hempty hbuckets)

end ObjectsService
end SimpleStorage
