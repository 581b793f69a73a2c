import SimpleStorage.Objects.Integrity
import SimpleStorage.Objects.TableEffects

/-!
# What versioning keeps

While the versioning of a bucket is `disabled` every version in it is the `null` version of its
key, and dropping a key with all its versions is possible in no other bucket.  A version with
an id of its own is therefore only dropped by a delete that names it.

* `Changes` says what a transaction does to the keys and the versions, and `Retained.changes`
  that what a request has to keep is kept by it.
* `put_retains`, `delete_retains`, `complete_retains` and their companions: every operation makes
  one such change at a time.
-/

namespace SimpleStorage
namespace Retention

open ObjectsService ObjectsTypes Program Statements

variable {N : Node}

/-! ## What a request finds and leaves -/

/-- The guids of versions are unique, and were generated before. -/
structure VersionGuids (w : World) : Prop where
  nodup : (w.db.objectVersions.map (·.guid)).Nodup
  lt : ∀ v ∈ w.db.objectVersions, v.guid < w.calls

theorem VersionGuids.congr {w w' : World} (hw : VersionGuids w)
    (hsub : w'.db.objectVersions.Sublist w.db.objectVersions) (hcalls : w.calls ≤ w'.calls) :
    VersionGuids w' :=
  ⟨hw.nodup.sublist (hsub.map _), fun v hv => (hw.lt v (hsub.subset hv)).trans_le hcalls⟩

/-- Every kind of step keeps the guids of versions unique. -/
theorem VersionGuids.atomic {event : World → Option Event} {effect : World → World}
    (h : Atomic N event effect) {w : World} (hw : VersionGuids w) : VersionGuids (effect w) := by
  cases h with
  | offTables h => exact hw.congr (h.db w ▸ List.Sublist.refl _) (h.calls_le w)
  | requireUpload => exact hw
  | commit bucketGuid key versionId values =>
    have hkept := keptVersions_sublist (commitRow w.calls (bucketGuid, key) w.db).guid versionId
      w.db.objectVersions
    refine ⟨?_, fun v hv => ?_⟩
    · change ((Statements.commitVersion _ _ bucketGuid key versionId values
        w.db).2.objectVersions.map (·.guid)).Nodup
      rw [objectVersions_commitVersion]
      exact nodup_map_append_singleton (hw.nodup.sublist (hkept.map _))
        fun v hv => (hw.lt v (hkept.subset hv)).ne
    · change v ∈ (Statements.commitVersion _ _ bucketGuid key versionId values
        w.db).2.objectVersions at hv
      rw [objectVersions_commitVersion] at hv
      rcases List.mem_append.mp hv with hv | hv
      · exact (hw.lt v (hkept.subset hv)).trans (Nat.lt_succ_self _)
      · rw [List.mem_singleton.mp hv]
        exact Nat.lt_succ_self w.calls
  | removeVersion objectGuid versionGuid =>
    refine hw.congr ?_ le_rfl
    change (Statements.removeVersion objectGuid versionGuid w.db).objectVersions.Sublist _
    rw [removeVersion_objectVersions]
    exact List.filter_sublist
  | purge objectGuid => exact hw.congr List.filter_sublist le_rfl
  | insertUpload => exact hw.congr (List.Sublist.refl _) (Nat.le_succ _)
  | storePart => exact hw.congr (List.Sublist.refl _) (Nat.le_succ _)
  | retire => exact hw.congr (List.Sublist.refl _) le_rfl
  | dropParts => exact hw.congr (List.Sublist.refl _) le_rfl

/-- **What holds between requests**: guids and references are good, and in a bucket whose versioning
is disabled every version is the `null` version of its key. -/
structure Sound (w : World) : Prop extends Integrity w where
  versions : VersionGuids w
  bucket_lt : ∀ b ∈ w.db.buckets, b.guid < w.calls
  object_bucket : ∀ o ∈ w.db.objects, ∃ b ∈ w.db.buckets, b.guid = o.bucketGuid
  unversioned : ∀ b ∈ w.db.buckets, b.versioning = .disabled → ∀ o ∈ w.db.objects,
    o.bucketGuid = b.guid → ∀ v ∈ w.db.objectVersions, v.objectGuid = o.guid →
      v.versionId = nullVersionId

/-- **What has become of a deployment**: the buckets are the same, no key was given to another
object, and of the versions with an id of their own only those are gone that were named. -/
structure Since (named : Guid → Text → Text → Prop) (w w' : World) : Prop where
  calls_le : w.calls ≤ w'.calls
  buckets : w'.db.buckets = w.db.buckets
  objects : ∀ o ∈ w'.db.objects, w.calls ≤ o.guid ∨
    ∃ p ∈ w.db.objects, p.guid = o.guid ∧ p.bucketGuid = o.bucketGuid ∧ p.key = o.key
  kept : ∀ v ∈ w.db.objectVersions, v.versionId ≠ nullVersionId → v ∈ w'.db.objectVersions ∨
    ∃ o ∈ w.db.objects, o.guid = v.objectGuid ∧ named o.bucketGuid o.key v.versionId

/-- A request that began in `w` has kept what it has to keep. -/
structure Retained (named : Guid → Text → Text → Prop) (w w' : World) : Prop where
  began : Sound w
  sound : Sound w'
  since : Since named w w'

theorem Retained.refl (named : Guid → Text → Text → Prop) {w : World} (hw : Sound w) :
    Retained named w w where
  began := hw
  sound := hw
  since := ⟨le_rfl, rfl, fun o ho => Or.inr ⟨o, ho, rfl, rfl, rfl⟩, fun _ hv _ => Or.inl hv⟩

/-- The program keeps what a request that began in `w` has to keep. -/
abbrev Retains (named : Guid → Text → Text → Prop) (w : World) {α : Type} (x : Service α) : Prop :=
  Keeps (Retained named w) x

/-- What an operation is told about its bucket is what the table says. -/
def Listed (w : World) (bucket : BucketContext) : Prop :=
  ∃ b ∈ w.db.buckets, b.guid = bucket.guid ∧ b.versioning = bucket.versioning

/-- **What one transaction does to the keys and the versions.** -/
inductive Changes (N : Node) (named : Guid → Text → Text → Prop) (w : World) (db' : Database) : Prop
  | same (hobjects : db'.objects = w.db.objects) (hversions : db'.objectVersions = w.db.objectVersions)
  | commits {bucket : BucketContext} {key : Text} {path : Option Text} {db₁ : Database}
      (hlisted : Listed w bucket) (h : CommitsVersion (N := N) w bucket key path db₁)
      (hobjects : db'.objects = db₁.objects) (hversions : db'.objectVersions = db₁.objectVersions)
  | removes {o : ObjectRow} {v : ObjectVersionRow} (ho : o ∈ w.db.objects) (hv : v ∈ w.db.objectVersions)
      (hvo : v.objectGuid = o.guid) (hnamed : named o.bucketGuid o.key v.versionId)
      (h : db' = removeVersion o.guid v.guid w.db)
  | purges {o : ObjectRow} {b : BucketRow} (ho : o ∈ w.db.objects) (hb : b ∈ w.db.buckets)
      (hguid : b.guid = o.bucketGuid) (hversioning : b.versioning = .disabled)
      (h : db' = (purgeObject o.guid w.db).2)

/-! ## What follows from a change -/

section Changes

variable {named : Guid → Text → Text → Prop} {w : World} {db' : Database}

/-- A row is one there was, or belongs to a key that is new in a bucket. -/
theorem Changes.objects (h : Changes N named w db') {o : ObjectRow} (ho : o ∈ db'.objects) :
    (∃ p ∈ w.db.objects, p.guid = o.guid ∧ p.bucketGuid = o.bucketGuid ∧ p.key = o.key) ∨
      w.calls ≤ o.guid ∧ ∃ b ∈ w.db.buckets, b.guid = o.bucketGuid := by
  cases h with
  | same hobjects => exact Or.inl ⟨o, hobjects ▸ ho, rfl, rfl, rfl⟩
  | commits hlisted h hobjects =>
    obtain ⟨call, versionId, values, hcall, -, -, rfl⟩ := h
    rw [hobjects] at ho
    refine (row_commitVersion ho).imp_right fun ⟨hguid, hbucket, _⟩ => ⟨hguid ▸ hcall, ?_⟩
    obtain ⟨b, hb, hbguid, -⟩ := hlisted
    exact ⟨b, hb, hbguid.trans hbucket.symm⟩
  | removes _ _ _ _ h => exact Or.inl (row_removeVersion (h ▸ ho))
  | purges _ _ _ _ h =>
    rw [h] at ho
    exact Or.inl ⟨o, (List.mem_filter.mp ho).1, rfl, rfl, rfl⟩

/-- A version with an id of its own stays, or was named. -/
theorem Changes.kept (h : Changes N named w db') (hw : Sound w) {v : ObjectVersionRow}
    (hv : v ∈ w.db.objectVersions) (hid : v.versionId ≠ nullVersionId) : v ∈ db'.objectVersions ∨
      ∃ o ∈ w.db.objects, o.guid = v.objectGuid ∧ named o.bucketGuid o.key v.versionId := by
  cases h with
  | same _ hversions => exact Or.inl (hversions ▸ hv)
  | commits _ h _ hversions =>
    obtain ⟨call, versionId, values, -, -, -, rfl⟩ := h
    rw [hversions, objectVersions_commitVersion]
    refine Or.inl (List.mem_append_left _ ?_)
    rw [keptVersions]
    split_ifs
    · exact List.mem_filter.mpr ⟨hv, by simp [hid]⟩
    · exact hv
  | @removes o v' ho hv' hvo hnamed h =>
    by_cases heq : v = v'
    · subst heq
      exact Or.inr ⟨o, ho, hvo.symm, hnamed⟩
    · rw [h, removeVersion_objectVersions]
      refine Or.inl (List.mem_filter.mpr ⟨hv, ?_⟩)
      rw [Bool.not_eq_true', decide_eq_false_iff_not]
      exact fun hguid => heq (List.inj_on_of_nodup_map hw.versions.nodup hv hv' hguid)
  | @purges o b ho hb hguid hversioning h =>
    rw [h]
    refine Or.inl (List.mem_filter.mpr ⟨hv, ?_⟩)
    rw [Bool.not_eq_true', decide_eq_false_iff_not]
    exact fun hvo => hid (hw.unversioned b hb hversioning o ho hguid.symm v hv hvo)

/-- A version that is new is the `null` version of its key, or in a bucket with versioning on. -/
theorem Changes.versions (h : Changes N named w db') {v : ObjectVersionRow}
    (hv : v ∈ db'.objectVersions) : v ∈ w.db.objectVersions ∨ v.versionId = nullVersionId ∨
      ∃ b ∈ w.db.buckets, b.versioning = .enabled ∧ (v.objectGuid, b.guid) ∈ objectRefs db' := by
  cases h with
  | same _ hversions => exact Or.inl (hversions ▸ hv)
  | @commits bucket key path db₁ hlisted h hobjects hversions =>
    obtain ⟨call, versionId, values, -, hnull, -, rfl⟩ := h
    rw [hversions, objectVersions_commitVersion] at hv
    rcases List.mem_append.mp hv with hv | hv
    · exact Or.inl ((keptVersions_sublist _ _ _).subset hv)
    · rw [List.mem_singleton.mp hv]
      refine Or.inr (hnull.imp_right fun henabled => ?_)
      obtain ⟨b, hb, hguid, hversioning⟩ := hlisted
      refine ⟨b, hb, hversioning.trans henabled, ?_⟩
      rw [objectRefs, hobjects, hguid]
      exact committed_mem_objectRefs
  | removes _ _ _ _ h =>
    rw [h, removeVersion_objectVersions] at hv
    exact Or.inl (List.mem_filter.mp hv).1
  | purges _ _ _ _ h =>
    rw [h] at hv
    exact Or.inl (List.mem_filter.mp hv).1

/-- **A change keeps what has to be kept.** -/
theorem Retained.changes {w₀ w' : World} (hw : Retained named w₀ w) (h : Changes N named w w'.db)
    (hintegrity : Integrity w') (hguids : VersionGuids w') (hcalls : w.calls ≤ w'.calls)
    (hbuckets : w'.db.buckets = w.db.buckets) : Retained named w₀ w' where
  began := hw.began
  sound := by
    refine ⟨hintegrity, hguids, ?_, fun o ho => ?_, fun b hb hdisabled o ho hbucket v hv hvo => ?_⟩
    · rw [hbuckets]
      exact fun b hb => (hw.sound.bucket_lt b hb).trans_le hcalls
    · rw [hbuckets]
      rcases h.objects ho with ⟨p, hp, -, hsame, -⟩ | ⟨-, hlisted⟩
      · rw [← hsame]
        exact hw.sound.object_bucket p hp
      · exact hlisted
    · rw [hbuckets] at hb
      rcases h.versions hv with hold | hnull | ⟨b', hb', henabled, href⟩
      · obtain ⟨p, hp, hpguid⟩ := List.mem_map.mp (hw.sound.version_object v hold)
        rcases h.objects ho with ⟨q, hq, hguid, hsame, -⟩ | ⟨hnew, -⟩
        · exact hw.sound.unversioned b hb hdisabled q hq (hsame.trans hbucket) v hold
            (hvo.trans hguid.symm)
        · -- The object of a version there was is not a new one.
          have hlt := hw.sound.object_lt p hp
          rw [hpguid, hvo] at hlt
          exact absurd hlt (Nat.not_lt.mpr hnew)
      · exact hnull
      · obtain ⟨q, hq, hpair⟩ := List.mem_map.mp href
        obtain ⟨hqguid, hqbucket⟩ := Prod.mk.inj hpair
        have hqo : q = o := List.inj_on_of_nodup_map hintegrity.object_guid hq ho (hqguid.trans hvo)
        have hbb : b' = b := List.inj_on_of_nodup_map hw.sound.bucket_guid hb' hb
          (hqbucket.symm.trans (hqo ▸ hbucket))
        rw [hbb, hdisabled] at henabled
        cases henabled
  since := by
    refine ⟨hw.since.calls_le.trans hcalls, hbuckets.trans hw.since.buckets, fun o ho => ?_,
      fun v hv hid => ?_⟩
    · rcases h.objects ho with ⟨p, hp, hguid, hbucket, hkey⟩ | ⟨hnew, -⟩
      · rw [← hguid, ← hbucket, ← hkey]
        exact hw.since.objects p hp
      · exact Or.inl (hw.since.calls_le.trans hnew)
    · rcases hw.since.kept v hv hid with hstill | hnamed
      · refine (h.kept hw.sound hstill hid).imp_right fun ⟨o, ho, hguid, hnamed⟩ => ?_
        rcases hw.since.objects o ho with hnew | ⟨p, hp, hpguid, hpbucket, hpkey⟩
        · obtain ⟨p, hp, hpguid⟩ := List.mem_map.mp (hw.began.version_object v hv)
          have hlt := hw.began.object_lt p hp
          rw [hpguid, ← hguid] at hlt
          exact absurd hlt (Nat.not_lt.mpr hnew)
        · exact ⟨p, hp, hpguid.trans hguid, by rwa [hpbucket, hpkey]⟩
      · exact Or.inr hnamed

end Changes

/-! ## The operations -/

section Operations

variable {named : Guid → Text → Text → Prop} {w₀ : World}

theorem Retained.listed {w : World} (hw : Retained named w₀ w) {bucket : BucketContext}
    (h : Listed w₀ bucket) : Listed w bucket := by
  rw [Listed, hw.since.buckets]
  exact h

/-- **An operation whose changes are in order keeps what has to be kept**: for the rest it is enough
what steps it is made of. -/
theorem retains_of_changes {α : Type} {x : Service α} (hatomic : x.Every (Atomic N))
    (hchanges : ∀ w, Retained named w₀ w → wp x (fun _ w' => Changes N named w w'.db)
      (fun _ w' => w'.db = w.db) w) : Retains named w₀ x := by
  intro w hw
  have hstep : ∀ event effect, Atomic N event effect → ∀ w',
      (Integrity w' ∧ VersionGuids w' ∧ w.calls ≤ w'.calls ∧ w'.db.buckets = w.db.buckets) →
      Integrity (effect w') ∧ VersionGuids (effect w') ∧ w.calls ≤ (effect w').calls ∧
        (effect w').db.buckets = w.db.buckets :=
    fun event effect h w' ⟨hintegrity, hguids, hcalls, hbuckets⟩ => ⟨h.integrity hintegrity,
      hguids.atomic h, hcalls.trans (h.calls_le w'), (h.buckets w').trans hbuckets⟩
  have hkeeps := hatomic.wp_keeps hstep ⟨hw.sound.toIntegrity, hw.sound.versions, le_rfl, rfl⟩
  refine wp_mono (wp_and hkeeps (hchanges w hw)) ?_ ?_
  · rintro _ w' ⟨⟨hintegrity, hguids, hcalls, hbuckets⟩, hchange⟩
    exact hw.changes hchange hintegrity hguids hcalls hbuckets
  · rintro _ w' ⟨⟨hintegrity, hguids, hcalls, hbuckets⟩, hsame⟩
    exact hw.changes (.same (N := N) (by rw [hsame]) (by rw [hsame])) hintegrity hguids hcalls hbuckets

theorem put_retains {params : PutObjectParams} (h : Listed w₀ params.bucket) :
    Retains named w₀ (put N params) :=
  retains_of_changes (put_atomic params) fun w hw => wp_mono (put_tables params w)
    (fun _ _ hcommits => .commits (hw.listed h) hcommits rfl rfl) fun _ _ hsame => hsame

theorem uploadPart_retains (bucket : BucketContext) (uploadId : Text) (partNumber : ℤ)
    (stream : Readable) (contentMd5 : Option Text) (declaredLength maxBytes : Option ℕ) :
    Retains named w₀
      (uploadPart N bucket uploadId partNumber stream contentMd5 declaredLength maxBytes) := by
  refine retains_of_changes (uploadPart_atomic _ _ _ _ _ _ _) fun w hw =>
    wp_mono (uploadPart_tables bucket uploadId partNumber stream contentMd5 declaredLength maxBytes w)
      ?_ fun _ _ hsame => hsame
  rintro _ w' ⟨u, part, -, -, -, -, hdb⟩
  exact .same (by rw [hdb]; rfl) (by rw [hdb]; rfl)

theorem createMultipartUpload_retains (bucket : BucketContext) (key : Text)
    (accessKeyId : Option Text) (headers : ObjectHeaders) :
    Retains named w₀ (createMultipartUpload N bucket key accessKeyId headers) := by
  refine retains_of_changes (createMultipartUpload_atomic _ _ _ _) fun w hw =>
    wp_mono (createMultipartUpload_tables bucket key accessKeyId headers w) ?_ fun _ _ h => h.elim
  rintro _ w' ⟨u, -, -, -, -, hdb⟩
  exact .same (by rw [hdb]; rfl) (by rw [hdb]; rfl)

theorem abortMultipartUpload_retains (bucketGuid : Guid) (uploadId : Text) :
    Retains named w₀ (abortMultipartUpload bucketGuid uploadId) := by
  refine retains_of_changes (N := Node.counting) (abortMultipartUpload_atomic _ _) fun w hw =>
    wp_mono (abortMultipartUpload_tables bucketGuid uploadId w) ?_ ?_
  · rintro _ w' ⟨u, -, hdb⟩
    exact .same (by rw [hdb]; rfl) (by rw [hdb]; rfl)
  · rintro _ _ rfl
    rfl

theorem complete_retains {bucket : BucketContext} (h : Listed w₀ bucket) (uploadId : Text)
    (parts : List CompletePart) : Retains named w₀ (completeMultipartUpload N bucket uploadId parts) := by
  refine retains_of_changes (completeMultipartUpload_atomic _ _ _) fun w hw =>
    wp_mono (completeMultipartUpload_tables bucket uploadId parts w) ?_ fun _ _ hsame => hsame
  rintro _ w' ⟨u, db₁, -, hcommits, hdb⟩
  exact .commits (hw.listed h) hcommits (by rw [hdb]; rfl) (by rw [hdb]; rfl)

/-- **A delete drops one version, which it names**, or a whole key where there are no versions. -/
theorem delete_retains {bucket : BucketContext} (h : Listed w₀ bucket) (key : Text)
    {versionId : Option Text} (hnamed : ∀ i, Query.present versionId = some i → named bucket.guid key i)
    (accessKeyId : Option Text) : Retains named w₀ (delete N bucket key versionId accessKeyId) := by
  refine retains_of_changes (delete_atomic _ _ _ _) fun w hw =>
    wp_mono (delete_tables bucket key versionId accessKeyId w) ?_ ?_
  · intro _ w' hdeletes
    generalize w'.db = db' at hdeletes ⊢
    have hfound : ∀ {o}, findObject bucket.guid key w.db = some o →
        o ∈ w.db.objects ∧ o.bucketGuid = bucket.guid ∧ o.key = key := fun ho => by
      have hp := List.find?_some ho
      rw [Bool.and_eq_true, decide_eq_true_iff, decide_eq_true_iff] at hp
      exact ⟨List.mem_of_find?_eq_some ho, hp⟩
    cases hdeletes with
    | absent => exact .same rfl rfl
    | @version o v i hid ho hv =>
      obtain ⟨hmem, hbucket, hkey⟩ := hfound ho
      have hp := List.find?_some hv
      rw [Bool.and_eq_true, decide_eq_true_iff, decide_eq_true_iff] at hp
      refine .removes hmem (List.mem_of_find?_eq_some hv) hp.1 ?_ rfl
      rw [hbucket, hkey, hp.2]
      exact hnamed i hid
    | purged hid hversioning ho =>
      obtain ⟨hmem, hbucket, -⟩ := hfound ho
      obtain ⟨b, hb, hguid, hsame⟩ := hw.listed h
      exact .purges hmem hb (hguid.trans hbucket.symm) (hsame.trans hversioning) rfl
    | marked hid hversioning hcommits => exact .commits (hw.listed h) hcommits rfl rfl
  · rintro _ _ rfl
    rfl

/-- Numbers drawn and files written or removed change nothing. -/
theorem Retained.quiet {w w' : World} (hw : Retained named w₀ w) (hdb : w'.db = w.db)
    (hcalls : w.calls ≤ w'.calls) : Retained named w₀ w' :=
  hw.changes (.same (N := Node.counting) (by rw [hdb]) (by rw [hdb]))
    (hw.sound.toIntegrity.congr hdb hcalls)
    (hw.sound.versions.congr (hdb ▸ List.Sublist.refl _) hcalls) hcalls (congrArg Database.buckets hdb)

theorem draw_retained {w : World} (hw : Retained named w₀ w) :
    Retained named w₀ { w with calls := w.calls + 1 } := hw.quiet rfl (Nat.le_succ _)

end Operations

end Retention
end SimpleStorage
