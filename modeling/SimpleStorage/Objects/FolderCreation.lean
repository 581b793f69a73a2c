import SimpleStorage.Objects.CopyKeys
import SimpleStorage.Objects.StoreRuns

/-!
# Creating folders

A folder is there for a reader if its marker key has a newest version that is no delete marker;
`createFolder` asks whether the key has a row.  A key that was deleted in a versioned bucket keeps its
row, and with it its name is taken.

* `createFolder_spec`: what becomes of a folder that is created.
* `createFolder_agrees_iff`: after any run of requests about keys, a folder is refused as existing if
  and only if it does, unless its key is hidden by a delete marker, or is a bare `/`.
-/

namespace SimpleStorage
namespace ObjectsService

open ObjectsTypes Program Statements StorageService

variable {N : Node}

/-! ## What a reader finds -/

/-- What an unqualified read finds. -/
def newest (w : World) (k : BucketKey) : Option ObjectVersionDetail :=
  (outcome (getVersion k.1 k.2 none) w).toOption

/-- An unqualified read finds a version that is no delete marker. -/
def Live (w : World) (k : BucketKey) : Prop := ∃ detail ∈ newest w k, detail.isDeleteMarker = false

/-- An unqualified read finds a delete marker. -/
def Hidden (w : World) (k : BucketKey) : Prop := ∃ detail ∈ newest w k, detail.isDeleteMarker = true

instance (w : World) (k : BucketKey) : Decidable (Live w k) :=
  inferInstanceAs (Decidable (∃ detail ∈ newest w k, _))

instance (w : World) (k : BucketKey) : Decidable (Hidden w k) :=
  inferInstanceAs (Decidable (∃ detail ∈ newest w k, _))

/-- What is found shows the newest version of the key. -/
theorem newest_spec {w : World} (hw : Inv N w) (k : BucketKey) :
    match (versions N w k).head? with
    | some s => ∃ detail, newest w k = some detail ∧ Shows N w k.2 s detail
    | none => newest w k = none := by
  have hget := getVersion_spec hw k.1 k.2 none
  rw [show Query.present (none : Option Text) = none from rfl, VersionedMap.lookup] at hget
  unfold newest outcome
  cases hs : (versions N w k).head? with
  | none =>
    rw [hs] at hget
    rw [hget]
    rfl
  | some s =>
    rw [hs] at hget
    obtain ⟨detail, hrun, hshows⟩ := hget
    exact ⟨detail, by rw [hrun]; rfl, hshows⟩

/-- A key that is found is live or hidden, and not both. -/
theorem live_iff_not_hidden {w : World} (hw : Inv N w) {k : BucketKey} (hk : versions N w k ≠ []) :
    Live w k ↔ ¬ Hidden w k := by
  have hnewest := newest_spec hw k
  obtain ⟨s, rest, hvs⟩ := List.exists_cons_of_ne_nil hk
  rw [hvs, List.head?_cons] at hnewest
  obtain ⟨detail, hdetail, -⟩ := hnewest
  simp [Live, Hidden, hdetail]

/-- A key without versions is neither. -/
theorem newest_eq_none {w : World} (hw : Inv N w) {k : BucketKey} (hk : versions N w k = []) :
    newest w k = none := by
  have hnewest := newest_spec hw k
  rwa [hk] at hnewest

theorem not_live_of_nil {w : World} (hw : Inv N w) {k : BucketKey} (hk : versions N w k = []) :
    ¬ Live w k := by
  simp [Live, newest_eq_none hw hk]

theorem not_hidden_of_nil {w : World} (hw : Inv N w) {k : BucketKey} (hk : versions N w k = []) :
    ¬ Hidden w k := by
  simp [Hidden, newest_eq_none hw hk]

/-- A key has a row as long as it has versions. -/
theorem findObject_eq_none_iff {w : World} (hw : Inv N w) {k : BucketKey} :
    findObject k.1 k.2 w.db = none ↔ versions N w k = [] := by
  rw [versions_eq_nil]
  constructor
  · intro hnone
    exact history_of_none (by rw [objectGuid, hnone, Option.map_none])
  · intro hnil
    by_contra hsome
    obtain ⟨o, ho⟩ := Option.ne_none_iff_exists'.mp hsome
    exact history_ne_nil hw ho hnil

/-- What breaks the key rules has no versions. -/
theorem versions_eq_nil_of_invalid {w : World} (hw : Inv N w) (hkeys : KeysValid w.db) {k : BucketKey}
    (hk : ¬ ValidKey k.2) : versions N w k = [] := by
  refine (findObject_eq_none_iff hw).mp ?_
  by_contra hsome
  obtain ⟨o, ho⟩ := Option.ne_none_iff_exists'.mp hsome
  have hkey := ((findObject_eq_some hw.tables.object_key).mp ho).2.2
  exact hk (hkey ▸ hkeys o (List.mem_of_find?_eq_some ho))

/-! ## What becomes of a folder -/

/-- The marker key of a folder. -/
def folderKeyOf (key : Text) : Text := if folderSuffix <:+ key then key else key ++ folderSuffix

/-- A name a folder can have: its marker key obeys the rules for keys, and is not a bare `/`. -/
structure NamesFolder (key : Text) : Prop where
  valid : ValidKey (folderKeyOf key)
  ne_suffix : folderKeyOf key ≠ folderSuffix

/-- **A folder is created where its key has no row**, with an empty marker. -/
theorem createFolder_spec {w : World} (hw : Inv N w) (hdistinct : N.Distinct (w.calls + 7))
    (bucket : BucketContext) (key : Text) (accessKeyId : Option Text) :
    wp (createFolder N bucket key accessKeyId)
      (fun r w' => NamesFolder key ∧ versions N w (bucket.guid, folderKeyOf key) = [] ∧
        Effect N w w' (VersionedMap.write (·.versionId) (bucket.versioning ≠ .enabled)
          (bucket.guid, folderKeyOf key) ⟨r.1.versionId, r.1.etag,
            toVersionColumns { contentType := some folderContentType }, some []⟩ (versions N w))
          (pending N w))
      (fun e _ => e = .invalidKey ∧ ¬ NamesFolder key ∨
        e = .objectAlreadyExists ∧ NamesFolder key ∧ versions N w (bucket.guid, folderKeyOf key) ≠ [] ∨
        e ∈ putFaults ∧ NamesFolder key ∧ versions N w (bucket.guid, folderKeyOf key) = []) w := by
  change wp (assertValidKey (folderKeyOf key) >>= _) _ _ w
  rw [wp_bind, assertValidKey, wp_require]
  refine ⟨fun hvalid => ?_, fun hinvalid => Or.inl ⟨rfl, fun h => hinvalid h.valid⟩⟩
  rw [wp_bind, wp_require]
  refine ⟨fun hne => ?_, fun hsuffix => Or.inl ⟨rfl, fun h => hsuffix h.ne_suffix⟩⟩
  have hname : NamesFolder key := ⟨hvalid, hne⟩
  rw [wp_bind, World.select, wp_query, wp_bind, wp_require]
  refine ⟨fun hnone => ?_, fun hsome => Or.inr (Or.inl ⟨rfl, hname, fun hnil => hsome ?_⟩)⟩
  · have hnil := (findObject_eq_none_iff (k := (bucket.guid, folderKeyOf key)) hw).mp hnone
    rw [wp_bind]
    refine wp_mono (put_spec _ hw hdistinct) ?_ fun e _ h => Or.inr (Or.inr ⟨h.2, hname, hnil⟩)
    intro r w' h
    exact ⟨hname, hnil, h.1⟩
  · exact (findObject_eq_none_iff (k := (bucket.guid, folderKeyOf key)) hw).mpr hnil

/-! ## Agreement with reads -/

variable (N) in
/-- **Creating the folder agrees with what a reader finds.** -/
structure AgreesWithReads (w : World) (bucket : BucketContext) (key : Text) (accessKeyId : Option Text) :
    Prop where
  /-- The folder is refused as existing exactly if it does. -/
  refused_iff : outcome (createFolder N bucket key accessKeyId) w = .error .objectAlreadyExists ↔
    Live w (bucket.guid, folderKeyOf key)
  /-- If it is created it is there, and empty. -/
  created : ∀ result w', createFolder N bucket key accessKeyId w = .ok result w' →
    ∃ detail ∈ newest w' (bucket.guid, folderKeyOf key), detail.isDeleteMarker = false ∧ detail.size = 0
  /-- Nothing becomes of any other key. -/
  others : ∀ result w', createFolder N bucket key accessKeyId w = .ok result w' →
    ∀ k, k ≠ (bucket.guid, folderKeyOf key) → versions N w' k = versions N w k

/-- No delete marker hides the key; and no bare `/` is stored that a folder could be named. -/
def Unobstructed (w : World) (bucketGuid : Guid) (key : Text) : Prop :=
  if folderKeyOf key = folderSuffix then ¬ Live w (bucketGuid, folderKeyOf key)
  else ¬ Hidden w (bucketGuid, folderKeyOf key)

instance (w : World) (bucketGuid : Guid) (key : Text) : Decidable (Unobstructed w bucketGuid key) :=
  inferInstanceAs (Decidable (ite _ _ _))

/-- A folder that is created is there and empty, and nothing becomes of other keys. -/
theorem createFolder_created {w w' : World} (hw : Inv N w) (hdistinct : N.Distinct (w.calls + 7))
    {bucket : BucketContext} {key : Text} {accessKeyId : Option Text} {result : PutObjectResult × Text}
    (hrun : createFolder N bucket key accessKeyId w = .ok result w') :
    (∃ detail ∈ newest w' (bucket.guid, folderKeyOf key),
        detail.isDeleteMarker = false ∧ detail.size = 0) ∧
      ∀ k, k ≠ (bucket.guid, folderKeyOf key) → versions N w' k = versions N w k := by
  obtain ⟨-, -, heffect⟩ := wp_of_ok hrun (createFolder_spec hw hdistinct bucket key accessKeyId)
  constructor
  · have hnewest := newest_spec heffect.inv (bucket.guid, folderKeyOf key)
    rw [heffect.versions, VersionedMap.write, Function.update_self, List.head?_cons] at hnewest
    obtain ⟨detail, hdetail, hshows⟩ := hnewest
    exact ⟨detail, hdetail, hshows.isDeleteMarker, hshows.size⟩
  · intro k hk
    rw [heffect.versions, VersionedMap.write_of_ne hk]

/-- A folder is refused as existing if its key has versions. -/
theorem refused_iff_versions {w : World} (hw : Inv N w) (hdistinct : N.Distinct (w.calls + 7))
    (bucket : BucketContext) (key : Text) (accessKeyId : Option Text) :
    outcome (createFolder N bucket key accessKeyId) w = .error .objectAlreadyExists ↔
      NamesFolder key ∧ versions N w (bucket.guid, folderKeyOf key) ≠ [] := by
  rcases outcome_of_wp (createFolder_spec hw hdistinct bucket key accessKeyId) with
    ⟨r, hrun, -, hnil, -⟩ | ⟨e, hrun, ⟨rfl, hname⟩ | ⟨rfl, hrefused⟩ | ⟨he, -, hnil⟩⟩
  · rw [hrun]
    exact iff_of_false nofun fun h => h.2 hnil
  · rw [hrun]
    exact iff_of_false nofun fun h => hname h.1
  · rw [hrun]
    exact iff_of_true rfl hrefused
  · rw [hrun]
    refine iff_of_false (fun h => ?_) fun h => h.2 hnil
    rw [Except.error.inj h] at he
    exact absurd he (by decide)

/-- **When creating a folder agrees with reads**, in any state whose keys obey the rules. -/
theorem agreesWithReads_iff {w : World} (hw : Inv N w) (hkeys : KeysValid w.db)
    (hdistinct : N.Distinct (w.calls + 7)) (bucket : BucketContext) (key : Text)
    (accessKeyId : Option Text) :
    AgreesWithReads N w bucket key accessKeyId ↔ Unobstructed w bucket.guid key := by
  have hagrees : AgreesWithReads N w bucket key accessKeyId ↔
      ((NamesFolder key ∧ versions N w (bucket.guid, folderKeyOf key) ≠ []) ↔
        Live w (bucket.guid, folderKeyOf key)) := by
    rw [← refused_iff_versions hw hdistinct bucket key accessKeyId]
    exact ⟨fun h => h.refused_iff, fun h => ⟨h,
      fun _ _ hrun => (createFolder_created hw hdistinct hrun).1,
      fun _ _ hrun => (createFolder_created hw hdistinct hrun).2⟩⟩
  rw [hagrees, Unobstructed]
  by_cases hnil : versions N w (bucket.guid, folderKeyOf key) = []
  · have hlive := not_live_of_nil hw hnil
    have hhidden := not_hidden_of_nil hw hnil
    simp [hnil, hlive, hhidden]
  · have hvalid : ValidKey (folderKeyOf key) := by
      by_contra hinvalid
      exact hnil (versions_eq_nil_of_invalid hw hkeys hinvalid)
    by_cases hsuffix : folderKeyOf key = folderSuffix
    · have hname : ¬ NamesFolder key := fun h => h.ne_suffix hsuffix
      rw [if_pos hsuffix]
      simp only [hname, false_and, false_iff]
    · rw [if_neg hsuffix, ← live_iff_not_hidden hw hnil]
      simp only [NamesFolder.mk hvalid hsuffix, hnil, ne_eq, not_false_eq_true, and_self, true_iff]

/-! ## After any run -/

/-- The requests that write, delete and copy keys, and create folders. -/
def KeyRequest.OnKeys : KeyRequest → Prop
  | .object (.put _) | .object (.delete ..) | .deleteByPrefix .. | .copyKeys .. | .createFolder .. => True
  | _ => False

/-- They store no keys but valid ones. -/
theorem keysValid_of_onKeys {w : World} (hkeys : KeysValid w.db) {requests : List KeyRequest}
    (honly : ∀ r ∈ requests, r.OnKeys) : KeysValid (runAll (KeyRequest.program N) requests w).db := by
  have hstep : ∀ r ∈ requests, ∀ w : World, KeysValid w.db →
      KeysValid (stateAfter (r.program N) w).db := by
    intro r hr w hw
    refine request_keepsKeys hw ?_
    have hr := honly r hr
    unfold KeyRequest.OnKeys at hr
    split at hr
    · trivial
    · trivial
    · trivial
    · trivial
    · trivial
    · exact hr.elim
  exact runAll_keeps (KeyRequest.program N) hstep hkeys

/-- **When creating a folder agrees with what listings and reads show**: after any run of writes,
deletes, copies and folders created, in any state of versioning. -/
theorem createFolder_agrees_iff {w₀ : World} (hempty : Empty w₀.db) {requests : List KeyRequest}
    (honly : ∀ r ∈ requests, r.OnKeys)
    (hdistinct : N.Distinct ((runAll (KeyRequest.program N) requests w₀).calls + callsPerRequest))
    (bucket : BucketContext) (key : Text) (accessKeyId : Option Text) :
    AgreesWithReads N (runAll (KeyRequest.program N) requests w₀) bucket key accessKeyId ↔
      Unobstructed (runAll (KeyRequest.program N) requests w₀) bucket.guid key := by
  have hkeys : KeysValid w₀.db := by
    intro o ho
    rw [hempty.objects] at ho
    cases ho
  exact agreesWithReads_iff (runAll_inv hempty hdistinct) (keysValid_of_onKeys hkeys honly)
    (hdistinct.mono (by simp only [callsPerRequest]; omega)) bucket key accessKeyId

/-! ## A folder deleted in a versioned bucket -/

def versionedContext : BucketContext :=
  { guid := 0, versioning := .enabled, ownerUserGuid := [], quotaBytes := none }

/-- A folder is created and deleted. -/
def createThenDelete (bucket : BucketContext) : List KeyRequest :=
  [.createFolder bucket "docs".toList none, .object (.delete bucket "docs/".toList none none)]

theorem onKeys_createThenDelete (bucket : BucketContext) : ∀ r ∈ createThenDelete bucket, r.OnKeys := by
  simp [createThenDelete, KeyRequest.OnKeys]

/-- **It cannot be created again**, though it is not there. -/
theorem deleted_folder_refused : ¬ ∀ (bucket : BucketContext) (requests : List KeyRequest),
    (∀ r ∈ requests, r.OnKeys) → AgreesWithReads Node.counting
      (runAll (KeyRequest.program Node.counting) requests emptyStore) bucket "docs".toList none := by
  intro h
  have hagrees := h versionedContext _ (onKeys_createThenDelete versionedContext)
  exact absurd (hagrees.refused_iff.mp (by decide +kernel)) (by decide +kernel)

/-- In a bucket without versioning it can. -/
theorem createFolder_agrees_again : AgreesWithReads Node.counting
    (runAll (KeyRequest.program Node.counting) (createThenDelete openContext) emptyStore) openContext
    "docs".toList none := by
  have hempty : Empty emptyStore.db := ⟨rfl, rfl, rfl, rfl⟩
  exact (createFolder_agrees_iff hempty (onKeys_createThenDelete openContext)
    (Node.distinct_counting.mono (by decide +kernel)) openContext "docs".toList none).mpr
    (by decide +kernel)

end ObjectsService
end SimpleStorage
