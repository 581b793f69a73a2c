import SimpleStorage.Objects.Requests
import SimpleStorage.Objects.TableEffects

/-!
# The keys that are stored

A key is checked where an object is written: `put` refuses an invalid one, and with it
`copy`, `copyKeys` and `createFolder`.  A delete marker is only committed for a key that has
a row.  An upload is different: the request that names its key does not check it, and the
request that commits a version under it takes it from the upload.

* `request_keepsKeys`: every request but `completeMultipartUpload` keeps the stored keys
  valid;
* `complete_keys`: what a completion leaves;
* `keysValid_iff`: in a run all stored keys are valid throughout, exactly if no upload that
  can be completed has an invalid key when its completion is asked for.
-/

namespace SimpleStorage
namespace StorageService

open Program

variable {N : Node}

/-- A read succeeds exactly if there is a payload to deliver. -/
theorem read_readable (storagePath : Text) (encryption : Option StorageTypes.BlobEncryption)
    (w : World) : wp (read N storagePath none encryption)
      (fun _ w' => w' = w ∧ (payload N w.encryption w.disk storagePath encryption).isSome)
      (fun _ w' => w' = w ∧ payload N w.encryption w.disk storagePath encryption = none) w := by
  rw [read, wp_bind, wp_observe, wp_bind, wp_orThrow]
  refine ⟨fun blob hblob => ?_, fun hnone => ⟨rfl, by rw [payload, hnone, Option.bind_none]⟩⟩
  cases encryption with
  | none => exact ⟨rfl, by rw [payload, hblob]; rfl⟩
  | some descriptor =>
    dsimp only
    rw [wp_bind, wp_query, wp_bind, wp_orThrow]
    have hpayload : payload N w.encryption w.disk storagePath (some descriptor) =
        (StorageCipher.openKey N w.encryption descriptor).map
          (StorageCipher.decrypt N · blob.content) := by
      rw [payload, hblob, Option.bind_some]
    rw [hpayload]
    refine ⟨fun key hkey => ⟨rfl, ?_⟩, fun hnone => ⟨rfl, ?_⟩⟩
    · rw [hkey]
      rfl
    · rw [hnone, Option.map_none]

/-- The file of every source is there and can be deciphered. -/
def AllReadable (N : Node) (w : World) (sources : List ConcatSource) : Prop :=
  ∀ source ∈ sources, (payload N w.encryption w.disk source.storagePath source.encryption).isSome

theorem readAll_readable (sources : List ConcatSource) (w : World) :
    wp (readAll N sources) (fun _ _ => AllReadable N w sources) (fun _ _ => ¬ AllReadable N w sources) w := by
  induction sources with
  | nil => exact List.forall_mem_nil _
  | cons source rest ih =>
    rw [readAll, wp_bind]
    refine wp_mono (read_readable _ _ w) ?_ ?_
    · rintro plain _ ⟨rfl, hsource⟩
      rw [wp_bind]
      refine wp_mono ih (fun _ _ hrest => ?_) fun _ _ hrest h => ?_
      · exact List.forall_mem_cons.mpr ⟨hsource, hrest⟩
      · exact hrest (List.forall_mem_cons.mp h).2
    · rintro e _ ⟨-, hnone⟩ h
      have hsource := (List.forall_mem_cons.mp h).1
      rw [hnone] at hsource
      cases hsource

theorem concat_readable (sources : List ConcatSource) (w : World) :
    wp (concat N sources) (fun _ _ => AllReadable N w sources) (fun _ _ => ¬ AllReadable N w sources) w := by
  rw [concat, wp_bind, generateStoragePath, wp_bind, wp_nextCallFor, wp_pure, wp_bind]
  refine wp_mono (newBlobKey_spec _) ?_ fun _ _ h => h.elim
  rintro blobKey _ ⟨n, -, rfl, -⟩
  rw [wp_bind, wp_tryCatch]
  exact wp_mono (readAll_readable sources _) (fun _ _ h => h) fun _ _ h => h

end StorageService

namespace ObjectsService

open ObjectsTypes Program Statements StorageService

variable {N : Node}

/-- **Every stored key obeys the key rules.** -/
def KeysValid (db : Database) : Prop := ∀ o ∈ db.objects, ValidKey o.key

instance (db : Database) : Decidable (KeysValid db) :=
  inferInstanceAs (Decidable (∀ o ∈ db.objects, _))

theorem KeysValid.congr {db db' : Database} (h : KeysValid db) (hsame : db' = db) : KeysValid db' :=
  hsame ▸ h

/-! ## Requests -/

/-- Everything that touches the keys of a bucket. -/
inductive KeyRequest where
  | object (r : ObjectRequest)
  | copyKeys (source target : BucketContext) (sourceKey targetKey : Text) (move : Bool)
      (accessKeyId : Option Text)
  | createFolder (bucket : BucketContext) (key : Text) (accessKeyId : Option Text)
  | deleteMany (bucket : BucketContext) (accessKeyId : Option Text) (entries : List DeleteEntry)
  | deleteByPrefix (bucket : BucketContext) (pre : Text) (accessKeyId : Option Text)
  | uploadPartCopy (bucket : BucketContext) (uploadId : Text) (partNumber : ℤ)
      (source : ObjectVersionDetail) (range : Option StorageTypes.ReadRange)
  deriving DecidableEq

variable (N) in
def KeyRequest.program : KeyRequest → Service Unit
  | .object r => r.program N
  | .copyKeys source target sourceKey targetKey move accessKeyId => do
      let _ ← ObjectsService.copyKeys N source target sourceKey targetKey move accessKeyId
  | .createFolder bucket key accessKeyId => do
      let _ ← ObjectsService.createFolder N bucket key accessKeyId
  | .deleteMany bucket accessKeyId entries => do
      let _ ← ObjectsService.deleteMany N bucket accessKeyId entries
  | .deleteByPrefix bucket pre accessKeyId => do
      let _ ← ObjectsService.deleteByPrefix N bucket pre accessKeyId
  | .uploadPartCopy bucket uploadId partNumber source range => do
      let _ ← ObjectsService.uploadPartCopy N bucket uploadId partNumber source range

/-! ## What a commit adds -/

/-- A commit leaves the keys there were, and its own. -/
theorem KeysValid.commits {w : World} (hw : KeysValid w.db) {bucket : BucketContext} {key : Text}
    (hkey : ValidKey key) {path : Option Text} {db' : Database}
    (h : CommitsVersion (N := N) w bucket key path db') : KeysValid db' := by
  obtain ⟨call, versionId, values, -, -, -, rfl⟩ := h
  intro o ho
  rcases row_commitVersion ho with ⟨p, hp, -, -, hsame⟩ | ⟨-, -, hnew⟩
  · rw [← hsame]
    exact hw p hp
  · rw [hnew]
    exact hkey

/-- After a commit its key has a row. -/
theorem key_of_commits {w : World} {bucket : BucketContext} {key : Text} {path : Option Text}
    {db' : Database} (h : CommitsVersion (N := N) w bucket key path db') :
    ∃ o ∈ db'.objects, o.key = key := by
  obtain ⟨call, versionId, values, -, -, -, rfl⟩ := h
  have hrow : ∃ o ∈ (upsertObject call bucket.guid key w.db).2.objects, o.key = key := by
    cases hfound : findObject bucket.guid key w.db with
    | some row =>
      rw [upsertObject, hfound]
      have hkey := List.find?_some hfound
      rw [Bool.and_eq_true, decide_eq_true_iff, decide_eq_true_iff] at hkey
      exact ⟨row, List.mem_of_find?_eq_some hfound, hkey.2⟩
    | none =>
      rw [upsertObject, hfound]
      exact ⟨_, List.mem_append_right _ (List.mem_singleton_self _), rfl⟩
  obtain ⟨o, ho, hkey⟩ := hrow
  rw [commitVersion_eq (k := (bucket.guid, key))]
  refine ⟨_, List.mem_map_of_mem ho, ?_⟩
  split_ifs
  · exact hkey
  · exact hkey

/-! ## What the operations keep -/

/-- The program leaves only valid keys if it finds only valid keys. -/
abbrev KeepsKeys {α : Type} (x : Service α) : Prop := Keeps (fun w => KeysValid w.db) x

/-- **A write checks its key first.** -/
theorem put_keepsKeys (params : PutObjectParams) : KeepsKeys (put N params) := by
  intro w hw
  have hchecked : wp (put N params) (fun _ _ => ValidKey params.key) (fun _ _ => True) w := by
    rw [put, wp_bind, assertValidKey, wp_require]
    exact ⟨fun hkey => wp_of_forall (fun _ _ => hkey) fun _ _ => trivial, fun _ => trivial⟩
  refine wp_mono (wp_and hchecked (put_tables params w)) ?_ ?_
  · rintro _ w' ⟨hkey, h⟩
    exact hw.commits hkey h
  · rintro _ w' ⟨-, hdb⟩
    exact hw.congr hdb

/-- **A delete marker is committed for a key that has a row.** -/
theorem delete_keepsKeys (bucket : BucketContext) (key : Text) (versionId accessKeyId : Option Text) :
    KeepsKeys (delete N bucket key versionId accessKeyId) := by
  intro w hw
  cases ho : findObject bucket.guid key w.db with
  | none =>
    rw [delete, wp_bind, World.select, wp_query, ho]
    exact hw
  | some o =>
    have hkey : ValidKey key := by
      have hfound := List.find?_some ho
      rw [Bool.and_eq_true, decide_eq_true_iff, decide_eq_true_iff] at hfound
      rw [← hfound.2]
      exact hw o (List.mem_of_find?_eq_some ho)
    refine wp_mono (delete_tables (N := N) bucket key versionId accessKeyId w) ?_ ?_
    · intro _ w' h
      change KeysValid w'.db
      generalize w'.db = db' at h ⊢
      cases h with
      | absent => exact hw
      | version =>
        intro p hp
        obtain ⟨q, hq, -, -, hsame⟩ := row_removeVersion hp
        rw [← hsame]
        exact hw q hq
      | purged => exact fun p hp => hw p (List.mem_filter.mp hp).1
      | marked _ _ h => exact hw.commits hkey h
    · rintro _ _ rfl
      exact hw

/-! ## Uploads -/

theorem uploadPart_keepsKeys (bucket : BucketContext) (uploadId : Text) (partNumber : ℤ)
    (stream : Readable) (contentMd5 : Option Text) (declaredLength maxBytes : Option ℕ) :
    KeepsKeys (uploadPart N bucket uploadId partNumber stream contentMd5 declaredLength maxBytes) := by
  intro w hw
  refine wp_mono (uploadPart_tables _ _ _ _ _ _ _ w) ?_ ?_
  · rintro _ w' ⟨u, part, -, -, -, -, hdb⟩
    rw [hdb]
    exact hw
  · rintro _ w' hdb
    exact hw.congr hdb

theorem createMultipartUpload_keepsKeys (bucket : BucketContext) (key : Text)
    (accessKeyId : Option Text) (headers : ObjectHeaders) :
    KeepsKeys (createMultipartUpload N bucket key accessKeyId headers) := fun _ hw => hw

theorem abortMultipartUpload_keepsKeys (bucketGuid : Guid) (uploadId : Text) :
    KeepsKeys (abortMultipartUpload bucketGuid uploadId) := by
  intro w hw
  refine wp_mono (abortMultipartUpload_tables bucketGuid uploadId w) ?_ ?_
  · rintro _ w' ⟨u, -, hdb⟩
    rw [hdb]
    exact hw
  · rintro _ _ rfl
    exact hw

/-- **The upload can be completed with these parts**: each of them is stored, has the etag the
client gives, is long enough, and can be read back. -/
def CanComplete (N : Node) (w : World) (bucketGuid : Guid) (uploadId : Text)
    (parts : List CompletePart) (u : MultipartUploadRow) : Prop :=
  findUpload bucketGuid uploadId w.db = some u ∧ parts ≠ [] ∧
    ∃ ordered, matchRequestedParts (orderedParts u.guid w.db) none parts = .ok ordered ∧
      AllReadable N w (ordered.map fun part => ⟨part.storagePath, toBlobEncryption part.sse⟩)

/-- **A completion goes through exactly if the upload can be completed.** -/
theorem complete_canComplete (bucket : BucketContext) (uploadId : Text) (parts : List CompletePart)
    (w : World) :
    wp (completeMultipartUpload N bucket uploadId parts)
      (fun _ _ => ∃ u, CanComplete N w bucket.guid uploadId parts u)
      (fun _ _ => ∀ u, ¬ CanComplete N w bucket.guid uploadId parts u) w := by
  rw [completeMultipartUpload, wp_bind]
  refine wp_mono (requireUpload_spec w bucket.guid uploadId) ?_ ?_
  · rintro u w ⟨rfl, hu⟩
    have hunique : ∀ u', CanComplete N w bucket.guid uploadId parts u' → u' = u :=
      fun u' h => Option.some.inj (h.1.symm.trans hu)
    rw [wp_bind, wp_require]
    refine ⟨fun hparts => ?_, fun hparts u' h => hparts h.2.1⟩
    rw [wp_bind, World.select, wp_query]
    cases hordered : matchRequestedParts (orderedParts u.guid w.db) none parts with
    | error e =>
      rintro u' h
      obtain rfl := hunique u' h
      obtain ⟨-, -, ordered, hok, -⟩ := h
      rw [hordered] at hok
      cases hok
    | ok ordered =>
      dsimp only
      rw [wp_bind, wp_pure, wp_bind]
      refine wp_mono (concat_readable _ w) ?_ ?_
      · intro written w₁ hread
        have hcan : ∃ u, CanComplete N w bucket.guid uploadId parts u :=
          ⟨u, hu, hparts, ordered, hordered, hread⟩
        rw [wp_bind]
        refine wp_mono (nextVersionId_tables bucket.versioning w₁) ?_ fun _ _ h => h.elim
        rintro versionId w₂ -
        rw [wp_bind, commitVersion, World.insertFor, wp_perform, wp_bind, World.executeFor, wp_perform,
          wp_bind, World.executeFor, wp_perform, wp_bind]
        exact wp_mono (deleteBlobs_tables _ _) (fun _ _ _ => hcan) fun _ _ h => h.elim
      · rintro _ _ hread u' h
        obtain rfl := hunique u' h
        obtain ⟨-, -, ordered', hok, hread'⟩ := h
        rw [hordered] at hok
        cases hok
        exact hread hread'
  · rintro _ _ ⟨-, -, hnone⟩ u h
    rw [h.1] at hnone
    cases hnone

/-- The upload a completion finds, if it can be completed, has a valid key. -/
def CompletesValid (N : Node) (w : World) : KeyRequest → Prop
  | .object (.complete bucket uploadId parts) =>
      ∀ u, CanComplete N w bucket.guid uploadId parts u → ValidKey u.key
  | _ => True

/-- **A completion leaves valid keys exactly if it had none other to commit.** -/
theorem complete_keys {w : World} (hw : KeysValid w.db) (bucket : BucketContext) (uploadId : Text)
    (parts : List CompletePart) :
    let w' := stateAfter ((KeyRequest.object (.complete bucket uploadId parts)).program N) w
    KeysValid w'.db ↔ CompletesValid N w (.object (.complete bucket uploadId parts)) := by
  refine stateAfter_of_wp (p := fun w' : World => KeysValid w'.db ↔
    CompletesValid N w (.object (.complete bucket uploadId parts))) ?_
  rw [KeyRequest.program, ObjectRequest.program, wp_bind]
  refine wp_mono (wp_and (complete_canComplete bucket uploadId parts w)
    (completeMultipartUpload_tables bucket uploadId parts w)) ?_ ?_
  · rintro _ w' ⟨⟨u, hcan⟩, u', db', hu', hcommits, hdb⟩
    obtain rfl : u' = u := Option.some.inj (hu'.symm.trans hcan.1)
    have hobjects : KeysValid w'.db ↔ KeysValid db' := by rw [hdb]; rfl
    refine hobjects.trans ⟨fun hvalid u hu => ?_, fun hvalid => hw.commits (hvalid u' hcan) hcommits⟩
    obtain ⟨o, ho, hkey⟩ := key_of_commits hcommits
    obtain rfl : u = u' := Option.some.inj (hu.1.symm.trans hu')
    rw [← hkey]
    exact hvalid o ho
  · rintro _ w' ⟨hcannot, hdb⟩
    exact iff_of_true (hw.congr hdb) fun u hu => absurd hu (hcannot u)

/-! ## Runs -/

/-- **Every request keeps the stored keys valid**, unless it completes an upload to an invalid one. -/
theorem request_keepsKeys {w : World} (hw : KeysValid w.db) {r : KeyRequest}
    (h : CompletesValid N w r) : KeysValid (stateAfter (r.program N) w).db := by
  cases r with
  | object r =>
    cases r with
    | put params => exact ((put_keepsKeys params).bind fun _ => .pure ()).stateAfter hw
    | copy => exact ((copy_keeps (fun _ hw => hw) _ (fun params _ _ => put_keepsKeys params) _ _ _).bind
      fun _ => .pure ()).stateAfter hw
    | delete => exact ((delete_keepsKeys _ _ _ _).bind fun _ => .pure ()).stateAfter hw
    | create => exact ((createMultipartUpload_keepsKeys _ _ _ _).bind fun _ => .pure ()).stateAfter hw
    | uploadPart => exact ((uploadPart_keepsKeys _ _ _ _ _ _ _).bind fun _ => .pure ()).stateAfter hw
    | complete bucket uploadId parts => exact (complete_keys hw bucket uploadId parts).mpr h
    | abort => exact (abortMultipartUpload_keepsKeys _ _).stateAfter hw
  | copyKeys => exact ((copyKeys_keeps (fun _ hw => hw) (fun params _ => put_keepsKeys params)
    (fun _ => delete_keepsKeys _ _ _ _) _ _ _).bind fun _ => .pure ()).stateAfter hw
  | createFolder => exact ((createFolder_keeps (fun params _ => put_keepsKeys params) _ _).bind
    fun _ => .pure ()).stateAfter hw
  | deleteMany => exact ((deleteMany_keeps fun _ _ => delete_keepsKeys _ _ _ _).bind
    fun _ => .pure ()).stateAfter hw
  | deleteByPrefix => exact ((deleteByPrefix_keeps (fun _ => delete_keepsKeys _ _ _ _) _).bind
    fun _ => .pure ()).stateAfter hw
  | uploadPartCopy => exact ((uploadPartCopy_keeps (fun _ => uploadPart_keepsKeys _ _ _ _ _ _ _) _ _).bind
    fun _ => .pure ()).stateAfter hw

/-- A request after which all stored keys are valid completes no upload to an invalid one. -/
theorem completesValid_of_keysValid {w : World} (hw : KeysValid w.db) {r : KeyRequest}
    (h : KeysValid (stateAfter (r.program N) w).db) : CompletesValid N w r := by
  cases r with
  | object r =>
    cases r with
    | complete bucket uploadId parts => exact (complete_keys hw bucket uploadId parts).mp h
    | _ => trivial
  | _ => trivial

/-- **Every stored key is valid in every state of a run**, exactly if each upload that can be
completed when its completion is asked for has a valid key. -/
theorem keysValid_iff {w : World} (hw : KeysValid w.db) (requests : List KeyRequest) :
    (∀ past, past <+: requests → KeysValid (runAll (KeyRequest.program N) past w).db) ↔
      ∀ past r, past ++ [r] <+: requests →
        CompletesValid N (runAll (KeyRequest.program N) past w) r := by
  have hkeep : ∀ (w : World) (r : KeyRequest), KeysValid w.db → CompletesValid N w r →
      KeysValid (stateAfter (r.program N) w).db :=
    fun _ _ hw h => request_keepsKeys hw h
  have hproper : ∀ (w : World) (r : KeyRequest), KeysValid w.db →
      KeysValid (stateAfter (r.program N) w).db → CompletesValid N w r :=
    fun _ _ hw h => completesValid_of_keysValid hw h
  exact runAll_good_iff (KeyRequest.program N) (fun w (hw : KeysValid w.db) => hw) hkeep hproper hw requests

/-! ## A key that is not checked -/

def emptyStore : World := { db := {}, encryption := ⟨false, []⟩ }

def openContext : BucketContext := { guid := 0, versioning := .disabled, ownerUserGuid := [], quotaBytes := none }

/-- An upload in one part. -/
def uploadOnePart (key : Text) : List KeyRequest :=
  let uploadId := Codec.base64url.encode (Node.counting.randomBytes 0 24)
  [.object (.create openContext key none {}),
    .object (.uploadPart openContext uploadId 1 ⟨[[1, 2]], false⟩ none none none),
    .object (.complete openContext uploadId [⟨1, Codec.hex (Node.counting.md5 [1, 2])⟩])]

/-- **An upload stores a key with a control character.** -/
theorem bell_stored : ¬ ∀ past, past <+: uploadOnePart [Char.ofNat 7] →
    KeysValid (runAll (KeyRequest.program Node.counting) past emptyStore).db := by
  intro h
  exact absurd (h _ (List.prefix_refl _)) (by decide +kernel)

/-- An upload to a valid key does no harm. -/
theorem keysValid_iff_uploadOnePart :
    KeysValid (runAll (KeyRequest.program Node.counting) (uploadOnePart ['a']) emptyStore).db := by
  have hempty : KeysValid emptyStore.db := List.forall_mem_nil _
  have huploads : ∀ u ∈ (runAll (KeyRequest.program Node.counting) ((uploadOnePart ['a']).take 2)
      emptyStore).db.multipartUploads, ValidKey u.key := by
    decide +kernel
  refine (keysValid_iff hempty (uploadOnePart ['a'])).mpr (fun past r hr => ?_) _ List.prefix_rfl
  rcases past with _ | ⟨first, _ | ⟨second, _ | ⟨third, past⟩⟩⟩
  · obtain ⟨rfl, -⟩ := List.cons_prefix_cons.mp hr
    trivial
  · obtain ⟨rfl, hr'⟩ := List.cons_prefix_cons.mp hr
    obtain ⟨rfl, -⟩ := List.cons_prefix_cons.mp hr'
    trivial
  · obtain ⟨rfl, hr'⟩ := List.cons_prefix_cons.mp hr
    obtain ⟨rfl, hr''⟩ := List.cons_prefix_cons.mp hr'
    obtain ⟨rfl, -⟩ := List.cons_prefix_cons.mp hr''
    exact fun u hu => huploads u (List.mem_of_find?_eq_some hu.1)
  · have hlength := hr.length_le
    rw [List.length_append] at hlength
    change past.length + 3 + 1 ≤ 3 at hlength
    omega

end ObjectsService
end SimpleStorage
