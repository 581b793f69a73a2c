import SimpleStorage.Objects.FolderCreation
import SimpleStorage.Usage.OwnerCharges

/-!
# What raises the usage of a bucket

The usage of a bucket is counted anew each time, over the versions that have a payload and the parts
of uploads in progress.  Here each operation is described by what it does to that count: a write adds
at most what it stored, completing an upload moves bytes from one table to the other and checks no
quota, and everything else adds nothing.  No operation touches the count of another bucket.

* `put_raises`, `uploadPart_raises`, `delete_raises`: what one operation adds, to which bucket.
* `complete_balances`: a completed upload gives back the parts that were not listed, and the `null`
  version it replaces, to the byte.
* `usage_rule`: all operations, after any run.
-/

namespace SimpleStorage
namespace UsageService

open ObjectsService ObjectsTypes Program Statements StorageService

variable {N : Node}

/-! ## The count -/

/-- The bytes a bucket is charged for. -/
def bytesOf (guid : Guid) (w : World) : ℕ := (bucketUsage guid w.db).totalBytes

/-- **One bucket's usage was raised by so many bytes at most**, and no other bucket's changed. -/
structure RaisesBy (bucketGuid : Guid) (n : ℕ) (w w' : World) : Prop where
  raised : bytesOf bucketGuid w' ≤ bytesOf bucketGuid w + n
  others : ∀ guid, guid ≠ bucketGuid → bytesOf guid w' = bytesOf guid w

/-- No bucket's usage changed. -/
def SameUsage (w w' : World) : Prop := ∀ guid, bytesOf guid w' = bytesOf guid w

theorem SameUsage.of_db {w w' : World} (h : w'.db = w.db) : SameUsage w w' := fun guid => by
  rw [bytesOf, h, bytesOf]

theorem SameUsage.raisesBy {w w' : World} (h : SameUsage w w') (bucketGuid : Guid) (n : ℕ) :
    RaisesBy bucketGuid n w w' :=
  ⟨(h bucketGuid).le.trans (Nat.le_add_right _ _), fun guid _ => h guid⟩

theorem RaisesBy.trans {bucketGuid : Guid} {m n : ℕ} {w w' w'' : World} (h : RaisesBy bucketGuid m w w')
    (h' : RaisesBy bucketGuid n w' w'') : RaisesBy bucketGuid (m + n) w w'' where
  raised := by
    have hm := h.raised
    have hn := h'.raised
    omega
  others := fun guid hguid => (h'.others guid hguid).trans (h.others guid hguid)

/-! ## Committing -/

/-- An object that a key has is one of its bucket. -/
theorem objectRefs_of_found {bucketGuid : Guid} {key : Text} {db : Database} {o : ObjectRow}
    (h : findObject bucketGuid key db = some o) : (o.guid, bucketGuid) ∈ objectRefs db := by
  have hp := List.find?_some h
  rw [Bool.and_eq_true, decide_eq_true_iff] at hp
  exact List.mem_map.mpr ⟨o, List.mem_of_find?_eq_some h, Prod.ext rfl hp.1⟩

/-- A version of a key committed adds its size at most. -/
theorem commits_raises {w w' : World} (hw : Integrity w) {bucket : BucketContext} {key : Text}
    {path : Option Text} {size : ℕ} (h : CommitsSized (N := N) w bucket key path size w'.db) :
    RaisesBy bucket.guid size w w' := by
  obtain ⟨call, versionId, values, hcall, -, -, rfl, hdb⟩ := h
  have hcalled : Integrity { w with calls := call } := hw.congr rfl hcall
  constructor
  · have hle := commit_bytes_le hcalled (N.now call) bucket.guid key versionId values bucket.guid
    rw [if_pos rfl] at hle
    rw [bytesOf, hdb]
    exact hle
  · intro guid hguid
    rw [bytesOf, hdb]
    exact commit_bytes_other hcalled (N.now call) hguid key versionId values

/-- A delete marker committed adds nothing. -/
theorem marks_raises {w w' : World} (hw : Integrity w) {bucket : BucketContext} {key : Text}
    (h : CommitsVersion (N := N) w bucket key none w'.db) : RaisesBy bucket.guid 0 w w' := by
  obtain ⟨call, versionId, values, hcall, -, hpath, hdb⟩ := h
  have hcalled : Integrity { w with calls := call } := hw.congr rfl hcall
  constructor
  · have hbytes := commit_bytes hcalled (N.now call) bucket.guid key versionId values bucket.guid
    rw [hpath, if_neg nofun, Nat.add_zero] at hbytes
    rw [bytesOf, hdb]
    exact Nat.le.intro hbytes
  · intro guid hguid
    rw [bytesOf, hdb]
    exact commit_bytes_other hcalled (N.now call) hguid key versionId values

/-! ## Writing -/

section Operations

variable {w : World} (hw : Integrity w) (hinv : Inv N w) (hdistinct : N.Distinct (w.calls + callsPerRequest))
include hw hinv hdistinct

/-- **A write adds what it stored at most.** -/
theorem put_raises (params : PutObjectParams) :
    wp (put N params)
      (fun _ w' => Inv N w' ∧
        served N w' (params.bucket.guid, params.key) = some params.stream.content ∧
        RaisesBy params.bucket.guid params.stream.content.length w w')
      (fun _ w' => SameUsage w w') w := by
  have hspec := put_spec params hinv (hdistinct.mono (by simp only [callsPerRequest]; omega))
  refine wp_mono (wp_and hspec (put_sized params w)) ?_ fun _ _ h => .of_db h.2
  intro r w' h
  obtain ⟨⟨heffect, -, hresponse⟩, hcommits⟩ := h
  refine ⟨heffect.inv, ?_, hresponse.size ▸ commits_raises hw hcommits⟩
  rw [served_eq heffect.inv, heffect.versions, VersionedMap.write, Function.update_self]
  rfl

/-- So does a copy. -/
theorem copy_raises (source : ObjectVersionDetail) (target : BucketContext) (key : Text)
    (directive : MetadataDirective) (accessKeyId : Option Text) (headers : ObjectHeaders) :
    wp (copy N source target key directive accessKeyId headers)
      (fun _ w' => ∃ content, served N w' (target.guid, key) = some content ∧
        RaisesBy target.guid content.length w w')
      (fun _ w' => SameUsage w w') w := by
  refine wp_copy (fun params hbucket hkey => ?_) fun _ => .of_db rfl
  refine wp_mono (put_raises hw hinv hdistinct params) ?_ fun _ _ h => h
  intro _ w' h
  obtain ⟨hinv', hserved, hraises⟩ := h
  rw [hbucket, hkey] at hserved
  rw [hbucket] at hraises
  have hquiet : Quiet w' { w' with calls := w'.calls + 1 } := Quiet.of_calls (Nat.le_succ _)
  refine ⟨params.stream.content, ?_, hraises.raised, hraises.others⟩
  rw [served_congr hinv' (hquiet.inv hinv') (congrFun hquiet.versions_eq _)]
  exact hserved

/-- A folder adds nothing. -/
theorem createFolder_raises (bucket : BucketContext) (key : Text) (accessKeyId : Option Text) :
    wp (createFolder N bucket key accessKeyId)
      (fun _ w' => served N w' (bucket.guid, folderKeyOf key) = some [] ∧ RaisesBy bucket.guid 0 w w')
      (fun _ w' => SameUsage w w') w := by
  change wp (assertValidKey (folderKeyOf key) >>= _) _ _ w
  rw [wp_bind, assertValidKey, wp_require]
  refine ⟨fun _ => ?_, fun _ => .of_db rfl⟩
  rw [wp_bind, wp_require]
  refine ⟨fun _ => ?_, fun _ => .of_db rfl⟩
  rw [wp_bind, World.select, wp_query, wp_bind, wp_require]
  refine ⟨fun _ => ?_, fun _ => .of_db rfl⟩
  rw [wp_bind]
  exact wp_mono (put_raises hw hinv hdistinct _) (fun _ _ h => h.2) fun _ _ h => h

/-! ## Uploads -/

/-- **A stored part adds what it stored at most.** -/
theorem uploadPart_raises (bucket : BucketContext) (uploadId : Text) (partNumber : ℤ)
    (stream : Readable) (contentMd5 : Option Text) (declaredLength maxBytes : Option ℕ) :
    wp (uploadPart N bucket uploadId partNumber stream contentMd5 declaredLength maxBytes)
      (fun _ w' => ∃ u content, pending N w' (bucket.guid, uploadId) = some u ∧
        u.parts partNumber = some content ∧ RaisesBy bucket.guid content.length w w')
      (fun _ w' => SameUsage w w') w := by
  have hspec := uploadPart_spec hinv (hdistinct.mono (by simp only [callsPerRequest]; omega)) bucket uploadId
    partNumber stream contentMd5 declaredLength maxBytes
  refine wp_mono (wp_and hspec (uploadPart_sized bucket uploadId partNumber stream contentMd5
    declaredLength maxBytes w)) ?_ fun _ _ h => .of_db h.2
  intro r w' h
  obtain ⟨⟨u, -, -, -, -, hsize, heffect⟩, u', part, hu, hupload, -, -, hpart, hdb⟩ := h
  refine ⟨_, stream.content, by rw [heffect.pending, Function.update_self], Function.update_self .., ?_⟩
  have hrefs : ∀ guid, (part.uploadGuid, guid) ∈ uploadRefs w.db → guid = bucket.guid := fun guid h =>
    uploadRefs_unique hw (hupload ▸ h) (uploadRefs_of_found hu)
  constructor
  · have hle := storePart_bytes_le hw hrefs bucket.guid
    rw [if_pos rfl, hpart, hsize] at hle
    rw [bytesOf, hdb]
    exact hle
  · intro guid hguid
    rw [bytesOf, hdb]
    exact storePart_bytes_other hw hrefs hguid

theorem uploadPartCopy_raises (bucket : BucketContext) (uploadId : Text) (partNumber : ℤ)
    (source : ObjectVersionDetail) (range : Option StorageTypes.ReadRange) :
    wp (uploadPartCopy N bucket uploadId partNumber source range)
      (fun _ w' => ∃ u content, pending N w' (bucket.guid, uploadId) = some u ∧
        u.parts partNumber = some content ∧ RaisesBy bucket.guid content.length w w')
      (fun _ w' => SameUsage w w') w :=
  wp_uploadPartCopy (fun stream => uploadPart_raises hw hinv hdistinct bucket uploadId partNumber stream
    none none none) fun _ => .of_db rfl

omit hdistinct in
/-- An upload that is created adds nothing: no part belongs to it yet. -/
theorem create_raises (bucket : BucketContext) (key : Text) (accessKeyId : Option Text)
    (headers : ObjectHeaders) :
    wp (createMultipartUpload N bucket key accessKeyId headers) (fun _ w' => SameUsage w w')
      (fun _ _ => False) w := by
  have hkept := atomic_kept (createMultipartUpload_atomic (N := N) bucket key accessKeyId headers) hw
  refine wp_mono (wp_and hkept (createMultipartUpload_tables (N := N) bucket key accessKeyId headers w))
    ?_ fun _ _ h => h.2
  intro uploadId w' h guid
  obtain ⟨hkept, u, hguid, -, -, -, hdb⟩ := h
  rw [bytesOf, bytesOf, totalBytes_eq hkept.integrity, totalBytes_eq hw, hdb]
  congr 2
  refine List.map_congr_left fun p hp => if_congr ?_ rfl rfl
  have hlt := (hinv.parts p hp).uploadGuid
  rw [decide_eq_true_iff, decide_eq_true_iff, uploadRefs, insertUpload, List.filter_append, List.map_append,
    List.mem_append]
  refine or_iff_left fun hnew => ?_
  obtain ⟨v, hv, heq⟩ := List.mem_map.mp hnew
  obtain rfl := List.mem_singleton.mp (List.mem_filter.mp hv).1
  have hself : v.guid = p.uploadGuid := congrArg Prod.fst heq
  rw [← hself, hguid] at hlt
  exact absurd hlt (by change ¬ (w.calls + 1 : ℕ) < w.calls; omega)

end Operations

/-! ## Deleting -/

/-- Versions of one object that are dropped are taken from its bucket. -/
theorem RaisesBy.of_drop {w w' : World} (hw : Integrity w) {bucketGuid objectGuid : Guid}
    (href : (objectGuid, bucketGuid) ∈ objectRefs w.db) (p : ObjectVersionRow → Bool)
    (hobject : ∀ v ∈ w.db.objectVersions, p v → v.objectGuid = objectGuid)
    (hbytes : ∀ guid, bytesOf guid w' +
      ((w.db.objectVersions.filter p).map (versionCharge guid w.db)).sum = bytesOf guid w) :
    RaisesBy bucketGuid 0 w w' where
  raised := Nat.le.intro (hbytes bucketGuid)
  others := fun guid hguid => by
    have hzero : ((w.db.objectVersions.filter p).map (versionCharge guid w.db)).sum = 0 := by
      refine List.sum_eq_zero fun n hn => ?_
      obtain ⟨v, hv, rfl⟩ := List.mem_map.mp hn
      obtain ⟨hv, hp⟩ := List.mem_filter.mp hv
      refine if_neg fun hcharged => hguid ?_
      rw [Bool.and_eq_true, decide_eq_true_iff, hobject v hv hp] at hcharged
      exact objectRefs_unique hw hcharged.1 href
    have hsum := hbytes guid
    rw [hzero] at hsum
    exact hsum

theorem deletes_raises {w w' : World} (hw : Integrity w) (hinv : Inv N w) {bucket : BucketContext}
    {key : Text} {versionId : Option Text} (h : DeletesFrom (N := N) w bucket key versionId w'.db) :
    RaisesBy bucket.guid 0 w w' := by
  generalize hdb : w'.db = db' at h
  cases h with
  | absent => exact (SameUsage.of_db hdb).raisesBy bucket.guid 0
  | version hid ho hv =>
    rename_i o v i
    have hmem := List.mem_of_find?_eq_some hv
    have hself := List.find?_some hv
    rw [Bool.and_eq_true, decide_eq_true_iff] at hself
    refine RaisesBy.of_drop hw (objectRefs_of_found ho) (fun u => decide (u.guid = v.guid))
      (fun u hu huv => ?_) fun guid => ?_
    · rw [List.inj_on_of_nodup_map hinv.tables.version_guid hu hmem (of_decide_eq_true huv)]
      exact hself.1
    · rw [bytesOf, hdb]
      exact removeVersion_bytes hw o.guid v.guid guid
  | purged hid hversioning ho =>
    rename_i o
    refine RaisesBy.of_drop hw (objectRefs_of_found ho) (fun u => decide (u.objectGuid = o.guid))
      (fun u _ huo => of_decide_eq_true huo) fun guid => ?_
    rw [bytesOf, hdb]
    exact purgeObject_bytes hw o.guid guid
  | marked hid hversioning h => exact marks_raises hw (hdb ▸ h)

section Deleting

variable {w : World} (hw : Integrity w) (hinv : Inv N w)
include hw hinv

/-- **A delete adds nothing**, whatever is deleted. -/
theorem delete_raises (bucket : BucketContext) (key : Text) (versionId accessKeyId : Option Text) :
    wp (delete N bucket key versionId accessKeyId) (fun _ w' => RaisesBy bucket.guid 0 w w')
      (fun _ w' => SameUsage w w') w :=
  wp_mono (delete_tables bucket key versionId accessKeyId w) (fun _ _ h => deletes_raises hw hinv h)
    fun _ _ h => h ▸ .of_db rfl

omit hinv in
/-- An aborted upload takes its parts with it. -/
theorem abort_raises (bucketGuid : Guid) (uploadId : Text) :
    wp (abortMultipartUpload bucketGuid uploadId) (fun _ w' => RaisesBy bucketGuid 0 w w')
      (fun _ w' => SameUsage w w') w := by
  refine wp_mono (abortMultipartUpload_tables bucketGuid uploadId w) ?_ fun _ _ h => h ▸ .of_db rfl
  intro _ w' h
  obtain ⟨u, hu, hdb⟩ := h
  have haborted : MultipartUploadStatus.aborted ≠ .inProgress := nofun
  have hbytes : ∀ guid, bytesOf guid w' +
      (if guid = bucketGuid then ((partsOf u.guid w.db).map (·.size)).sum else 0) = bytesOf guid w := by
    intro guid
    rw [bytesOf, hdb]
    exact closeUpload_bytes hw haborted hu guid
  refine ⟨Nat.le.intro (hbytes bucketGuid), fun guid hguid => ?_⟩
  have hsame := hbytes guid
  rwa [if_neg hguid] at hsame

end Deleting

/-! ## Completing an upload -/

/-- The stored parts of an upload that a client does not list. -/
def unlistedBytes (uploadGuid : Guid) (parts : List CompletePart) (db : Database) : ℕ :=
  (((partsOf uploadGuid db).filter fun p => p.partNumber ∉ parts.map (·.partNumber)).map (·.size)).sum

/-- The size of the `null` version a write replaces, if there is one. -/
def replacedBytes (bucket : BucketContext) (key : Text) (db : Database) : ℕ :=
  if bucket.versioning = .enabled then 0
  else (((findObject bucket.guid key db).bind fun o => findVersion o.guid nullVersionId db).map (·.size)).getD 0

/-- **What is listed is stored**: the sizes of the listed parts add up to the contents in a row. -/
theorem listed_bytes {w : World} (hinv : Inv N w) {u : MultipartUploadRow} {parts : List CompletePart}
    (hnodup : (parts.map (·.partNumber)).Nodup) {contents : List Bytes}
    (hlisted : List.Forall₂ (Listed N (pendingUpload N w u)) parts contents) :
    (((partsOf u.guid w.db).filter fun p => p.partNumber ∈ parts.map (·.partNumber)).map (·.size)).sum =
      contents.flatten.length := by
  have hfound : ∀ {p}, p ∈ partsOf u.guid w.db → findPart u.guid p.partNumber w.db = some p := by
    intro p hp
    obtain ⟨hp, hupload⟩ := List.mem_filter.mp hp
    exact (findPart_eq_some hinv.part_number).mpr ⟨hp, of_decide_eq_true hupload, rfl⟩
  -- the size stored under a number, which the rows and the contents are both read by
  let sizeOf : ℤ → ℕ := fun n => ((findPart u.guid n w.db).map (·.size)).getD 0
  have hcontents : (parts.map (·.partNumber)).map sizeOf = contents.map List.length := by
    clear hnodup
    induction hlisted with
    | nil => rfl
    | @cons part content parts contents hpart _ ih =>
      rw [List.map_cons, List.map_cons, List.map_cons, ih]
      congr 1
      obtain ⟨found, hrow, hpayload⟩ := Option.bind_eq_some_iff.mp hpart.1
      obtain ⟨content', hcontent', hsize, -⟩ :=
        (hinv.parts found ((findPart_eq_some hinv.part_number).mp hrow).1).readable
      obtain rfl : content' = content := Option.some.inj (hcontent'.symm.trans hpayload)
      change ((findPart u.guid part.partNumber w.db).map (·.size)).getD 0 = _
      rw [hrow]
      exact hsize
  have hstored : ∀ n ∈ parts.map (·.partNumber), ∃ p ∈ partsOf u.guid w.db, p.partNumber = n := by
    clear hnodup hcontents
    induction hlisted with
    | nil => exact nofun
    | cons hpart _ ih =>
      intro n hn
      rcases List.mem_cons.mp hn with rfl | hn
      · obtain ⟨found, hrow, -⟩ := Option.bind_eq_some_iff.mp hpart.1
        obtain ⟨hmem, hupload, hnumber⟩ := (findPart_eq_some hinv.part_number).mp hrow
        exact ⟨found, List.mem_filter.mpr ⟨hmem, decide_eq_true hupload⟩, hnumber⟩
      · exact ih n hn
  have hperm : (((partsOf u.guid w.db).filter fun p => p.partNumber ∈ parts.map (·.partNumber)).map
      (·.partNumber)).Perm (parts.map (·.partNumber)) := by
    refine (List.perm_ext_iff_of_nodup ?_ hnodup).mpr fun n => ?_
    · have hrows : (partsOf u.guid w.db).Nodup := (List.Nodup.of_map _ hinv.part_number).filter _
      refine (hrows.filter _).map_on fun p hp q hq hnumber => ?_
      have hp' := hfound (List.mem_filter.mp hp).1
      have hq' := hfound (List.mem_filter.mp hq).1
      rw [hnumber] at hp'
      exact Option.some.inj (hp'.symm.trans hq')
    · constructor
      · intro hn
        obtain ⟨p, hp, rfl⟩ := List.mem_map.mp hn
        exact of_decide_eq_true (List.mem_filter.mp hp).2
      · intro hn
        obtain ⟨p, hp, rfl⟩ := hstored n hn
        exact List.mem_map.mpr ⟨p, List.mem_filter.mpr ⟨hp, decide_eq_true hn⟩, rfl⟩
  have hsizes : ((partsOf u.guid w.db).filter fun p => p.partNumber ∈ parts.map (·.partNumber)).map
      (·.size) = (((partsOf u.guid w.db).filter fun p => p.partNumber ∈ parts.map (·.partNumber)).map
        (·.partNumber)).map sizeOf := by
    rw [List.map_map]
    refine List.map_congr_left fun p hp => ?_
    change _ = ((findPart u.guid p.partNumber w.db).map (·.size)).getD 0
    rw [hfound (List.mem_filter.mp hp).1]
    rfl
  rw [hsizes, (hperm.map sizeOf).sum_eq, hcontents, List.length_flatten]

/-- What a commit replaces is the `null` version of its key. -/
theorem replaced_bytes {w : World} (hw : Integrity w) (hinv : Inv N w) {call : ℕ} (hcall : w.calls ≤ call)
    (bucket : BucketContext) (key : Text) {versionId : Text}
    (hid : versionId = nullVersionId ↔ bucket.versioning ≠ .enabled) :
    ((replacedVersions (commitRow call (bucket.guid, key) w.db).guid versionId w.db.objectVersions).map
      (versionCharge bucket.guid w.db)).sum = replacedBytes bucket key w.db := by
  rw [replacedVersions, replacedBytes]
  by_cases henabled : bucket.versioning = .enabled
  · rw [if_pos henabled, if_neg fun h => (hid.mp h) henabled]
    rfl
  · rw [if_neg henabled, if_pos (hid.mpr henabled)]
    cases ho : findObject bucket.guid key w.db with
    | none =>
      have hfresh : w.db.objectVersions.filter (fun v => v.objectGuid =
          (commitRow call (bucket.guid, key) w.db).guid && v.versionId = nullVersionId) = [] := by
        refine List.filter_eq_nil_iff.mpr fun v hv hself => ?_
        rw [Bool.and_eq_true, decide_eq_true_iff, commitRow,
          upsertObject_of_none (k := (bucket.guid, key)) ho] at hself
        obtain ⟨o, ho, hguid⟩ := List.mem_map.mp (hw.version_object v hv)
        have hlt := hw.object_lt o ho
        rw [hguid, hself.1] at hlt
        exact absurd hlt (Nat.not_lt.mpr hcall)
      rw [hfresh]
      rfl
    | some o =>
      have hrow : (commitRow call (bucket.guid, key) w.db).guid = o.guid := by
        rw [commitRow, upsertObject_of_some (k := (bucket.guid, key)) ho]
      have hunique : ∀ v ∈ w.db.objectVersions, ∀ v' ∈ w.db.objectVersions,
          (v.objectGuid = o.guid && v.versionId = nullVersionId : Bool) →
          (v'.objectGuid = o.guid && v'.versionId = nullVersionId : Bool) → v = v' := by
        intro v hv v' hv' h h'
        rw [Bool.and_eq_true, decide_eq_true_iff, decide_eq_true_iff] at h h'
        exact List.inj_on_of_nodup_map hinv.tables.version_id hv hv'
          (Prod.ext (h.1.trans h'.1.symm) (h.2.trans h'.2.symm))
      rw [hrow, Join.filter_eq_find? (List.Nodup.of_map _ hinv.tables.version_id) hunique]
      change ((findVersion o.guid nullVersionId w.db).toList.map _).sum =
        ((findVersion o.guid nullVersionId w.db).map (·.size)).getD 0
      cases hv : findVersion o.guid nullVersionId w.db with
      | none => rfl
      | some v =>
        have hself := List.find?_some hv
        rw [Bool.and_eq_true, decide_eq_true_iff] at hself
        have hversion := hinv.versions v (List.mem_of_find?_eq_some hv)
        change (if decide ((v.objectGuid, bucket.guid) ∈ objectRefs w.db) && v.storagePath.isSome then v.size
          else 0) + 0 = v.size
        rw [hself.1, decide_eq_true (objectRefs_of_found ho), Bool.true_and]
        cases hpath : v.storagePath with
        | some path => rfl
        | none =>
          have hsize := hversion.size
          rw [hpath] at hsize
          exact hsize.symm

/-- **A completed upload gives back what was not listed and what it replaces**, to the byte. -/
structure Balances (w : World) (bucket : BucketContext) (uploadId : Text) (parts : List CompletePart)
    (w' : World) : Prop where
  balance : ∃ u, findUpload bucket.guid uploadId w.db = some u ∧
    bytesOf bucket.guid w' + unlistedBytes u.guid parts w.db + replacedBytes bucket u.key w.db =
      bytesOf bucket.guid w
  others : ∀ guid, guid ≠ bucket.guid → bytesOf guid w' = bytesOf guid w

theorem complete_balances {w : World} (hw : Integrity w) (hinv : Inv N w)
    (hdistinct : N.Distinct (w.calls + callsPerRequest)) (bucket : BucketContext) (uploadId : Text)
    (parts : List CompletePart) :
    wp (completeMultipartUpload N bucket uploadId parts)
      (fun _ w' => Balances w bucket uploadId parts w') (fun _ w' => SameUsage w w') w := by
  have hspec := completeMultipartUpload_spec hinv (hdistinct.mono (by simp only [callsPerRequest]; omega))
    bucket uploadId parts
  refine wp_mono (wp_and hspec (completeMultipartUpload_sized bucket uploadId parts w)) ?_
    fun _ _ h => .of_db h.2
  intro r w' h
  obtain ⟨⟨u', contents, hpending, hcompletable, hlisted, -, -, hsize, -⟩, u, db₁, hu,
    ⟨call, versionId, values, hcall, hid, hpath, hvalues, rfl⟩, hdb⟩ := h
  obtain rfl : pendingUpload N w u = u' :=
    Option.some.inj ((pending_of_found (k := (bucket.guid, uploadId)) hu).symm.trans hpending)
  have hcalled : Integrity { w with calls := call } := hw.congr rfl hcall
  have hcommitted := hcalled.commitVersion (N.now call) bucket.guid u.key versionId values
  obtain ⟨objects, objectVersions, hframe⟩ :=
    commitVersion_others call (N.now call) bucket.guid u.key versionId values w.db
  have hcompleted : MultipartUploadStatus.completed ≠ .inProgress := by decide
  have hu₁ : findUpload bucket.guid uploadId
      (Statements.commitVersion call (N.now call) bucket.guid u.key versionId values w.db).2 = some u := by
    rw [hframe]
    exact hu
  have hparts : partsOf u.guid
      (Statements.commitVersion call (N.now call) bucket.guid u.key versionId values w.db).2 =
      partsOf u.guid w.db := by
    rw [hframe]
    rfl
  have hclosed : ∀ guid, bytesOf guid w' +
      (if guid = bucket.guid then ((partsOf u.guid w.db).map (·.size)).sum else 0) = (bucketUsage guid
        (Statements.commitVersion call (N.now call) bucket.guid u.key versionId values w.db).2).totalBytes := by
    intro guid
    rw [bytesOf, hdb, ← hparts]
    exact closeUpload_bytes hcommitted hcompleted hu₁ guid
  constructor
  · refine ⟨u, hu, ?_⟩
    have hself := hclosed bucket.guid
    have hcommit : (bucketUsage bucket.guid (Statements.commitVersion call (N.now call) bucket.guid u.key
          versionId values w.db).2).totalBytes +
        ((replacedVersions (commitRow call (bucket.guid, u.key) w.db).guid versionId
          w.db.objectVersions).map (versionCharge bucket.guid w.db)).sum =
        bytesOf bucket.guid w + if bucket.guid = bucket.guid ∧ values.storagePath.isSome then values.size else 0 :=
      commit_bytes hcalled (N.now call) bucket.guid u.key versionId values bucket.guid
    have hreplaced := replaced_bytes hw hinv hcall bucket u.key hid
    have hsum := Join.sum_filter_add_sum_filter_not
      (fun p => decide (p.partNumber ∈ parts.map (·.partNumber))) (·.size) (partsOf u.guid w.db)
    have hbytes := listed_bytes hinv (hcompletable.ascending.imp ne_of_lt) hlisted
    rw [if_pos rfl] at hself
    rw [if_pos ⟨rfl, by rw [hpath]; rfl⟩, hvalues, hsize, hreplaced] at hcommit
    simp only [← decide_not] at hsum
    change _ + unlistedBytes u.guid parts w.db = _ at hsum
    omega
  · intro guid hguid
    have hother := hclosed guid
    rw [if_neg hguid] at hother
    exact hother.trans (commit_bytes_other hcalled (N.now call) hguid u.key versionId values)

/-! ## Operations made of others -/

/-- The states an operation made of others passes through keep what each of its parts keeps. -/
theorem wp_of_keeps_rel {R : World → World → Prop} (hrefl : ∀ w, R w w) {α : Type} {x : Service α} {w : World}
    (hw : Integrity w) (hinv : Inv N w)
    (hdistinct : N.Distinct ((stateAfter x w).calls + callsPerRequest))
    (hkeeps : Keeps (fun w' => KeptInv N w w' ∧ (N.Distinct (w'.calls + callsPerRequest) → Integrity w →
      Inv N w → R w w')) x) : wp x (fun _ w' => R w w') (fun _ w' => R w w') w := by
  have hafter := hkeeps.stateAfter ⟨KeptInv.refl w, fun _ _ _ => hrefl w⟩
  have hrel := hafter.2 hdistinct hw hinv
  rw [wp]
  rw [stateAfter] at hrel
  cases hrun : x w with
  | ok a w' =>
    rw [hrun] at hrel
    exact hrel
  | error e w' =>
    rw [hrun] at hrel
    exact hrel

theorem RaisesBy.refl (bucketGuid : Guid) (w : World) : RaisesBy bucketGuid 0 w w :=
  (SameUsage.of_db rfl).raisesBy bucketGuid 0

theorem delete_keeps_raises (bucket : BucketContext) (key : Text) (versionId accessKeyId : Option Text)
    (w₀ : World) : Keeps (fun w' => KeptInv N w₀ w' ∧ (N.Distinct (w'.calls + callsPerRequest) →
      Integrity w₀ → Inv N w₀ → RaisesBy bucket.guid 0 w₀ w')) (delete N bucket key versionId accessKeyId) :=
  keeps_rel (RaisesBy bucket.guid 0) (fun h h' => h.trans h') (fun w => delete_keeps_inv w bucket key versionId accessKeyId)
    (fun _ hw hinv _ => wp_mono (delete_raises hw hinv bucket key versionId accessKeyId) (fun _ _ h => h)
      fun _ _ h => h.raisesBy bucket.guid 0) w₀

/-- **No bucket but the target of a copy is charged more**, and none but its source less. -/
structure MovesUsage (source target : Guid) (w w' : World) : Prop where
  raised : ∀ guid, guid ≠ target → bytesOf guid w' ≤ bytesOf guid w
  others : ∀ guid, guid ≠ source → guid ≠ target → bytesOf guid w' = bytesOf guid w

theorem MovesUsage.trans {source target : Guid} {w w' w'' : World} (h : MovesUsage source target w w')
    (h' : MovesUsage source target w' w'') : MovesUsage source target w w'' where
  raised := fun guid hguid => (h'.raised guid hguid).trans (h.raised guid hguid)
  others := fun guid hs ht => (h'.others guid hs ht).trans (h.others guid hs ht)

/-- What raises the target, or takes from the source. -/
theorem RaisesBy.movesTo {target : Guid} {n : ℕ} {w w' : World} (h : RaisesBy target n w w') (source : Guid) :
    MovesUsage source target w w' :=
  ⟨fun guid hguid => (h.others guid hguid).le, fun guid _ hguid => h.others guid hguid⟩

theorem RaisesBy.movesFrom {source : Guid} {w w' : World} (h : RaisesBy source 0 w w') (target : Guid) :
    MovesUsage source target w w' := by
  refine ⟨fun guid _ => ?_, fun guid hguid _ => h.others guid hguid⟩
  by_cases hguid : guid = source
  · exact hguid ▸ h.raised
  · exact (h.others guid hguid).le

theorem copyKeys_keeps_moves (source target : BucketContext) (sourceKey targetKey : Text) (move : Bool)
    (accessKeyId : Option Text) (w₀ : World) : Keeps (fun w' => KeptInv N w₀ w' ∧
      (N.Distinct (w'.calls + callsPerRequest) → Integrity w₀ → Inv N w₀ →
        MovesUsage source.guid target.guid w₀ w'))
      (copyKeys N source target sourceKey targetKey move accessKeyId) := by
  have htrans : ∀ {w w' w''}, MovesUsage source.guid target.guid w w' →
      MovesUsage source.guid target.guid w' w'' → MovesUsage source.guid target.guid w w'' :=
    fun h h' => h.trans h'
  have hput : ∀ params : PutObjectParams, params.bucket = target → Keeps (fun w' => KeptInv N w₀ w' ∧
      (N.Distinct (w'.calls + callsPerRequest) → Integrity w₀ → Inv N w₀ →
        MovesUsage source.guid target.guid w₀ w')) (put N params) := by
    intro params hbucket
    refine keeps_rel (MovesUsage source.guid target.guid) htrans (fun w => put_keeps_inv w params) (fun w hw hinv hdistinct => ?_) w₀
    refine wp_mono (put_raises hw hinv hdistinct params) ?_ ?_
    · intro _ w' h
      exact hbucket ▸ h.2.2.movesTo source.guid
    · intro _ w' h
      exact (h.raisesBy target.guid 0).movesTo source.guid
  have hdelete : ∀ key, Keeps (fun w' => KeptInv N w₀ w' ∧
      (N.Distinct (w'.calls + callsPerRequest) → Integrity w₀ → Inv N w₀ →
        MovesUsage source.guid target.guid w₀ w')) (delete N source key none accessKeyId) := by
    intro key
    refine keeps_rel (MovesUsage source.guid target.guid) htrans (fun w => delete_keeps_inv w source key none accessKeyId)
      (fun w hw hinv _ => ?_) w₀
    refine wp_mono (delete_raises hw hinv source key none accessKeyId) ?_ ?_
    · intro _ w' h
      exact h.movesFrom target.guid
    · intro _ w' h
      exact (h.raisesBy source.guid 0).movesFrom target.guid
  refine copyKeys_keeps (fun w h => ⟨h.1.draw, fun hdistinct hw hinv => ?_⟩) hput hdelete sourceKey
    targetKey move
  have hmoves := h.2 (hdistinct.mono (Nat.add_le_add_right (Nat.le_succ _) _)) hw hinv
  exact ⟨hmoves.raised, hmoves.others⟩

/-! ## All operations -/

variable (N) in
/-- **What a request that goes through does to usage.** -/
def ChangesUsage (w w' : World) : KeyRequest → Prop
  | .object (.put params) => ∃ content, served N w' (params.bucket.guid, params.key) = some content ∧
      RaisesBy params.bucket.guid content.length w w'
  | .object (.copy _ target key _ _ _) => ∃ content, served N w' (target.guid, key) = some content ∧
      RaisesBy target.guid content.length w w'
  | .createFolder bucket key _ => served N w' (bucket.guid, folderKeyOf key) = some [] ∧
      RaisesBy bucket.guid 0 w w'
  | .object (.uploadPart bucket uploadId partNumber _ _ _ _)
  | .uploadPartCopy bucket uploadId partNumber _ _ =>
      ∃ u content, pending N w' (bucket.guid, uploadId) = some u ∧ u.parts partNumber = some content ∧
        RaisesBy bucket.guid content.length w w'
  | .object (.create ..) => SameUsage w w'
  | .object (.complete bucket uploadId parts) => Balances w bucket uploadId parts w'
  | .object (.abort bucketGuid _) => RaisesBy bucketGuid 0 w w'
  | .object (.delete bucket _ _ _) | .deleteMany bucket _ _ | .deleteByPrefix bucket _ _ =>
      RaisesBy bucket.guid 0 w w'
  | .copyKeys source target _ _ _ _ => MovesUsage source.guid target.guid w w'

/-- What one that fails does: nothing, unless it failed halfway through its keys. -/
def RefusedUsage (w w' : World) : KeyRequest → Prop
  | .deleteMany bucket _ _ | .deleteByPrefix bucket _ _ => RaisesBy bucket.guid 0 w w'
  | .copyKeys source target _ _ _ _ => MovesUsage source.guid target.guid w w'
  | _ => SameUsage w w'

/-- What is done does not depend on what is made of the result. -/
theorem wp_discard {α : Type} {x : Service α} {post : World → Prop} {fail : Fault → World → Prop} {w : World}
    (h : wp x (fun _ => post) fail w) : wp (do let _ ← x) (fun _ => post) fail w := by
  rw [wp_bind]
  exact h

theorem request_usage {w : World} (hw : Integrity w) (hinv : Inv N w) (r : KeyRequest)
    (hdistinct : N.Distinct ((stateAfter (r.program N) w).calls + callsPerRequest)) :
    wp (r.program N) (fun _ w' => ChangesUsage N w w' r) (fun _ w' => RefusedUsage w w' r) w := by
  have hle := ((request_keeps_inv w r).stateAfter (KeptInv.refl (N := N) w)).calls_le
  have hready : N.Distinct (w.calls + callsPerRequest) := hdistinct.mono (Nat.add_le_add_right hle _)
  cases r with
  | object r =>
    cases r with
    | put params =>
      exact wp_discard (wp_mono (put_raises hw hinv hready params) (fun _ _ h => ⟨_, h.2⟩) fun _ _ h => h)
    | copy => exact wp_discard (copy_raises hw hinv hready _ _ _ _ _ _)
    | delete => exact wp_discard (delete_raises hw hinv _ _ _ _)
    | create =>
      exact wp_discard (wp_mono (create_raises hw hinv _ _ _ _) (fun _ _ h => h) fun _ _ h => h.elim)
    | uploadPart => exact wp_discard (uploadPart_raises hw hinv hready _ _ _ _ _ _ _)
    | complete => exact wp_discard (complete_balances hw hinv hready _ _ _)
    | abort => exact abort_raises hw _ _
  | copyKeys =>
    exact wp_of_keeps_rel (fun w => (RaisesBy.refl _ w).movesTo _) hw hinv hdistinct
      ((copyKeys_keeps_moves _ _ _ _ _ _ w).bind fun _ => .pure ())
  | createFolder => exact wp_discard (createFolder_raises hw hinv hready _ _ _)
  | deleteMany =>
    exact wp_of_keeps_rel (RaisesBy.refl _) hw hinv hdistinct
      ((deleteMany_keeps fun _ _ => delete_keeps_raises _ _ _ _ w).bind fun _ => .pure ())
  | deleteByPrefix =>
    exact wp_of_keeps_rel (RaisesBy.refl _) hw hinv hdistinct
      ((deleteByPrefix_keeps (fun _ => delete_keeps_raises _ _ _ _ w) _).bind fun _ => .pure ())
  | uploadPartCopy => exact wp_discard (uploadPartCopy_raises hw hinv hready _ _ _ _ _)

variable (N) in
/-- **What one request does to the usage of all buckets**, by whether it goes through. -/
def UsageRule (w : World) (r : KeyRequest) : Prop :=
  match outcome (r.program N) w with
  | .ok _ => ChangesUsage N w (stateAfter (r.program N) w) r
  | .error _ => RefusedUsage w (stateAfter (r.program N) w) r

/-- **Only writes and stored parts raise usage**, after any run of requests: by what they stored at
most, while a completed upload is settled to the byte and no other bucket's usage changes. -/
theorem usage_rule {w₀ : World} (hempty : Empty w₀.db) (hbuckets : (w₀.db.buckets.map (·.guid)).Nodup)
    (requests : List KeyRequest) (r : KeyRequest)
    (hdistinct : N.Distinct ((runAll (KeyRequest.program N) (requests ++ [r]) w₀).calls + callsPerRequest)) :
    UsageRule N (runAll (KeyRequest.program N) requests w₀) r := by
  rw [runAll_append, runAll_cons, runAll_nil] at hdistinct
  have hle := ((request_keeps_inv (runAll (KeyRequest.program N) requests w₀) r).stateAfter
    (KeptInv.refl (N := N) _)).calls_le
  have hinv := runAll_inv hempty (hdistinct.mono (Nat.add_le_add_right hle _))
  have hrule := request_usage (runAll_integrity hempty hbuckets requests) hinv r hdistinct
  rw [UsageRule]
  rcases outcome_of_wp hrule with ⟨_, hrun, hchanges⟩ | ⟨e, hrun, hrefused⟩
  · rw [hrun]
    exact hchanges
  · rw [hrun]
    exact hrefused

/-- An upload in one part, completed. -/
theorem usage_rule_uploadOnePart : UsageRule Node.counting
    (runAll (KeyRequest.program Node.counting) ((uploadOnePart ['a']).take 2) emptyStore)
    (.object (.complete openContext (Codec.base64url.encode (Node.counting.randomBytes 0 24))
      [⟨1, Codec.hex (Node.counting.md5 [1, 2])⟩])) :=
  @usage_rule Node.counting emptyStore ⟨rfl, rfl, rfl, rfl⟩ List.nodup_nil _ _
    (Node.distinct_counting.mono (by decide +kernel))

end UsageService
end SimpleStorage
