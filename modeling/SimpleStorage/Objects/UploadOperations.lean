import SimpleStorage.Objects.KeyOperations

/-!
# Operations on an upload

What the operations on uploads in parts do to what a client sees: creating one, storing a
part of it, putting the parts together and giving it up.

* `createMultipartUpload_spec`, `uploadPart_spec`, `abortMultipartUpload_spec`: they change one
  upload and no key;
* `completeMultipartUpload_spec`: the listed parts, in a row, are the newest version of the
  upload's key, and the upload is gone.
-/

namespace SimpleStorage
namespace ObjectsService

open ObjectsTypes Program Statements StorageService

variable {N : Node}

/-! ## Finding uploads and parts -/

theorem findUpload_eq_some {k : BucketUpload} {db : Database} {u : MultipartUploadRow}
    (hids : (db.multipartUploads.map (·.uploadId)).Nodup) :
    findUpload k.1 k.2 db = some u ↔
      u ∈ db.multipartUploads ∧ u.uploadId = k.2 ∧ u.bucketGuid = k.1 ∧ u.status = .inProgress := by
  constructor
  · intro h
    have hp := List.find?_some h
    rw [Bool.and_eq_true, Bool.and_eq_true, decide_eq_true_iff, decide_eq_true_iff,
      decide_eq_true_iff] at hp
    exact ⟨List.mem_of_find?_eq_some h, hp.1.1, hp.1.2, hp.2⟩
  · rintro ⟨hu, hid, hbucket, hstatus⟩
    cases h : findUpload k.1 k.2 db with
    | none =>
      have := List.find?_eq_none.mp h u hu
      simp [hid, hbucket, hstatus] at this
    | some u' =>
      have hp := List.find?_some h
      rw [Bool.and_eq_true, Bool.and_eq_true, decide_eq_true_iff, decide_eq_true_iff,
        decide_eq_true_iff] at hp
      rw [List.inj_on_of_nodup_map hids (List.mem_of_find?_eq_some h) hu (hp.1.1.trans hid.symm)]

theorem findPart_eq_some {uploadGuid : Guid} {n : ℤ} {db : Database} {p : MultipartPartRow}
    (hnumbers : (db.multipartParts.map fun p => (p.uploadGuid, p.partNumber)).Nodup) :
    findPart uploadGuid n db = some p ↔
      p ∈ db.multipartParts ∧ p.uploadGuid = uploadGuid ∧ p.partNumber = n := by
  constructor
  · intro h
    have hp := List.find?_some h
    rw [Bool.and_eq_true, decide_eq_true_iff, decide_eq_true_iff] at hp
    exact ⟨List.mem_of_find?_eq_some h, hp⟩
  · rintro ⟨hp, rfl, rfl⟩
    cases h : findPart p.uploadGuid p.partNumber db with
    | none =>
      have := List.find?_eq_none.mp h p hp
      simp at this
    | some p' =>
      have hp' := List.find?_some h
      rw [Bool.and_eq_true, decide_eq_true_iff, decide_eq_true_iff] at hp'
      rw [List.inj_on_of_nodup_map hnumbers (List.mem_of_find?_eq_some h) hp (Prod.ext hp'.1 hp'.2)]

theorem pending_of_found {w : World} {k : BucketUpload} {u : MultipartUploadRow}
    (h : findUpload k.1 k.2 w.db = some u) : pending N w k = some (pendingUpload N w u) := by
  rw [pending, h, Option.map_some]

theorem pending_of_none {w : World} {k : BucketUpload}
    (h : findUpload k.1 k.2 w.db = none) : pending N w k = none := by
  rw [pending, h, Option.map_none]

/-- Uploads found under different ids are different. -/
theorem guid_ne_of_found {w : World} (hw : Inv N w) {k l : BucketUpload} {u v : MultipartUploadRow}
    (hu : findUpload k.1 k.2 w.db = some u) (hv : findUpload l.1 l.2 w.db = some v) (h : l ≠ k) :
    v.guid ≠ u.guid := by
  obtain ⟨hmem, hid, hbucket, -⟩ := (findUpload_eq_some hw.upload_id).mp hu
  obtain ⟨hmem', hid', hbucket', -⟩ := (findUpload_eq_some hw.upload_id).mp hv
  intro hguid
  obtain rfl := List.inj_on_of_nodup_map hw.upload_guid hmem' hmem hguid
  exact h (Prod.ext (hbucket'.symm.trans hbucket) (hid'.symm.trans hid))

/-! ## Creating an upload -/

theorem findUpload_insertUpload (k : BucketUpload) (u : MultipartUploadRow) (db : Database) :
    findUpload k.1 k.2 (insertUpload u db) = (findUpload k.1 k.2 db).or
      (if u.uploadId = k.2 ∧ u.bucketGuid = k.1 ∧ u.status = .inProgress then some u else none) := by
  rw [findUpload, insertUpload, List.find?_append, findUpload]
  congr 1
  by_cases h : u.uploadId = k.2 ∧ u.bucketGuid = k.1 ∧ u.status = .inProgress
  · rw [if_pos h, List.find?_cons_of_pos (by simp [h])]
  · rw [if_neg h, List.find?_cons_of_neg (by simpa [and_assoc] using h), List.find?_nil]

section Insert

variable {w : World} (row : MultipartUploadRow) {n : ℕ} (hw : Inv N w)
  (hfresh : ∀ u ∈ w.db.multipartUploads, u.uploadId ≠ row.uploadId) (hguid : w.calls ≤ row.guid)
include hw hfresh hguid

theorem Inv.insertUpload (hn : w.calls ≤ n) (hrow : UploadInv N { w with calls := n } row) :
    Inv N { w with calls := n, db := Statements.insertUpload row w.db } where
  tables := hw.tables.congr rfl rfl
  objects := fun o ho => (hw.objects o ho).trans_le hn
  versions := fun v hv => (hw.versions v hv).mono hn rfl
  uploads := fun u hu => by
    rcases List.mem_append.mp hu with hu | hu
    · exact (hw.uploads u hu).mono hn
    · rw [List.mem_singleton.mp hu]
      exact ⟨hrow.guid, hrow.uploadId⟩
  upload_guid := nodup_map_append_singleton hw.upload_guid fun u hu =>
    ((hw.uploads u hu).guid.trans_le hguid).ne
  upload_id := nodup_map_append_singleton hw.upload_id hfresh
  parts := fun p hp => (hw.parts p hp).mono hn rfl
  part_number := hw.part_number
  blobs := ⟨hw.blobs.versions, hw.blobs.parts, hw.blobs.apart⟩

theorem pending_insertUpload (hstatus : row.status = .inProgress) :
    pending N { w with calls := n, db := Statements.insertUpload row w.db } =
      Function.update (pending N w) (row.bucketGuid, row.uploadId)
        (some ⟨row.key, row.headers, fun _ => none⟩) := by
  funext k
  rw [pending, findUpload_insertUpload]
  by_cases hk : k = (row.bucketGuid, row.uploadId)
  · subst hk
    have hnone : findUpload row.bucketGuid row.uploadId w.db = none := by
      rw [findUpload, List.find?_eq_none]
      intro u hu
      simp [hfresh u hu]
    have hparts : ∀ i, findPart row.guid i w.db = none := by
      intro i
      rw [findPart, List.find?_eq_none]
      intro p hp
      have hne : p.uploadGuid ≠ row.guid := ((hw.parts p hp).uploadGuid.trans_le hguid).ne
      simp [hne]
    rw [Function.update_self, hnone, Option.none_or, if_pos ⟨rfl, rfl, hstatus⟩, Option.map_some]
    refine congrArg (fun parts => some (PendingUpload.mk row.key row.headers parts)) ?_
    funext i
    change (findPart row.guid i w.db).bind _ = none
    rw [hparts, Option.bind_none]
  · have hne : ¬ (row.uploadId = k.2 ∧ row.bucketGuid = k.1 ∧ row.status = .inProgress) :=
      fun h => hk (Prod.ext h.2.1.symm h.1.symm)
    rw [Function.update_of_ne hk, if_neg hne, Option.or_none, pending]
    rfl

end Insert

/-- **A new upload has an id of its own and no parts.** -/
theorem createMultipartUpload_spec {w : World} (hw : Inv N w) (hdistinct : N.Distinct (w.calls + 2))
    (bucket : BucketContext) (key : Text) (accessKeyId : Option Text) (headers : ObjectHeaders) :
    wp (createMultipartUpload N bucket key accessKeyId headers)
      (fun uploadId w' => (∀ b, pending N w (b, uploadId) = none) ∧
        Effect N w w' (versions N w) (Function.update (pending N w) (bucket.guid, uploadId)
          (some ⟨key, toVersionColumns headers, fun _ => none⟩)))
      (fun _ _ => False) w := by
  have hfresh : ∀ u ∈ w.db.multipartUploads,
      u.uploadId ≠ Codec.base64url.encode (N.randomBytes w.calls 24) := by
    intro u hu h
    obtain ⟨t, ht, hut⟩ := (hw.uploads u hu).uploadId
    have heq : N.randomBytes t 24 = N.randomBytes w.calls 24 := by
      rw [← Codec.unbase64_encode Codec.base64url_readable (N.randomBytes t 24), ← hut, h,
        Codec.unbase64_encode Codec.base64url_readable]
    have := hdistinct.uploadId t (by omega) w.calls (by omega) heq
    omega
  have hcalls : w.calls ≤ w.calls + 1 + 1 := by omega
  have hinv := Inv.insertUpload ⟨w.calls + 1, _, bucket.guid, key, .inProgress,
    toVersionColumns headers, accessKeyId, N.now (w.calls + 1)⟩ hw hfresh (Nat.le_succ _) hcalls
    ⟨Nat.lt_succ_self _, w.calls, Nat.lt_succ_of_le (Nat.le_succ _), rfl⟩
  have hpending := pending_insertUpload (n := w.calls + 1 + 1) ⟨w.calls + 1, _, bucket.guid, key,
    .inProgress, toVersionColumns headers, accessKeyId, N.now (w.calls + 1)⟩ hw hfresh
    (Nat.le_succ _) rfl
  refine ⟨fun b => ?_, hinv, ?_, hpending, rfl, rfl, ?_, ?_⟩
  · rw [pending, Option.map_eq_none_iff, findUpload, List.find?_eq_none]
    intro u hu
    simp [hfresh u hu]
  · rw [versions, history_congr rfl rfl]
    rfl
  · change w.calls ≤ w.calls + 1 + 1
    omega
  · change w.calls + 1 + 1 ≤ w.calls + 8
    omega

/-! ## Storing a part -/

/-- The row a part has after `upsertPart`. -/
def upsertedPart (part : MultipartPartRow) (db : Database) : MultipartPartRow :=
  match findPart part.uploadGuid part.partNumber db with
  | some old => { part with createdAt := old.createdAt }
  | none => part

theorem upsertedPart_eq (part : MultipartPartRow) (db : Database) :
    ∃ createdAt, upsertedPart part db = { part with createdAt } := by
  rw [upsertedPart]
  cases findPart part.uploadGuid part.partNumber db with
  | some old => exact ⟨_, rfl⟩
  | none => exact ⟨part.createdAt, rfl⟩

section Upsert

variable {part : MultipartPartRow} {db : Database}
  (hnumbers : (db.multipartParts.map fun p => (p.uploadGuid, p.partNumber)).Nodup)
include hnumbers

/-- The parts after `upsertPart`: the new one, and those with other numbers. -/
theorem mem_upsertPart {p : MultipartPartRow} : p ∈ (upsertPart part db).multipartParts ↔
    p = upsertedPart part db ∨
      p ∈ db.multipartParts ∧ (p.uploadGuid, p.partNumber) ≠ (part.uploadGuid, part.partNumber) := by
  rw [upsertPart, upsertedPart]
  cases hold : findPart part.uploadGuid part.partNumber db with
  | none =>
    have hne : ∀ p ∈ db.multipartParts,
        (p.uploadGuid, p.partNumber) ≠ (part.uploadGuid, part.partNumber) := by
      intro p hp h
      obtain ⟨hguid, hnumber⟩ := Prod.mk.inj h
      have := List.find?_eq_none.mp hold p hp
      simp [hguid, hnumber] at this
    rw [List.mem_append, List.mem_singleton, or_comm]
    exact or_congr Iff.rfl ⟨fun hp => ⟨hp, hne p hp⟩, fun hp => hp.1⟩
  | some old =>
    obtain ⟨hmem, hguid, hnumber⟩ := (findPart_eq_some hnumbers).mp hold
    rw [List.mem_map]
    constructor
    · rintro ⟨q, hq, rfl⟩
      by_cases h : q.uploadGuid = part.uploadGuid ∧ q.partNumber = part.partNumber
      · have hqold : q = old := List.inj_on_of_nodup_map hnumbers hq hmem
          (Prod.ext (h.1.trans hguid.symm) (h.2.trans hnumber.symm))
        rw [if_pos h, hqold]
        exact Or.inl (by rw [hguid, hnumber])
      · rw [if_neg h]
        exact Or.inr ⟨hq, fun hq' => h (Prod.mk.inj hq')⟩
    · rintro (rfl | ⟨hp, hne⟩)
      · exact ⟨old, hmem, by rw [if_pos ⟨hguid, hnumber⟩, hguid, hnumber]⟩
      · exact ⟨p, hp, if_neg fun h => hne (Prod.ext h.1 h.2)⟩

theorem upsertPart_numbers :
    ((upsertPart part db).multipartParts.map fun p => (p.uploadGuid, p.partNumber)).Nodup := by
  rw [upsertPart]
  cases hold : findPart part.uploadGuid part.partNumber db with
  | none =>
    refine nodup_map_append_singleton hnumbers fun p hp h => ?_
    obtain ⟨hguid, hnumber⟩ := Prod.mk.inj h
    have := List.find?_eq_none.mp hold p hp
    simp [hguid, hnumber] at this
  | some old =>
    have hsame : (db.multipartParts.map fun p =>
        if p.uploadGuid = part.uploadGuid ∧ p.partNumber = part.partNumber then
          ({ p with
            size := part.size
            etag := part.etag
            storagePath := part.storagePath
            sse := part.sse } : MultipartPartRow)
        else p).map (fun p => (p.uploadGuid, p.partNumber)) =
        db.multipartParts.map fun p => (p.uploadGuid, p.partNumber) := by
      rw [List.map_map]
      refine List.map_congr_left fun p _ => ?_
      rw [Function.comp_apply]
      split_ifs <;> rfl
    exact hsame ▸ hnumbers

theorem findPart_upsertPart (uploadGuid : Guid) (n : ℤ) :
    findPart uploadGuid n (upsertPart part db) =
      if uploadGuid = part.uploadGuid ∧ n = part.partNumber then some (upsertedPart part db)
      else findPart uploadGuid n db := by
  have hnumbers' : ((upsertPart part db).multipartParts.map fun p => (p.uploadGuid, p.partNumber)).Nodup :=
    upsertPart_numbers hnumbers
  obtain ⟨createdAt, hupserted⟩ := upsertedPart_eq part db
  split_ifs with h
  · rw [findPart_eq_some hnumbers']
    refine ⟨(mem_upsertPart hnumbers).mpr (Or.inl rfl), ?_⟩
    rw [hupserted]
    exact ⟨h.1.symm, h.2.symm⟩
  · ext p
    rw [findPart_eq_some hnumbers', findPart_eq_some hnumbers,
      mem_upsertPart hnumbers]
    constructor
    · rintro ⟨rfl | ⟨hp, -⟩, hguid, hnumber⟩
      · rw [hupserted] at hguid hnumber
        exact absurd ⟨hguid.symm, hnumber.symm⟩ h
      · exact ⟨hp, hguid, hnumber⟩
    · rintro ⟨hp, rfl, rfl⟩
      exact ⟨Or.inr ⟨hp, fun hne => h (Prod.mk.inj hne)⟩, rfl, rfl⟩

end Upsert

section StorePart

variable {w : World} {part : MultipartPartRow} {n : ℕ} {content : Bytes}

/-- Rows and blobs after a part was stored. -/
theorem Inv.upsertPart (hw : Inv N w) (hn : w.calls ≤ n)
    (hpart : PartInv N { w with calls := n } part) (hpath : Unreferenced w.db part.storagePath) :
    Inv N { w with calls := n, db := Statements.upsertPart part w.db } where
  tables := hw.tables.congr rfl rfl
  objects := fun o ho => (hw.objects o ho).trans_le hn
  versions := fun v hv => (hw.versions v hv).mono hn rfl
  uploads := fun u hu => (hw.uploads u hu).mono hn
  upload_guid := hw.upload_guid
  upload_id := hw.upload_id
  parts := fun p hp => by
    obtain ⟨createdAt, hupserted⟩ := upsertedPart_eq part w.db
    rcases (mem_upsertPart hw.part_number).mp hp with rfl | ⟨hp, -⟩
    · rw [hupserted]
      exact ⟨hpart.uploadGuid, hpart.generated, hpart.readable⟩
    · exact (hw.parts p hp).mono hn rfl
  part_number := upsertPart_numbers hw.part_number
  blobs := by
    obtain ⟨createdAt, hupserted⟩ := upsertedPart_eq part w.db
    have hstorage : (upsertedPart part w.db).storagePath = part.storagePath := by rw [hupserted]
    refine ⟨hw.blobs.versions, fun p hp q hq h => ?_, fun v hv p hp h => ?_⟩
    · rcases (mem_upsertPart hw.part_number).mp hp with rfl | ⟨hp, -⟩ <;>
        rcases (mem_upsertPart hw.part_number).mp hq with rfl | ⟨hq, -⟩
      · rfl
      · exact absurd (h.symm.trans hstorage) (hpath.parts q hq)
      · exact absurd (h.trans hstorage) (hpath.parts p hp)
      · exact hw.blobs.parts p hp q hq h
    · rcases (mem_upsertPart hw.part_number).mp hp with rfl | ⟨hp, -⟩
      · exact hpath.versions v hv (h.trans (congrArg some hstorage))
      · exact hw.blobs.apart v hv p hp h

/-- What a client sees after a part was stored. -/
theorem pending_upsertPart (hw : Inv N w) {k : BucketUpload} {u : MultipartUploadRow}
    (hu : findUpload k.1 k.2 w.db = some u) (hguid : part.uploadGuid = u.guid)
    (hcontent : payloadOf N w (some part.storagePath) part.sse = some content) :
    pending N { w with calls := n, db := Statements.upsertPart part w.db } =
      Function.update (pending N w) k (some { pendingUpload N w u with
        parts := Function.update (pendingUpload N w u).parts part.partNumber (some content) }) := by
  obtain ⟨createdAt, hupserted⟩ := upsertedPart_eq part w.db
  have hfind : ∀ l : BucketUpload, findUpload l.1 l.2 (Statements.upsertPart part w.db) =
      findUpload l.1 l.2 w.db := fun _ => rfl
  funext l
  rw [pending, hfind]
  by_cases hl : l = k
  · subst hl
    rw [Function.update_self, hu, Option.map_some]
    refine congrArg (fun parts => some (PendingUpload.mk u.key u.headers parts)) ?_
    funext i
    change (findPart u.guid i (Statements.upsertPart part w.db)).bind _ = _
    rw [findPart_upsertPart hw.part_number]
    by_cases hi : i = part.partNumber
    · rw [hi, Function.update_self, if_pos ⟨hguid.symm, rfl⟩, Option.bind_some, hupserted]
      exact hcontent
    · rw [Function.update_of_ne hi, if_neg fun h => hi h.2]
      rfl
  · rw [Function.update_of_ne hl, pending]
    cases hv : findUpload l.1 l.2 w.db with
    | none => rfl
    | some v =>
      have hne := guid_ne_of_found hw hu hv hl
      rw [Option.map_some, Option.map_some]
      refine congrArg (fun parts => some (PendingUpload.mk v.key v.headers parts)) ?_
      funext i
      change (findPart v.guid i (Statements.upsertPart part w.db)).bind _ = _
      rw [findPart_upsertPart hw.part_number, if_neg fun h => hne (h.1.trans hguid)]
      rfl

end StorePart

theorem requireUpload_spec (w : World) (bucketGuid : Guid) (uploadId : Text) :
    wp (requireUpload bucketGuid uploadId)
      (fun u w' => w' = w ∧ findUpload bucketGuid uploadId w.db = some u)
      (fun e w' => w' = w ∧ e = .uploadNotFound ∧ findUpload bucketGuid uploadId w.db = none) w := by
  rw [requireUpload, wp_bind, World.selectFor, wp_observe, wp_orThrow]
  exact ⟨fun u hu => ⟨rfl, hu⟩, fun h => ⟨rfl, rfl, h⟩⟩

/-- **A part stored is a part of its upload**, in place of the one with its number. -/
theorem uploadPart_spec {w : World} (hw : Inv N w) (hdistinct : N.Distinct (w.calls + 6))
    (bucket : BucketContext) (uploadId : Text) (partNumber : ℤ) (stream : Readable)
    (contentMd5 : Option Text) (declaredLength maxBytes : Option ℕ) :
    wp (uploadPart N bucket uploadId partNumber stream contentMd5 declaredLength maxBytes)
      (fun r w' => ∃ u, pending N w (bucket.guid, uploadId) = some u ∧
        1 ≤ partNumber ∧ partNumber ≤ 10000 ∧ r.etag = Codec.hex (N.md5 stream.content) ∧
        r.size = stream.content.length ∧
        Effect N w w' (versions N w) (Function.update (pending N w) (bucket.guid, uploadId)
          (some { u with parts := Function.update u.parts partNumber (some stream.content) })))
      (fun e w' => Unchanged N w w' ∧
        (e = .uploadNotFound ∧ pending N w (bucket.guid, uploadId) = none ∨
          e = .invalidPart ∧ ¬ (1 ≤ partNumber ∧ partNumber ≤ 10000) ∨ e ∈ putFaults)) w := by
  have hrefl : Unchanged N w w := Effect.of_quiet hw (Quiet.refl w) rfl (Nat.le_add_right _ _)
  rw [uploadPart, wp_bind]
  refine wp_mono (requireUpload_spec w bucket.guid uploadId) ?_ ?_
  swap
  · rintro e w' ⟨hsame, he, hnone⟩
    exact ⟨hsame ▸ hrefl, Or.inl ⟨he, pending_of_none hnone⟩⟩
  rintro u w₀ ⟨hsame, hu⟩
  have hfound := pending_of_found (N := N) (k := (bucket.guid, uploadId)) hu
  rw [hsame, wp_bind, wp_require]
  refine ⟨fun hnumber => ?_, fun hnumber => ⟨hrefl, Or.inr (Or.inl ⟨rfl, hnumber⟩)⟩⟩
  rw [wp_bind, assertWithinMaxBytes, wp_require]
  refine ⟨fun _ => ?_, fun _ => ⟨hrefl, Or.inr (Or.inr (by decide))⟩⟩
  rw [wp_bind]
  refine wp_mono (UsageService.assertQuota_spec _ _ w) ?_ fun e w' h =>
    ⟨h.1 ▸ hrefl, Or.inr (Or.inr (mem_putFaults_of_quota h.2))⟩
  intro _ w₀ hsame
  rw [hsame, wp_bind]
  refine wp_mono (write_spec stream maxBytes w) ?_ ?_
  swap
  · rintro e w' ⟨hconfined, hcalls, he⟩
    refine ⟨Effect.of_quiet hw (Quiet.of_confined hw hconfined (hdistinct.mono (by omega)))
      hconfined.encryption ?_, Or.inr (Or.inr (mem_putFaults_of_write he))⟩
    change w'.calls ≤ w.calls + 8
    omega
  intro written w₁ hwritten
  have hcalls := hwritten.calls
  have hcalls' := hwritten.calls_le
  have hquiet := Quiet.of_confined hw hwritten.confined (hdistinct.mono (by omega))
  have hw₁ := hquiet.inv hw
  rw [wp_bind]
  refine wp_mono (checkWritten_spec hw hwritten (hdistinct.mono (by omega)) bucket contentMd5) ?_
    fun e w' h => ⟨h.1, Or.inr (Or.inr h.2)⟩
  intro _ w₀ hsame
  rw [hsame, wp_bind, World.select, wp_query, wp_bind, World.insertFor, wp_perform]
  generalize hpart : MultipartPartRow.mk u.guid partNumber written.size written.etag
    written.storagePath (toEncryptionColumns written.encryption) (N.now w₁.calls) = part
  have hpartPath : part.storagePath = written.storagePath := by rw [← hpart]
  have hpayload : payloadOf N w₁ (some part.storagePath) part.sse = some stream.content := by
    rw [← hpart]
    exact payloadOf_written hwritten
  have hunreferenced : Unreferenced w₁.db part.storagePath := by
    rw [hpartPath, hquiet.db]
    exact Unreferenced.of_written hw (hdistinct.mono (by omega)) hwritten.storagePath hcalls
  have hu₁ : findUpload bucket.guid uploadId w₁.db = some u := hquiet.db ▸ hu
  have hpartInv : PartInv N { w₁ with calls := w₁.calls + 1 } part := by
    have huploads := hw₁.uploads u (List.mem_of_find?_eq_some hu₁)
    refine ⟨?_, ?_, stream.content, hpayload, ?_, ?_⟩
    · rw [← hpart]
      exact huploads.guid.trans (Nat.lt_succ_self _)
    · rw [hpartPath]
      exact ⟨w.calls, Nat.lt_succ_of_lt hcalls, hwritten.storagePath⟩
    · rw [← hpart]
      exact hwritten.size
    · rw [← hpart]
      exact hwritten.etag
  have hinv := hw₁.upsertPart (Nat.le_succ _) hpartInv hunreferenced
  have hpending := pending_upsertPart (n := w₁.calls + 1) (k := (bucket.guid, uploadId)) hw₁ hu₁
    (by rw [← hpart]) hpayload
  have heffect : Effect N w { w₁ with calls := w₁.calls + 1, db := Statements.upsertPart part w₁.db }
      (versions N w) (Function.update (pending N w) (bucket.guid, uploadId)
        (some { pendingUpload N w u with
          parts := Function.update (pendingUpload N w u).parts partNumber (some stream.content) })) := by
    have hbuckets : w₁.db.buckets = w.db.buckets := by rw [hquiet.db]
    refine ⟨hinv, ?_, ?_, hbuckets, hwritten.confined.encryption, ?_, ?_⟩
    · rw [← hquiet.versions_eq, versions, history_congr rfl rfl]
      rfl
    · have hsame : pendingUpload N w₁ u = pendingUpload N w u := by
        have h := congrFun (hquiet.pending_eq (N := N)) (bucket.guid, uploadId)
        rw [pending_of_found (k := (bucket.guid, uploadId)) hu₁, hfound] at h
        exact Option.some.inj h
      rw [hpending, hquiet.pending_eq, hsame, ← hpart]
    · change w.calls ≤ w₁.calls + 1
      omega
    · change w₁.calls + 1 ≤ w.calls + 8
      omega
  rw [wp_bind]
  refine wp_mono (heffect.deleteBlobs fun path hpath => ?_) ?_ fun _ _ h => h.elim
  · obtain ⟨old, hold, rfl⟩ := Option.map_eq_some_iff.mp (Option.mem_toList.mp hpath)
    obtain ⟨hmem, hguid, hnumber⟩ := (findPart_eq_some hw₁.part_number).mp hold
    refine ⟨fun v hv => hw₁.blobs.apart v hv old hmem, fun p hp h => ?_⟩
    rcases (mem_upsertPart hw₁.part_number).mp hp with rfl | ⟨hp, hne⟩
    · obtain ⟨createdAt, hupserted⟩ := upsertedPart_eq part w₁.db
      rw [hupserted] at h
      exact hunreferenced.parts old hmem h.symm
    · rw [hw₁.blobs.parts p hp old hmem h, hguid, hnumber, ← hpart] at hne
      exact hne rfl
  · rintro _ w' ⟨heffect', -⟩
    exact ⟨_, hfound, hnumber.1, hnumber.2, hwritten.etag, hwritten.size, heffect'⟩

/-- **A copied part** has the range of the source that was asked for. -/
theorem uploadPartCopy_spec {w : World} (hw : Inv N w) (hdistinct : N.Distinct (w.calls + 6))
    {sourceKey : Text} {s : StoredVersion} {source : ObjectVersionDetail}
    (hsource : Shows N w sourceKey s source) (bucket : BucketContext) (uploadId : Text)
    (partNumber : ℤ) (range : Option StorageTypes.ReadRange) :
    wp (uploadPartCopy N bucket uploadId partNumber source range)
      (fun r w' => ∃ content u, s.payload = some content ∧
        pending N w (bucket.guid, uploadId) = some u ∧ 1 ≤ partNumber ∧ partNumber ≤ 10000 ∧
        r.1.etag = Codec.hex (N.md5 (slice content range)) ∧
        Effect N w w' (versions N w) (Function.update (pending N w) (bucket.guid, uploadId)
          (some { u with parts := Function.update u.parts partNumber (some (slice content range)) })))
      (fun e w' => Unchanged N w w' ∧ (s.payload = none ∧ e = .objectNotFound ∨
        e = .uploadNotFound ∧ pending N w (bucket.guid, uploadId) = none ∨
        e = .invalidPart ∧ ¬ (1 ≤ partNumber ∧ partNumber ≤ 10000) ∨ e ∈ putFaults)) w := by
  have hrefl : Unchanged N w w := Effect.of_quiet hw (Quiet.refl w) rfl (Nat.le_add_right _ _)
  have hpayload := hsource.payload
  have hsome := hsource.storagePath
  rw [uploadPartCopy, wp_bind, wp_orThrow, hsource.present]
  refine ⟨fun path hpath => ?_, fun hpath => ⟨hrefl, Or.inl ⟨?_, rfl⟩⟩⟩
  · rw [hpath, Option.bind_some] at hpayload
    rw [hpath] at hsome
    obtain ⟨content, hcontent⟩ := Option.isSome_iff_exists.mp hsome.symm
    rw [hcontent] at hpayload
    obtain ⟨result, hread, -, hstream⟩ := read_eq hpayload range
    rw [wp_bind, wp, hread]
    dsimp only
    rw [wp_bind]
    refine wp_mono (uploadPart_spec hw hdistinct bucket uploadId partNumber result.stream none none
      none) ?_ fun e w' h => ⟨h.1, Or.inr h.2⟩
    rintro r w' ⟨u, hu, hfirst, hlast, hetag, -, heffect⟩
    rw [hstream] at hetag heffect
    exact ⟨content, u, hcontent, hu, hfirst, hlast, hetag, heffect⟩
  · rw [hpath] at hpayload
    exact hpayload.symm

/-! ## Closing an upload -/

/-- Take an upload out of progress and drop its parts. -/
def closeUpload (uploadGuid : Guid) (status : MultipartUploadStatus) (db : Database) : Database :=
  deleteParts uploadGuid (setUploadStatus uploadGuid status db)

section Close

variable {w : World} {k : BucketUpload} {u : MultipartUploadRow} {status : MultipartUploadStatus}

theorem mem_closeUpload_parts {uploadGuid : Guid} {db : Database} {p : MultipartPartRow} :
    p ∈ (closeUpload uploadGuid status db).multipartParts ↔
      p ∈ db.multipartParts ∧ p.uploadGuid ≠ uploadGuid := by
  rw [closeUpload, deleteParts, List.mem_filter, decide_eq_true_iff]
  rfl

theorem map_closeUpload_uploads {β : Type} (status : MultipartUploadStatus)
    (f : MultipartUploadRow → β) (hf : ∀ u, f { u with status } = f u) (uploadGuid : Guid)
    (db : Database) :
    (closeUpload uploadGuid status db).multipartUploads.map f = db.multipartUploads.map f := by
  change (db.multipartUploads.map _).map f = _
  rw [List.map_map]
  refine List.map_congr_left fun v _ => ?_
  rw [Function.comp_apply]
  split_ifs
  · exact hf v
  · rfl

/-- Rows and blobs after an upload was closed. -/
theorem Inv.closeUpload (hw : Inv N w) (uploadGuid : Guid) :
    Inv N { w with db := ObjectsService.closeUpload uploadGuid status w.db } where
  tables := hw.tables.congr rfl rfl
  objects := hw.objects
  versions := fun v hv => (hw.versions v hv).mono le_rfl rfl
  uploads := fun v hv => by
    obtain ⟨v', hv', rfl⟩ := List.mem_map.mp hv
    have hrow := hw.uploads v' hv'
    split_ifs
    · exact ⟨hrow.guid, hrow.uploadId⟩
    · exact hrow.mono le_rfl
  upload_guid := by
    have h := map_closeUpload_uploads status (·.guid) (fun _ => rfl) uploadGuid w.db
    exact h ▸ hw.upload_guid
  upload_id := by
    have h := map_closeUpload_uploads status (·.uploadId) (fun _ => rfl) uploadGuid w.db
    exact h ▸ hw.upload_id
  parts := fun p hp => (hw.parts p (mem_closeUpload_parts.mp hp).1).mono le_rfl rfl
  part_number := (List.filter_sublist.map _).nodup hw.part_number
  blobs := ⟨hw.blobs.versions,
    fun p hp q hq => hw.blobs.parts p (mem_closeUpload_parts.mp hp).1 q (mem_closeUpload_parts.mp hq).1,
    fun v hv p hp => hw.blobs.apart v hv p (mem_closeUpload_parts.mp hp).1⟩

theorem findPart_closeUpload {uploadGuid : Guid} {db : Database} {guid : Guid}
    (h : guid ≠ uploadGuid) (n : ℤ) :
    findPart guid n (closeUpload uploadGuid status db) = findPart guid n db := by
  rw [findPart, findPart, closeUpload, deleteParts, List.find?_filter]
  change db.multipartParts.find? _ = _
  congr 1
  funext p
  by_cases hp : p.uploadGuid = guid
  · simp [hp, h]
  · simp [hp]

/-- A closed upload is no longer pending, and all others are as before. -/
theorem pending_closeUpload (hw : Inv N w) (hu : findUpload k.1 k.2 w.db = some u)
    (hstatus : status ≠ .inProgress) :
    pending N { w with db := ObjectsService.closeUpload u.guid status w.db } =
      Function.update (pending N w) k none := by
  obtain ⟨hmem, hid, hbucket, -⟩ := (findUpload_eq_some hw.upload_id).mp hu
  have hids : ((ObjectsService.closeUpload u.guid status w.db).multipartUploads.map
      (·.uploadId)).Nodup := by
    have h := map_closeUpload_uploads status (·.uploadId) (fun _ => rfl) u.guid w.db
    exact h ▸ hw.upload_id
  funext l
  by_cases hl : l = k
  · subst hl
    rw [Function.update_self, pending, Option.map_eq_none_iff, findUpload, List.find?_eq_none]
    intro v hv
    obtain ⟨v', hv', rfl⟩ := List.mem_map.mp hv
    split_ifs with hguid
    · simp [hstatus]
    · have hne : v'.uploadId ≠ l.2 := fun h => hguid
        (congrArg _ (List.inj_on_of_nodup_map hw.upload_id hv' hmem (h.trans hid.symm)))
      simp [hne]
  · have hfind : findUpload l.1 l.2 (ObjectsService.closeUpload u.guid status w.db) =
        findUpload l.1 l.2 w.db := by
      ext v
      rw [findUpload_eq_some hids, findUpload_eq_some hw.upload_id]
      constructor
      · rintro ⟨hv, hvid, hvbucket, hvstatus⟩
        obtain ⟨v', hv', rfl⟩ := List.mem_map.mp hv
        split_ifs at * with hguid
        · exact absurd hvstatus hstatus
        · exact ⟨hv', hvid, hvbucket, hvstatus⟩
      · intro hv
        have hne := guid_ne_of_found hw hu ((findUpload_eq_some hw.upload_id).mpr hv) hl
        exact ⟨List.mem_map.mpr ⟨v, hv.1, if_neg hne⟩, hv.2⟩
    rw [Function.update_of_ne hl, pending, pending, hfind]
    cases hv : findUpload l.1 l.2 w.db with
    | none => rfl
    | some v =>
      rw [Option.map_some, Option.map_some]
      refine congrArg (fun parts => some (PendingUpload.mk v.key v.headers parts)) ?_
      funext i
      rw [findPart_closeUpload (guid_ne_of_found hw hu hv hl)]
      rfl

/-- The blobs of a closed upload's parts have no rows. -/
theorem Inv.unreferenced_of_closed (hw : Inv N w) {p : MultipartPartRow}
    (hp : p ∈ w.db.multipartParts) :
    Unreferenced (ObjectsService.closeUpload p.uploadGuid status w.db) p.storagePath where
  versions := fun v hv => hw.blobs.apart v hv p hp
  parts := fun q hq h => by
    obtain ⟨hq, hne⟩ := mem_closeUpload_parts.mp hq
    exact hne (congrArg _ (hw.blobs.parts q hq p hp h))

/-- **Closing an upload** leaves the versions and the other uploads as they are. -/
theorem Effect.closeUpload {w₁ : World} {vs : VersionedMap BucketKey StoredVersion}
    (h : Effect N w w₁ vs (ObjectsService.pending N w)) (status : MultipartUploadStatus)
    (hu : findUpload k.1 k.2 w₁.db = some u) (hstatus : status ≠ .inProgress) :
    Effect N w { w₁ with db := ObjectsService.closeUpload u.guid status w₁.db } vs
      (Function.update (ObjectsService.pending N w) k none) where
  inv := h.inv.closeUpload u.guid
  versions := by
    rw [← h.versions, ObjectsService.versions, history_congr rfl rfl]
    rfl
  pending := by rw [pending_closeUpload h.inv hu hstatus, h.pending]
  buckets := h.buckets
  encryption := h.encryption
  calls_ge := h.calls_ge
  calls_le := h.calls_le

end Close

/-- **An aborted upload is gone** with its parts. -/
theorem abortMultipartUpload_spec {w : World} (hw : Inv N w) (bucketGuid : Guid) (uploadId : Text) :
    wp (abortMultipartUpload bucketGuid uploadId)
      (fun _ w' => pending N w (bucketGuid, uploadId) ≠ none ∧
        Effect N w w' (versions N w) (Function.update (pending N w) (bucketGuid, uploadId) none))
      (fun e w' => Unchanged N w w' ∧ e = .uploadNotFound ∧
        pending N w (bucketGuid, uploadId) = none) w := by
  have hrefl : Unchanged N w w := Effect.of_quiet hw (Quiet.refl w) rfl (Nat.le_add_right _ _)
  rw [abortMultipartUpload, wp_bind]
  refine wp_mono (requireUpload_spec w bucketGuid uploadId) ?_ ?_
  swap
  · rintro e w' ⟨hsame, he, hnone⟩
    exact ⟨hsame ▸ hrefl, he, pending_of_none hnone⟩
  rintro u w₀ ⟨hsame, hu⟩
  have hfound := pending_of_found (N := N) (k := (bucketGuid, uploadId)) hu
  have heffect := hrefl.closeUpload (k := (bucketGuid, uploadId)) .aborted hu nofun
  rw [hsame, wp_bind, World.select, wp_query, wp_bind, World.executeFor, wp_perform, wp_bind,
    World.executeFor, wp_perform]
  refine wp_mono (heffect.deleteBlobs fun path hpath => ?_) ?_ fun _ _ h => h.elim
  · obtain ⟨p, hp, rfl⟩ := List.mem_map.mp hpath
    obtain ⟨hp, hguid⟩ := List.mem_filter.mp hp
    rw [decide_eq_true_iff] at hguid
    exact hguid ▸ hw.unreferenced_of_closed hp
  · rintro _ w' ⟨heffect', -⟩
    exact ⟨by rw [hfound]; exact Option.some_ne_none _, heffect'⟩

/-! ## Completing an upload -/

/-- The parts that were matched are the stored ones a client listed, with their etags. -/
theorem matchRequestedParts_ok {stored ordered : List MultipartPartRow} {previous : Option ℤ}
    {parts : List CompletePart} (h : matchRequestedParts stored previous parts = .ok ordered) :
    List.Forall₂ (fun part found => found ∈ stored ∧ found.partNumber = part.partNumber ∧
      found.etag = part.etag.filter (· ≠ '"')) parts ordered := by
  induction parts generalizing previous ordered with
  | nil =>
    obtain rfl := Except.ok.inj h
    exact .nil
  | cons part rest ih =>
    rw [matchRequestedParts] at h
    split_ifs at h
    cases hfind : stored.find? (·.partNumber = part.partNumber) with
    | none => simp [hfind] at h
    | some found =>
      rw [hfind] at h
      dsimp only at h
      split_ifs at h with hetag hsize
      cases hrest : matchRequestedParts stored (some part.partNumber) rest with
      | error e =>
        rw [hrest] at h
        cases h
      | ok others =>
        rw [hrest] at h
        obtain rfl := Except.ok.inj h
        have hnumber := List.find?_some hfind
        rw [decide_eq_true_iff] at hnumber
        exact .cons ⟨List.mem_of_find?_eq_some hfind, hnumber, not_not.mp hetag⟩ (ih hrest)

/-- The faults with which a list of parts is refused. -/
def completeFaults : List Fault := [.invalidPart, .invalidPartOrder, .partTooSmall]

theorem matchRequestedParts_error {stored : List MultipartPartRow} {previous : Option ℤ}
    {parts : List CompletePart} {e : Fault}
    (h : matchRequestedParts stored previous parts = .error e) : e ∈ completeFaults := by
  induction parts generalizing previous with
  | nil => cases h
  | cons part rest ih =>
    rw [matchRequestedParts] at h
    split_ifs at h
    · obtain rfl := Except.error.inj h
      decide
    · cases hfind : stored.find? (·.partNumber = part.partNumber) with
      | none =>
        rw [hfind] at h
        obtain rfl := Except.error.inj h
        decide
      | some found =>
        rw [hfind] at h
        dsimp only at h
        split_ifs at h
        · obtain rfl := Except.error.inj h
          decide
        · obtain rfl := Except.error.inj h
          decide
        · cases hrest : matchRequestedParts stored (some part.partNumber) rest with
          | error e' =>
            rw [hrest] at h
            obtain rfl := Except.error.inj h
            exact ih hrest
          | ok others =>
            rw [hrest] at h
            cases h

/-- A listed part is a part of the pending upload, and its etag is that of its contents. -/
def Listed (N : Node) (u : PendingUpload) (part : CompletePart) (content : Bytes) : Prop :=
  u.parts part.partNumber = some content ∧
    part.etag.filter (· ≠ '"') = Codec.hex (N.md5 content)

/-- The contents of the matched parts. -/
theorem exists_contents {w : World} (hw : Inv N w) {u : MultipartUploadRow}
    {ordered : List MultipartPartRow} {parts : List CompletePart}
    (h : matchRequestedParts (orderedParts u.guid w.db) none parts = .ok ordered) :
    ∃ contents : List Bytes,
      List.Forall₂ (fun (source : ConcatSource) content =>
        payload N w.encryption w.disk source.storagePath source.encryption = some content)
        (ordered.map fun part => ⟨part.storagePath, toBlobEncryption part.sse⟩) contents ∧
      ordered.map (·.etag) = contents.map (fun content => Codec.hex (N.md5 content)) ∧
      List.Forall₂ (Listed N (pendingUpload N w u)) parts contents := by
  have hrow : ∀ p ∈ orderedParts u.guid w.db, ∃ content,
      payloadOf N w (some p.storagePath) p.sse = some content ∧ p.etag = Codec.hex (N.md5 content) ∧
      (pendingUpload N w u).parts p.partNumber = some content := by
    intro p hp
    obtain ⟨hp, hguid⟩ := List.mem_filter.mp ((List.mem_insertionSort _).mp hp)
    rw [decide_eq_true_iff] at hguid
    obtain ⟨content, hcontent, -, hetag⟩ := (hw.parts p hp).readable
    have hfind : findPart u.guid p.partNumber w.db = some p :=
      (findPart_eq_some hw.part_number).mpr ⟨hp, hguid, rfl⟩
    refine ⟨content, hcontent, hetag, ?_⟩
    change (findPart u.guid p.partNumber w.db).bind _ = some content
    rw [hfind, Option.bind_some, hcontent]
  have hmatched := matchRequestedParts_ok h
  clear h
  induction hmatched with
  | nil => exact ⟨[], .nil, rfl, .nil⟩
  | @cons part found parts ordered hfound _ ih =>
    obtain ⟨hmem, hnumber, hlisted⟩ := hfound
    obtain ⟨content, hcontent, hetag, hpart⟩ := hrow found hmem
    obtain ⟨contents, hpayloads, hetags, hall⟩ := ih
    refine ⟨content :: contents, .cons hcontent hpayloads, ?_, .cons ⟨?_, ?_⟩ hall⟩
    · rw [List.map_cons, List.map_cons, hetag, hetags]
    · rw [← hnumber, hpart]
    · rw [← hlisted, hetag]

/-- **The lists an upload is completed with**: not empty, with ascending numbers, of stored parts with
their etags, and long enough but for the last. -/
structure Completable (N : Node) (stored : ℤ → Option Bytes) (parts : List CompletePart) : Prop where
  nonempty : parts ≠ []
  ascending : (parts.map (·.partNumber)).Pairwise (· < ·)
  listed : ∀ part ∈ parts, ∃ content, stored part.partNumber = some content ∧
    part.etag.filter (· ≠ '"') = Codec.hex (N.md5 content)
  size : ∀ part ∈ parts.dropLast, ∀ content, stored part.partNumber = some content →
    minPartSize ≤ content.length

/-- When a list of parts is matched. -/
theorem matchRequestedParts_isOk {stored : List MultipartPartRow} {previous : Option ℤ}
    {parts : List CompletePart} :
    (∃ ordered, matchRequestedParts stored previous parts = .ok ordered) ↔
      (previous.toList ++ parts.map (·.partNumber)).IsChain (· < ·) ∧
      (∀ part ∈ parts, ∃ found, stored.find? (·.partNumber = part.partNumber) = some found ∧
        found.etag = part.etag.filter (· ≠ '"')) ∧
      ∀ part ∈ parts.dropLast, ∀ found, stored.find? (·.partNumber = part.partNumber) = some found →
        minPartSize ≤ found.size := by
  induction parts generalizing previous with
  | nil =>
    refine iff_of_true ⟨[], rfl⟩ ⟨?_, nofun, nofun⟩
    cases previous with
    | none => exact .nil
    | some n => exact .singleton n
  | cons part rest ih =>
    have hchain : (previous.toList ++ (part :: rest).map (·.partNumber)).IsChain (· < ·) ↔
        previous.any (part.partNumber ≤ ·) = false ∧
          (part.partNumber :: rest.map (·.partNumber)).IsChain (· < ·) := by
      cases previous with
      | none => exact (and_iff_right rfl).symm
      | some n =>
        rw [Option.any_some, decide_eq_false_iff_not, not_le, List.map_cons]
        exact List.isChain_cons_cons
    have hrest := @ih (some part.partNumber)
    rw [Option.toList_some, List.singleton_append] at hrest
    rw [hchain, List.forall_mem_cons, matchRequestedParts]
    cases hprevious : previous.any (part.partNumber ≤ ·) with
    | true => exact iff_of_false (fun ⟨_, h⟩ => nomatch h) fun h => nomatch h.1.1
    | false =>
      rw [if_neg Bool.false_ne_true]
      cases hfind : stored.find? (·.partNumber = part.partNumber) with
      | none => exact iff_of_false (fun ⟨_, h⟩ => nomatch h) fun h => nomatch h.2.1.1
      | some found =>
        dsimp only
        by_cases hetag : found.etag = part.etag.filter (· ≠ '"')
        swap
        · rw [if_pos hetag]
          refine iff_of_false (fun ⟨_, h⟩ => nomatch h) ?_
          rintro ⟨-, ⟨⟨_, ⟨⟩, h⟩, -⟩, -⟩
          exact hetag h
        rw [if_neg (not_not.mpr hetag)]
        have hdropLast : (∀ p ∈ (part :: rest).dropLast, ∀ found',
              stored.find? (·.partNumber = p.partNumber) = some found' → minPartSize ≤ found'.size) ↔
            (rest ≠ [] → minPartSize ≤ found.size) ∧ ∀ p ∈ rest.dropLast, ∀ found',
              stored.find? (·.partNumber = p.partNumber) = some found' → minPartSize ≤ found'.size := by
          rcases rest with _ | ⟨next, rest⟩
          · exact iff_of_true nofun ⟨fun h => absurd rfl h, nofun⟩
          · rw [List.dropLast_cons_cons, List.forall_mem_cons, hfind]
            refine and_congr_left fun _ => ⟨fun h _ => h found rfl, ?_⟩
            rintro h _ ⟨⟩
            exact h (List.cons_ne_nil _ _)
        rw [hdropLast]
        by_cases hsize : rest ≠ [] ∧ found.size < minPartSize
        · rw [if_pos hsize]
          exact iff_of_false (fun ⟨_, h⟩ => nomatch h) fun h => absurd (h.2.2.1 hsize.1) (not_le.mpr hsize.2)
        · rw [if_neg hsize]
          have hmap : (∃ ordered, (matchRequestedParts stored (some part.partNumber) rest).map (found :: ·) =
              .ok ordered) ↔ ∃ ordered, matchRequestedParts stored (some part.partNumber) rest = .ok ordered := by
            cases matchRequestedParts stored (some part.partNumber) rest with
            | error e => exact iff_of_false (fun ⟨_, h⟩ => nomatch h) fun ⟨_, h⟩ => nomatch h
            | ok ordered => exact iff_of_true ⟨_, rfl⟩ ⟨_, rfl⟩
          rw [hmap, hrest]
          have hlong : rest ≠ [] → minPartSize ≤ found.size := fun h =>
            not_lt.mp fun hlt => hsize ⟨h, hlt⟩
          constructor
          · rintro ⟨hchain', hfound, hsizes⟩
            exact ⟨⟨rfl, hchain'⟩, ⟨⟨found, rfl, hetag⟩, hfound⟩, hlong, hsizes⟩
          · rintro ⟨⟨-, hchain'⟩, ⟨-, hfound⟩, -, hsizes⟩
            exact ⟨hchain', hfound, hsizes⟩

/-- The stored part of a number. -/
theorem find_orderedParts {w : World} (hw : Inv N w) (uploadGuid : Guid) (n : ℤ) :
    (orderedParts uploadGuid w.db).find? (·.partNumber = n) = findPart uploadGuid n w.db := by
  have hmem : ∀ p, p ∈ orderedParts uploadGuid w.db ↔ p ∈ w.db.multipartParts ∧ p.uploadGuid = uploadGuid := by
    intro p
    rw [orderedParts, List.mem_insertionSort, partsOf, List.mem_filter, decide_eq_true_iff]
  cases hpart : findPart uploadGuid n w.db with
  | none =>
    refine List.find?_eq_none.mpr fun p hp hnumber => ?_
    rw [decide_eq_true_iff] at hnumber
    have hfound := (findPart_eq_some hw.part_number).mpr ⟨((hmem p).mp hp).1, ((hmem p).mp hp).2, hnumber⟩
    rw [hpart] at hfound
    cases hfound
  | some found =>
    obtain ⟨hfound, hguid, hnumber⟩ := (findPart_eq_some hw.part_number).mp hpart
    cases hfind : (orderedParts uploadGuid w.db).find? (·.partNumber = n) with
    | none =>
      exact absurd (decide_eq_true hnumber) (List.find?_eq_none.mp hfind found ((hmem found).mpr ⟨hfound, hguid⟩))
    | some p =>
      have hp := (hmem p).mp (List.mem_of_find?_eq_some hfind)
      have hnumber' := List.find?_some hfind
      rw [decide_eq_true_iff] at hnumber'
      rw [List.inj_on_of_nodup_map hw.part_number hp.1 hfound
        (Prod.ext (hp.2.trans hguid.symm) (hnumber'.trans hnumber.symm))]

/-- **When an upload can be completed** with a list of parts. -/
theorem completable_iff {w : World} (hw : Inv N w) {u : MultipartUploadRow} {parts : List CompletePart} :
    Completable N (pendingUpload N w u).parts parts ↔
      parts ≠ [] ∧ ∃ ordered, matchRequestedParts (orderedParts u.guid w.db) none parts = .ok ordered := by
  have hpart : ∀ n, (∃ found content, findPart u.guid n w.db = some found ∧
        (pendingUpload N w u).parts n = some content ∧ found.size = content.length ∧
        found.etag = Codec.hex (N.md5 content)) ∨
      findPart u.guid n w.db = none ∧ (pendingUpload N w u).parts n = none := by
    intro n
    change (∃ found content, _ ∧ (findPart u.guid n w.db).bind _ = some content ∧ _) ∨
      _ ∧ (findPart u.guid n w.db).bind _ = none
    cases hfound : findPart u.guid n w.db with
    | none => exact .inr ⟨rfl, rfl⟩
    | some found =>
      obtain ⟨content, hcontent, hsize, hetag⟩ :=
        (hw.parts found ((findPart_eq_some hw.part_number).mp hfound).1).readable
      exact .inl ⟨found, content, rfl, hcontent, hsize, hetag⟩
  rw [matchRequestedParts_isOk, Option.toList_none, List.nil_append, List.isChain_iff_pairwise]
  simp only [find_orderedParts hw]
  have hlisted : ∀ part : CompletePart, (∃ content, (pendingUpload N w u).parts part.partNumber = some content ∧
        part.etag.filter (· ≠ '"') = Codec.hex (N.md5 content)) ↔
      ∃ found, findPart u.guid part.partNumber w.db = some found ∧
        found.etag = part.etag.filter (· ≠ '"') := by
    intro part
    rcases hpart part.partNumber with ⟨found, content, hfound, hcontent, -, hetag⟩ | ⟨hfound, hcontent⟩
    · rw [hfound, hcontent]
      constructor
      · rintro ⟨_, ⟨⟩, h⟩
        exact ⟨found, rfl, hetag.trans h.symm⟩
      · rintro ⟨_, ⟨⟩, h⟩
        exact ⟨content, rfl, h.symm.trans hetag⟩
    · rw [hfound, hcontent]
      exact iff_of_false (fun ⟨_, h, _⟩ => nomatch h) fun ⟨_, h, _⟩ => nomatch h
  have hsizes : ∀ part : CompletePart, (∀ content, (pendingUpload N w u).parts part.partNumber = some content →
        minPartSize ≤ content.length) ↔
      ∀ found, findPart u.guid part.partNumber w.db = some found → minPartSize ≤ found.size := by
    intro part
    rcases hpart part.partNumber with ⟨found, content, hfound, hcontent, hsize, -⟩ | ⟨hfound, hcontent⟩
    · rw [hfound, hcontent]
      simp only [Option.some.injEq, forall_eq', hsize]
    · rw [hfound, hcontent]
      exact iff_of_true nofun nofun
  constructor
  · rintro ⟨hne, hascending, hall, hlong⟩
    exact ⟨hne, hascending, fun part hp => (hlisted part).mp (hall part hp),
      fun part hp => (hsizes part).mp (hlong part hp)⟩
  · rintro ⟨hne, hascending, hall, hlong⟩
    exact ⟨hne, hascending, fun part hp => (hlisted part).mpr (hall part hp),
      fun part hp => (hsizes part).mpr (hlong part hp)⟩

/-- **A completed upload shows its listed parts in a row** as the newest version of its key. -/
theorem completeMultipartUpload_spec {w : World} (hw : Inv N w) (hdistinct : N.Distinct (w.calls + 7))
    (bucket : BucketContext) (uploadId : Text) (parts : List CompletePart) :
    wp (completeMultipartUpload N bucket uploadId parts)
      (fun r w' => ∃ u contents, pending N w (bucket.guid, uploadId) = some u ∧
        Completable N u.parts parts ∧ List.Forall₂ (Listed N u) parts contents ∧ r.key = u.key ∧
        r.etag = multipartEtag N (contents.map fun content => Codec.hex (N.md5 content)) ∧
        r.size = contents.flatten.length ∧ AssignedId N w bucket.versioning r.versionId ∧
        Effect N w w' (VersionedMap.write (·.versionId) (bucket.versioning ≠ .enabled)
          (bucket.guid, u.key) ⟨r.versionId, r.etag, u.headers, some contents.flatten⟩ (versions N w))
          (Function.update (pending N w) (bucket.guid, uploadId) none))
      (fun e w' => Unchanged N w w' ∧
        (e = .uploadNotFound ∧ pending N w (bucket.guid, uploadId) = none ∨
          e ∈ completeFaults ∧ ∀ u, pending N w (bucket.guid, uploadId) = some u →
            ¬ Completable N u.parts parts)) w := by
  have hrefl : Unchanged N w w := Effect.of_quiet hw (Quiet.refl w) rfl (Nat.le_add_right _ _)
  rw [completeMultipartUpload, wp_bind]
  refine wp_mono (requireUpload_spec w bucket.guid uploadId) ?_ ?_
  swap
  · rintro e w' ⟨hsame, he, hnone⟩
    exact ⟨hsame ▸ hrefl, Or.inl ⟨he, pending_of_none hnone⟩⟩
  rintro u w₀ ⟨hsame, hu⟩
  have hfound := pending_of_found (N := N) (k := (bucket.guid, uploadId)) hu
  have hrefused : ¬ (parts ≠ [] ∧ ∃ ordered,
        matchRequestedParts (orderedParts u.guid w.db) none parts = .ok ordered) →
      ∀ u', pending N w (bucket.guid, uploadId) = some u' → ¬ Completable N u'.parts parts := by
    rw [hfound]
    rintro h _ ⟨⟩
    rwa [completable_iff hw]
  rw [hsame, wp_bind, wp_require]
  refine ⟨fun hne => ?_, fun hne => ⟨hrefl, Or.inr ⟨by decide, hrefused fun h => hne h.1⟩⟩⟩
  rw [wp_bind, World.select, wp_query]
  cases hmatch : matchRequestedParts (orderedParts u.guid w.db) none parts with
  | error e =>
    refine ⟨hrefl, Or.inr ⟨matchRequestedParts_error hmatch, hrefused ?_⟩⟩
    rintro ⟨-, ordered, h⟩
    rw [hmatch] at h
    cases h
  | ok ordered =>
    obtain ⟨contents, hpayloads, hetags, hlisted⟩ := exists_contents hw hmatch
    dsimp only
    rw [wp_bind, wp_pure, wp_bind]
    refine wp_mono (concat_spec hpayloads) ?_ fun _ _ h => h.elim
    intro written w₁ hwritten
    have hquiet := Quiet.of_confined hw hwritten.confined
      (hdistinct.mono (hwritten.calls_le.trans (by omega)))
    rw [wp_bind]
    refine wp_mono (commitWritten_spec hw hwritten hdistinct bucket u.key {
      size := written.size
      etag := multipartEtag N (ordered.map (·.etag))
      headers := u.headers
      storagePath := some written.storagePath
      sse := toEncryptionColumns written.encryption
      createdByAccessKeyId := u.initiatedByAccessKeyId } rfl rfl rfl rfl) ?_ fun _ _ h => h.elim
    intro versionId w₂ hcommit
    rw [wp_bind]
    refine wp_mono hcommit ?_ fun _ _ h => h.elim
    rintro replaced w₃ ⟨heffect, -, hassigned, hrows, hreplaced⟩
    have hu₃ : findUpload bucket.guid uploadId w₃.db = some u := by
      rw [findUpload, hrows.uploads]
      exact hu
    have hclosed := heffect.closeUpload (k := (bucket.guid, uploadId)) .completed hu₃ (by simp)
    rw [wp_bind, World.executeFor, wp_perform, wp_bind, World.executeFor, wp_perform, wp_bind]
    refine wp_mono (hclosed.deleteBlobs fun path hpath => ?_) ?_ fun _ _ h => h.elim
    · rcases List.mem_append.mp hpath with hpath | hpath
      · obtain ⟨p, hp, rfl⟩ := List.mem_map.mp hpath
        obtain ⟨hp, hguid⟩ := List.mem_filter.mp ((List.mem_insertionSort _).mp hp)
        rw [decide_eq_true_iff] at hguid
        exact hguid ▸ heffect.inv.unreferenced_of_closed (hrows.parts ▸ hp)
      · have hgone := hreplaced path hpath
        exact ⟨hgone.versions, fun p hp => hgone.parts p (mem_closeUpload_parts.mp hp).1⟩
    · rintro _ w' ⟨heffect', -⟩
      refine ⟨pendingUpload N w u, contents, hfound, (completable_iff hw).mpr ⟨hne, ordered, hmatch⟩,
        hlisted, rfl, ?_, hwritten.size, hassigned, heffect'⟩
      exact congrArg (multipartEtag N) hetags

end ObjectsService
end SimpleStorage
