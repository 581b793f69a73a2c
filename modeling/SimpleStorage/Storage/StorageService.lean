import SimpleStorage.Storage.StorageCipher

/-!
# The blob store

Files under generated paths, each written once and never changed.  Size and digest are
those of the plaintext; whether the file is encrypted is the result's descriptor, and
that descriptor is all a read needs besides the master key.

* `payload` is what a file holds for a descriptor, and `read_eq` says a read delivers it, or
  the range of it that was asked for.
* `write_spec`, `concat_spec`: a write leaves a new file with the given payload, a refused
  one leaves nothing.  Both are `Confined` to the paths they generate.
-/

namespace SimpleStorage
namespace StorageService

open StorageTypes Program

variable (N : Node)

/-! ## The service -/

/-- Two directories of two digits each, then the whole identifier. -/
def storagePathOf (guid : Text) : Text := Text.join '/' [guid.take 2, (guid.drop 2).take 2, guid]

def generateStoragePath : Service Text := do
  let call ← World.nextCallFor fun call => .generatedPath (storagePathOf (N.randomUUID call))
  return storagePathOf (N.randomUUID call)

def delete (storagePath : Text) : Service Unit :=
  perform (fun _ => some (.removedBlob storagePath)) fun w =>
    ((), { w with disk := w.disk.remove storagePath })

def writeFile (storagePath : Text) (content : Bytes) : Service Unit :=
  perform (fun w => some (.wroteBlob storagePath w.calls)) fun w =>
    ((), { w with
      disk := w.disk.set storagePath ⟨content, N.now w.calls⟩
      calls := w.calls + 1 })

/-- A payload is cut off at the first piece that takes it over the limit. -/
def overflows (maxBytes : Option ℕ) : ℕ → List Bytes → Bool
  | _, [] => false
  | size, chunk :: rest =>
      maxBytes.any (fun m => size + chunk.length > m) || overflows maxBytes (size + chunk.length) rest

/-- A data key, if new writes are encrypted. -/
def newBlobKey : Service (Option BlobKey) := do
  if (← query (·.encryption.enabled)) then
    return some (← StorageCipher.createKey N)
  else
    return none

def cipherStage (blobKey : Option BlobKey) (source : List Bytes) : List Bytes :=
  match blobKey with
  | some key => StorageCipher.encryptStream N key source
  | none => source

def write (source : Readable) (maxBytes : Option ℕ) : Service WriteResult := do
  let storagePath ← generateStoragePath N
  let blobKey ← newBlobKey N
  if overflows maxBytes 0 source.chunks then
    delete storagePath
    throw .payloadTooLarge
  else if source.interrupted then
    delete storagePath
    throw .payloadInterrupted
  else
    writeFile N storagePath (cipherStage N blobKey source.chunks).flatten
    return {
      storagePath
      size := source.content.length
      etag := Codec.hex (N.md5 source.content)
      encryption := blobKey.map (·.descriptor) }

structure ReadResult where
  stream : Readable
  size : ℕ
  deriving DecidableEq, Repr

/-- The bytes of a file a stream with these bounds reads. -/
def slice (content : Bytes) (range : Option ReadRange) : Bytes :=
  match range with
  | some r => (content.drop r.start).take (r.end + 1 - r.start)
  | none => content

def read (storagePath : Text) (range : Option ReadRange) (encryption : Option BlobEncryption) :
    Service ReadResult := do
  let stat ← observe (fun _ => some (.openedBlob storagePath)) (·.disk.get storagePath)
  let blob ← orThrow stat (.blobNotFound storagePath)
  let size := match range with
    | some r => r.end + 1 - r.start
    | none => blob.content.length
  match encryption with
  | none => return { stream := ⟨N.readChunks (slice blob.content range), false⟩, size }
  | some descriptor =>
      let config ← query (·.encryption)
      let blobKey ← orThrow (StorageCipher.openKey N config descriptor) .encryptionKey
      let (stages, alignedOffset) :=
        StorageCipher.decryptStages N blobKey (range.elim 0 (·.start))
      let source := N.readChunks (slice blob.content (range.map fun r => ⟨alignedOffset, r.end⟩))
      return { stream := ⟨stages.foldl (fun stream stage => stage stream) source, false⟩, size }

structure ConcatSource where
  storagePath : Text
  encryption : Option BlobEncryption
  deriving DecidableEq, Repr

/-- The payloads of the sources, one after the other. -/
def readAll : List ConcatSource → Service (List Bytes)
  | [] => return []
  | source :: rest => do
      let plain ← read N source.storagePath none source.encryption
      let others ← readAll rest
      return plain.stream.chunks ++ others

/-- The sources in one new blob, under a key of its own. -/
def concat (sources : List ConcatSource) : Service WriteResult := do
  let targetPath ← generateStoragePath N
  let blobKey ← newBlobKey N
  let chunks ← tryCatch (readAll N sources) fun err => do
    delete targetPath
    throw err
  writeFile N targetPath (cipherStage N blobKey chunks).flatten
  return {
    storagePath := targetPath
    size := chunks.flatten.length
    etag := Codec.hex (N.md5 chunks.flatten)
    encryption := blobKey.map (·.descriptor) }

/-! ## Reading -/

/-- Reading only reads. -/
theorem read_readOnly (storagePath : Text) (range : Option ReadRange)
    (encryption : Option BlobEncryption) : ReadOnly (read N storagePath range encryption) := by
  refine .bind (ReadOnly.observe _ _) fun stat => .bind (.orThrow _ _) fun blob => ?_
  cases encryption with
  | none => exact .pure _
  | some descriptor => exact .bind (ReadOnly.query _) fun config => .bind (.orThrow _ _) fun key => .pure _

theorem readAll_readOnly (sources : List ConcatSource) : ReadOnly (readAll N sources) := by
  induction sources with
  | nil => exact .pure _
  | cons source rest ih =>
    exact .bind (read_readOnly N _ _ _) fun plain => .bind ih fun others => .pure _

/-- **What a file holds for a descriptor.** -/
def payload (config : EncryptionConfig) (disk : FileTable Text Blob) (storagePath : Text)
    (encryption : Option BlobEncryption) : Option Bytes :=
  (disk.get storagePath).bind fun blob =>
    match encryption with
    | none => some blob.content
    | some descriptor =>
        (StorageCipher.openKey N config descriptor).map (StorageCipher.decrypt N · blob.content)

variable {N}

theorem payload_congr {config config' : EncryptionConfig} {disk disk' : FileTable Text Blob}
    {storagePath : Text} (hconfig : config'.masterKey = config.masterKey)
    (hdisk : disk'.get storagePath = disk.get storagePath) (encryption : Option BlobEncryption) :
    payload N config' disk' storagePath encryption = payload N config disk storagePath encryption := by
  have hopen : StorageCipher.openKey N config' = StorageCipher.openKey N config := by
    funext descriptor
    simp only [StorageCipher.openKey, StorageCipher.unwrap, StorageCipher.masterKey, hconfig]
  rw [payload, payload, hdisk, hopen]

/-- What the stages of a read make of the bytes from a block on is the range of the payload. -/
theorem flatten_stages (blobKey : BlobKey) (content : Bytes) (range : Option ReadRange) :
    ((StorageCipher.decryptStages N blobKey (range.elim 0 (·.start))).1.foldl
      (fun stream stage => stage stream) (N.readChunks (slice content (range.map fun r =>
        ⟨(StorageCipher.decryptStages N blobKey (range.elim 0 (·.start))).2, r.end⟩)))).flatten =
      slice (StorageCipher.decrypt N blobKey content) range := by
  rw [StorageCipher.flatten_decryptStages, N.flatten_readChunks]
  cases range with
  | none => rfl
  | some r => exact StorageCipher.decrypt_slice N blobKey content r.start (r.end + 1)

/-- **A read delivers the payload, or the range of it that was asked for**, and changes nothing. -/
theorem read_eq {w : World} {storagePath : Text} {encryption : Option BlobEncryption}
    {content : Bytes} (h : payload N w.encryption w.disk storagePath encryption = some content)
    (range : Option ReadRange) :
    ∃ result, read N storagePath range encryption w = .ok result w ∧
      result.stream.interrupted = false ∧ result.stream.content = slice content range := by
  cases hget : w.disk.get storagePath with
  | none =>
    rw [payload, hget] at h
    cases h
  | some blob =>
    have hstat : orThrow (w.disk.get storagePath) (Fault.blobNotFound storagePath) =
        (pure blob : Service Blob) := by
      rw [hget]
      rfl
    cases encryption with
    | none =>
      rw [payload, hget] at h
      obtain rfl := Option.some.inj h
      have hrun : read N storagePath range none w =
          .ok ⟨⟨N.readChunks (slice blob.content range), false⟩, match range with
            | some r => r.end + 1 - r.start
            | none => blob.content.length⟩ w := by
        change (orThrow (w.disk.get storagePath) (Fault.blobNotFound storagePath) >>= _) w = _
        rw [hstat]
        rfl
      exact ⟨_, hrun, rfl, N.flatten_readChunks _⟩
    | some descriptor =>
      rw [payload, hget] at h
      obtain ⟨blobKey, hkey, rfl⟩ := Option.map_eq_some_iff.mp h
      have hopen : orThrow (StorageCipher.openKey N w.encryption descriptor) Fault.encryptionKey =
          (pure blobKey : Service BlobKey) := by
        rw [hkey]
        rfl
      have hrun : read N storagePath range (some descriptor) w =
          .ok ⟨⟨(StorageCipher.decryptStages N blobKey (range.elim 0 (·.start))).1.foldl
              (fun stream stage => stage stream)
              (N.readChunks (slice blob.content (range.map fun r =>
                ⟨(StorageCipher.decryptStages N blobKey (range.elim 0 (·.start))).2, r.end⟩))), false⟩,
            match range with
            | some r => r.end + 1 - r.start
            | none => blob.content.length⟩ w := by
        change (orThrow (w.disk.get storagePath) (Fault.blobNotFound storagePath) >>= _) w = _
        rw [hstat]
        change (orThrow (StorageCipher.openKey N w.encryption descriptor) Fault.encryptionKey >>= _)
          w = _
        rw [hopen]
        rfl
      exact ⟨_, hrun, rfl, flatten_stages blobKey blob.content range⟩

/-- The size a range read reports is that of the range. -/
theorem size_of_read {w w' : World} {storagePath : Text} {range : ReadRange}
    {encryption : Option BlobEncryption} {result : ReadResult}
    (h : read N storagePath (some range) encryption w = .ok result w') :
    result.size = range.end + 1 - range.start := by
  have hsize : wp (read N storagePath (some range) encryption)
      (fun result _ => result.size = range.end + 1 - range.start) (fun _ _ => True) w := by
    rw [read, wp_bind, wp_observe, wp_bind, wp_orThrow]
    refine ⟨fun blob _ => ?_, fun _ => trivial⟩
    cases encryption with
    | none => rfl
    | some descriptor =>
      dsimp only
      rw [wp_bind, wp_query, wp_bind, wp_orThrow]
      exact ⟨fun _ _ => rfl, fun _ => trivial⟩
  rw [wp, h] at hsize
  exact hsize

/-- **A range of an encrypted blob reads as that of the plain one.**  Whatever the data key, the
vector, the block cipher under them and the pieces the payload came and is read in: a blob
enciphered under a key wrapped for this deployment delivers the same bytes of its payload
as an unencrypted one does, and both report how many these are. -/
theorem read_range_encrypted {config : EncryptionConfig} {wrapIv key iv : Bytes}
    (hwrapIv : wrapIv.length = 12) (hkey : key.length = 32) (hiv : iv.length = 16)
    (chunks : List Bytes) (range : ReadRange) (hstart : range.start ≤ range.end)
    (hend : range.end < chunks.flatten.length) {w w' : World}
    (hconfig : w.encryption.masterKey = config.masterKey) {storagePath storagePath' : Text}
    {modifiedAt modifiedAt' : Timestamp}
    (hencrypted : w.disk.get storagePath = some ⟨(StorageCipher.encryptStream N
      ⟨key, iv, ⟨StorageCipher.wrap N config wrapIv (key ++ iv)⟩⟩ chunks).flatten, modifiedAt⟩)
    (hplain : w'.disk.get storagePath' = some ⟨chunks.flatten, modifiedAt'⟩) :
    ∃ result result',
      read N storagePath (some range) (some ⟨StorageCipher.wrap N config wrapIv (key ++ iv)⟩) w =
        .ok result w ∧
      read N storagePath' (some range) none w' = .ok result' w' ∧
      result.stream.interrupted = false ∧
      result.stream.content = (chunks.flatten.drop range.start).take (range.end + 1 - range.start) ∧
      result.stream.content.length = range.end - range.start + 1 ∧
      result.size = range.end - range.start + 1 ∧
      result'.stream.content = result.stream.content ∧ result'.size = result.size := by
  have hne : wrapIv ≠ [] := List.ne_nil_of_length_eq_add_one hwrapIv
  have hopen := StorageCipher.openKey_wrap N hconfig hne hkey hiv
  have hpayload : payload N w.encryption w.disk storagePath
      (some ⟨StorageCipher.wrap N config wrapIv (key ++ iv)⟩) = some chunks.flatten := by
    rw [payload, hencrypted, Option.bind_some]
    dsimp only
    rw [hopen, Option.map_some, StorageCipher.decrypt_encryptStream]
  have hpayload' : payload N w'.encryption w'.disk storagePath' none = some chunks.flatten := by
    rw [payload, hplain, Option.bind_some]
  obtain ⟨result, hread, hwhole, hcontent⟩ := read_eq hpayload (some range)
  obtain ⟨result', hread', -, hcontent'⟩ := read_eq hpayload' (some range)
  have hsize : range.end + 1 - range.start = range.end - range.start + 1 := by omega
  refine ⟨result, result', hread, hread', hwhole, hcontent, ?_, ?_, hcontent'.trans hcontent.symm, ?_⟩
  · rw [hcontent, slice, List.length_take, List.length_drop]
    omega
  · rw [size_of_read hread, hsize]
  · rw [size_of_read hread, size_of_read hread']

/-- A key whose counter is about to wrap around. -/
def lastCounter : BlobKey where
  key := List.replicate 32 7
  iv := List.replicate 16 255
  descriptor := ⟨StorageCipher.wrap Node.counting ⟨true, ['m']⟩ (List.replicate 12 1)
    (List.replicate 32 7 ++ List.replicate 16 255)⟩

/-- Bytes 17 to 19 of a payload, past the wrap. -/
theorem read_range_encrypted_lastCounter :
    let chunks : List Bytes := [List.replicate 15 1, List.replicate 15 2]
    let file : Blob := ⟨(StorageCipher.encryptStream Node.counting lastCounter chunks).flatten, 0⟩
    let w : World := { db := {}, encryption := ⟨true, ['m']⟩, disk := ⟨[(['a'], file)]⟩ }
    let w' : World := { db := {}, encryption := ⟨true, ['m']⟩, disk := ⟨[(['b'], ⟨chunks.flatten, 0⟩)]⟩ }
    ∃ result result',
      read Node.counting ['a'] (some ⟨17, 19⟩) (some lastCounter.descriptor) w = .ok result w ∧
      read Node.counting ['b'] (some ⟨17, 19⟩) none w' = .ok result' w' ∧
      result.stream.interrupted = false ∧ result.stream.content = [2, 2, 2] ∧
      result.stream.content.length = 3 ∧ result.size = 3 ∧
      result'.stream.content = result.stream.content ∧ result'.size = result.size := by
  intro chunks file w w'
  have hmaster : w.encryption.masterKey = (⟨true, ['m']⟩ : EncryptionConfig).masterKey := rfl
  have hfile : w.disk.get ['a'] = some file := rfl
  have hplain : w'.disk.get ['b'] = some ⟨chunks.flatten, 0⟩ := rfl
  exact read_range_encrypted rfl rfl rfl chunks ⟨17, 19⟩ (by decide) (by decide) hmaster hfile hplain

/-! ## Writing -/

variable (N) in
/-- The path of the blob whose identifier is generated by the given call. -/
def pathAt (call : ℕ) : Text := storagePathOf (N.randomUUID call)

theorem storagePathOf_ne_nil (guid : Text) : storagePathOf guid ≠ [] := by
  simp [storagePathOf, Text.join, List.intercalate]

theorem storagePathOf_inj {guid guid' : Text} (hlength : guid.length = 36)
    (hlength' : guid'.length = 36) (h : storagePathOf guid = storagePathOf guid') : guid = guid' := by
  have hdrop : ∀ {g : Text}, g.length = 36 → (storagePathOf g).drop 6 = g := by
    intro g hg
    have hfirst : (g.take 2).length = 2 := by rw [List.length_take]; omega
    have hsecond : ((g.drop 2).take 2).length = 2 := by rw [List.length_take, List.length_drop]; omega
    have hsplit : storagePathOf g = (g.take 2 ++ ('/' :: (g.drop 2).take 2) ++ ['/']) ++ g := by
      simp [storagePathOf, Text.join, List.intercalate]
    have hprefix : (g.take 2 ++ ('/' :: (g.drop 2).take 2) ++ ['/']).length = 6 := by
      rw [List.length_append, List.length_append, List.length_cons, hfirst, hsecond]
      rfl
    rw [hsplit, ← hprefix, List.drop_left]
  rw [← hdrop hlength, h, hdrop hlength']

theorem pathAt_inj {n s t : ℕ} (hdistinct : N.Distinct n) (hs : s < n) (ht : t < n)
    (h : pathAt N s = pathAt N t) : s = t :=
  hdistinct.randomUUID s hs t ht
    (storagePathOf_inj (N.length_randomUUID s) (N.length_randomUUID t) h)

variable (N) in
/-- **Only new files**: nothing changes but the files whose paths are generated on the way. -/
structure Confined (w w' : World) : Prop where
  db : w'.db = w.db
  encryption : w'.encryption = w.encryption
  calls : w.calls ≤ w'.calls
  disk : ∀ path, (∀ t, w.calls ≤ t → t < w'.calls → path ≠ pathAt N t) →
    w'.disk.get path = w.disk.get path

theorem Confined.refl (w : World) : Confined N w w := ⟨rfl, rfl, le_rfl, fun _ _ => rfl⟩

theorem Confined.trans {w w' w'' : World} (h : Confined N w w') (h' : Confined N w' w'') :
    Confined N w w'' where
  db := h'.db.trans h.db
  encryption := h'.encryption.trans h.encryption
  calls := h.calls.trans h'.calls
  disk := fun path hpath => by
    have hcalls := h.calls
    have hcalls' := h'.calls
    rw [h'.disk path fun t ht ht' => hpath t (by omega) ht',
      h.disk path fun t ht ht' => hpath t ht (by omega)]

variable (N) in
/-- What a write leaves behind: a new file with the payload. -/
structure Written (w : World) (content : Bytes) (result : WriteResult) (w' : World) : Prop where
  confined : Confined N w w'
  calls : w.calls < w'.calls
  calls_le : w'.calls ≤ w.calls + 5
  storagePath : result.storagePath = pathAt N w.calls
  size : result.size = content.length
  etag : result.etag = Codec.hex (N.md5 content)
  payload : payload N w'.encryption w'.disk result.storagePath result.encryption = some content

theorem wp_nextCall {post : ℕ → World → Prop} {fail : Fault → World → Prop} {w : World} :
    wp World.nextCall post fail w ↔ post w.calls { w with calls := w.calls + 1 } := Iff.rfl

theorem wp_nextCallFor {event : ℕ → Event} {post : ℕ → World → Prop} {fail : Fault → World → Prop}
    {w : World} : wp (World.nextCallFor event) post fail w ↔
      post w.calls { w with calls := w.calls + 1 } := Iff.rfl

theorem wp_delete {post : Unit → World → Prop} {fail : Fault → World → Prop} {w : World}
    {storagePath : Text} : wp (delete storagePath) post fail w ↔
      post () { w with disk := w.disk.remove storagePath } := Iff.rfl

variable (N) in
/-- A key that enciphers what it deciphers. -/
def Opens (config : EncryptionConfig) (blobKey : Option BlobKey) : Prop :=
  ∀ key, blobKey = some key → StorageCipher.openKey N config key.descriptor = some key

theorem Opens.payload_set {config : EncryptionConfig} {blobKey : Option BlobKey}
    (h : Opens N config blobKey) (disk : FileTable Text Blob) (storagePath : Text)
    (chunks : List Bytes) (modifiedAt : Timestamp) :
    payload N config (disk.set storagePath ⟨(cipherStage N blobKey chunks).flatten, modifiedAt⟩)
      storagePath (blobKey.map (·.descriptor)) = some chunks.flatten := by
  rw [payload, FileTable.get_set_self, Option.bind_some]
  cases blobKey with
  | none => rfl
  | some key =>
    have hopen := h key rfl
    simp only [Option.map_some, hopen, cipherStage, StorageCipher.decrypt_encryptStream]

theorem newBlobKey_spec (w : World) :
    wp (newBlobKey N) (fun blobKey w' => ∃ n ≤ 3, w' = { w with calls := w.calls + n } ∧
      Opens N w.encryption blobKey) (fun _ _ => False) w := by
  rw [newBlobKey, wp_bind, wp_query]
  cases hconfig : w.encryption.enabled with
  | false => exact ⟨0, Nat.zero_le 3, rfl, fun _ h => nomatch h⟩
  | true =>
    refine ⟨3, le_rfl, rfl, fun key hkey => ?_⟩
    obtain rfl := Option.some.inj hkey
    refine StorageCipher.openKey_wrap N rfl (fun h => ?_) (N.length_randomBytes _ _)
      (N.length_randomBytes _ _)
    have hlength := N.length_randomBytes (w.calls + 1 + 1) 12
    rw [h] at hlength
    cases hlength

/-- Writing the file of a generated path, after some more calls. -/
theorem written_of_file {w : World} {chunks : List Bytes} {blobKey : Option BlobKey} {n : ℕ}
    (hn : n ≤ 3) (hopens : Opens N w.encryption blobKey) :
    Written N w chunks.flatten
      ⟨pathAt N w.calls, chunks.flatten.length, Codec.hex (N.md5 chunks.flatten),
        blobKey.map (·.descriptor)⟩
      { w with
        calls := w.calls + 1 + n + 1
        disk := w.disk.set (pathAt N w.calls)
          ⟨(cipherStage N blobKey chunks).flatten, N.now (w.calls + 1 + n)⟩ } where
  confined :=
    { db := rfl
      encryption := rfl
      calls := by change w.calls ≤ w.calls + 1 + n + 1; omega
      disk := fun path hpath =>
        FileTable.get_set_of_ne (hpath w.calls le_rfl (by change w.calls < _ + 1; omega)) }
  calls := by change w.calls < w.calls + 1 + n + 1; omega
  calls_le := by change w.calls + 1 + n + 1 ≤ w.calls + 5; omega
  storagePath := rfl
  size := rfl
  etag := rfl
  payload := hopens.payload_set _ _ _ _

/-- A file of a generated path that is removed again. -/
theorem confined_of_removed {w : World} {n : ℕ} :
    Confined N w { w with
      calls := w.calls + 1 + n
      disk := w.disk.remove (pathAt N w.calls) } where
  db := rfl
  encryption := rfl
  calls := by change w.calls ≤ w.calls + 1 + n; omega
  disk := fun path hpath => FileTable.get_remove_of_ne
    (hpath w.calls le_rfl (by change w.calls < w.calls + 1 + n; omega))

/-- **A write leaves a new file with the payload, or nothing.** -/
theorem write_spec (source : Readable) (maxBytes : Option ℕ) (w : World) :
    wp (write N source maxBytes) (fun result w' => Written N w source.content result w')
      (fun e w' => Confined N w w' ∧ w'.calls ≤ w.calls + 5 ∧
        (e = .payloadTooLarge ∨ e = .payloadInterrupted)) w := by
  rw [write, wp_bind, generateStoragePath, wp_bind, wp_nextCallFor, wp_pure, wp_bind]
  refine wp_mono (newBlobKey_spec _) ?_ (fun _ _ h => h.elim)
  rintro blobKey _ ⟨n, hn, rfl, hopens⟩
  have hcalls : w.calls + 1 + n ≤ w.calls + 5 := by omega
  rw [wp_ite]
  split
  · rw [wp_bind, wp_delete, wp_throw]
    exact ⟨confined_of_removed, hcalls, Or.inl rfl⟩
  · rw [wp_ite]
    split
    · rw [wp_bind, wp_delete, wp_throw]
      exact ⟨confined_of_removed, hcalls, Or.inr rfl⟩
    · exact written_of_file hn hopens

/-- Reading sources that can all be read. -/
theorem readAll_eq {w : World} {sources : List ConcatSource} {contents : List Bytes}
    (h : List.Forall₂ (fun source content =>
      payload N w.encryption w.disk source.storagePath source.encryption = some content)
      sources contents) :
    ∃ chunks, readAll N sources w = .ok chunks w ∧ chunks.flatten = contents.flatten := by
  induction h with
  | nil => exact ⟨[], rfl, rfl⟩
  | @cons source content sources contents hsource _ ih =>
    obtain ⟨plain, hread, -, hplain⟩ := read_eq hsource none
    obtain ⟨others, hothers, hflatten⟩ := ih
    refine ⟨plain.stream.chunks ++ others, ?_, ?_⟩
    · rw [readAll, run_bind_of_ok hread, run_bind_of_ok hothers]
      rfl
    · rw [List.flatten_append, hflatten, List.flatten_cons]
      exact congrArg (· ++ _) hplain

/-- **Concatenating readable sources leaves a new file with their payloads in a row.** -/
theorem concat_spec {w : World} {sources : List ConcatSource} {contents : List Bytes}
    (h : List.Forall₂ (fun source content =>
      payload N w.encryption w.disk source.storagePath source.encryption = some content)
      sources contents) :
    wp (concat N sources) (fun result w' => Written N w contents.flatten result w')
      (fun _ _ => False) w := by
  rw [concat, wp_bind, generateStoragePath, wp_bind, wp_nextCallFor, wp_pure, wp_bind]
  refine wp_mono (newBlobKey_spec _) ?_ (fun _ _ h => h.elim)
  rintro blobKey _ ⟨n, hn, rfl, hopens⟩
  obtain ⟨chunks, hread, hflatten⟩ := readAll_eq (w :=
    { w with calls := w.calls + 1 + n }) h
  rw [wp_bind, wp_tryCatch, wp, hread, ← hflatten]
  exact written_of_file hn hopens

end StorageService
end SimpleStorage
