import SimpleStorage.Cryptographic.CryptographicService

/-!
# The cipher of the blob store

Every encrypted blob has a data key of its own, wrapped with the deployment's master key
and kept beside the metadata.  The payload is enciphered in counter mode, so that a read
can start at any byte.

* `openKey_wrap`: a key wrapped under a master key is opened under it again, whether
  or not new writes are still being encrypted.
* `advanceIv_eq`: the carry through the sixteen bytes is addition to the counter.
* `decrypt_slice`: what the stages of a range read deliver is the slice of the plaintext.
-/

namespace SimpleStorage
namespace StorageCipher

open StorageTypes

variable (N : Node)

/-! ## Wrapped keys -/

def masterKeySalt : Text := "storage-object-encryption".toList

def masterKey (config : EncryptionConfig) : Bytes := N.scryptSync config.masterKey masterKeySalt 32

/-- The vector, the tag and the ciphertext, in base64 and separated by dots. -/
def wrap (config : EncryptionConfig) (iv material : Bytes) : Text :=
  let wrapped := N.gcmSeal (masterKey N config) iv material
  Text.join '.' ([iv, wrapped.1, wrapped.2].map Codec.base64.encode)

def unwrap (config : EncryptionConfig) (wrappedKey : Text) : Option Bytes :=
  match Text.split '.' wrappedKey with
  | ivPart :: authTagPart :: dataPart :: _ =>
      if ivPart = [] ∨ authTagPart = [] ∨ dataPart = [] then none
      else N.gcmOpen (masterKey N config) (Codec.unbase64 ivPart) (Codec.unbase64 authTagPart)
        (Codec.unbase64 dataPart)
  | _ => none

/-- A fresh data key for one blob. -/
def createKey : Service BlobKey := do
  let key := N.randomBytes (← World.nextCall) 32
  let iv := N.randomBytes (← World.nextCall) 16
  let wrapIv := N.randomBytes (← World.nextCall) 12
  let config ← Program.query (·.encryption)
  return { key, iv, descriptor := ⟨wrap N config wrapIv (key ++ iv)⟩ }

/-- The data key of a stored blob. -/
def openKey (config : EncryptionConfig) (descriptor : BlobEncryption) : Option BlobKey :=
  match unwrap N config descriptor.wrappedKey with
  | some material =>
      if material.length ≠ 32 + 16 then none
      else some { key := material.take 32, iv := material.drop 32, descriptor }
  | none => none

theorem unwrap_wrap {config config' : EncryptionConfig} (hconfig : config'.masterKey = config.masterKey)
    {iv material : Bytes} (hiv : iv ≠ []) (hmaterial : material ≠ []) :
    unwrap N config' (wrap N config iv material) = some material := by
  have hkey : masterKey N config' = masterKey N config := by
    rw [masterKey, masterKey, hconfig]
  have hopened := @CryptographicService.openParts_sealParts N (masterKey N config) iv hiv material
  rw [if_neg hmaterial] at hopened
  rw [unwrap, hkey]
  exact hopened

/-- **A wrapped key is opened again** under the same master key. -/
theorem openKey_wrap {config config' : EncryptionConfig} (hconfig : config'.masterKey = config.masterKey)
    {wrapIv key iv : Bytes} (hwrapIv : wrapIv ≠ []) (hkey : key.length = 32) (hiv : iv.length = 16) :
    openKey N config' ⟨wrap N config wrapIv (key ++ iv)⟩ =
      some ⟨key, iv, ⟨wrap N config wrapIv (key ++ iv)⟩⟩ := by
  have hmaterial : key ++ iv ≠ [] := by
    intro h
    rw [(List.append_eq_nil_iff.mp h).1] at hkey
    cases hkey
  rw [openKey, unwrap_wrap N hconfig hwrapIv hmaterial]
  simp only [List.length_append, hkey, hiv, ne_eq, not_true, if_false]
  rw [List.take_append_of_le_length hkey.ge, List.take_of_length_le hkey.le,
    List.drop_append_of_le_length hkey.ge, List.drop_of_length_le hkey.le, List.nil_append]

/-! ## Payloads -/

/-- The counter, so many blocks further, with the carry running through all its bytes. -/
def advanceIv (iv : Bytes) (blocks : ℕ) : Bytes :=
  (CounterMode.addCarry iv.reverse blocks).reverse

/-- **The carry adds to the counter.** -/
theorem advanceIv_eq (iv : Bytes) (blocks : ℕ) :
    advanceIv iv blocks = CounterMode.counterBlock iv blocks := by
  rw [advanceIv, CounterMode.addCarry_eq, List.length_reverse, CounterMode.counterBlock]

def encryptStream (blobKey : BlobKey) (source : List Bytes) : List Bytes :=
  CounterMode.xorChunks (N.ctrBlock blobKey.key blobKey.iv) 0 source

/-- The stages a read from plaintext byte `offset` on is piped through, and the byte of the
file it has to start at. -/
def decryptStages (blobKey : BlobKey) (offset : ℕ) : List (List Bytes → List Bytes) × ℕ :=
  let alignedOffset := offset - offset % 16
  let counter := advanceIv blobKey.iv (alignedOffset / 16)
  let decipher := CounterMode.xorChunks (N.ctrBlock blobKey.key counter) 0
  let stages := if alignedOffset = offset then [decipher]
    else [decipher, CounterMode.skipChunks (offset - alignedOffset)]
  (stages, alignedOffset)

/-- The payload a file holds for a key. -/
def decrypt (blobKey : BlobKey) (content : Bytes) : Bytes :=
  CounterMode.xorFrom (N.ctrBlock blobKey.key blobKey.iv) 0 content

@[simp] theorem length_decrypt (blobKey : BlobKey) (content : Bytes) :
    (decrypt N blobKey content).length = content.length := CounterMode.length_xorFrom _ _ _

theorem decrypt_encryptStream (blobKey : BlobKey) (source : List Bytes) :
    decrypt N blobKey (encryptStream N blobKey source).flatten = source.flatten := by
  rw [decrypt, encryptStream, CounterMode.flatten_xorChunks, CounterMode.xorFrom_xorFrom]

/-- **The cipher, byte by byte**: a byte is combined with that of the block for the counter, advanced
by the blocks before it. -/
theorem getElem?_encryptStream (blobKey : BlobKey) (source : List Bytes) (i : ℕ) :
    (encryptStream N blobKey source).flatten[i]? = source.flatten[i]?.map
      (· ^^^ (N.aes256 blobKey.key (CounterMode.counterBlock blobKey.iv (i / 16))).getD (i % 16) 0) := by
  rw [encryptStream, CounterMode.flatten_xorChunks, CounterMode.getElem?_xorFrom, Nat.zero_add]
  rfl

/-- What the stages make of a file read from the aligned byte on. -/
theorem flatten_decryptStages (blobKey : BlobKey) (offset : ℕ) (source : List Bytes) :
    ((decryptStages N blobKey offset).1.foldl (fun stream stage => stage stream) source).flatten =
      (CounterMode.xorFrom (N.ctrBlock blobKey.key blobKey.iv) (offset - offset % 16)
        source.flatten).drop (offset % 16) := by
  have haligned : 16 * ((offset - offset % 16) / 16) + 0 = offset - offset % 16 := by omega
  have hdecipher : (CounterMode.xorChunks (N.ctrBlock blobKey.key
      (advanceIv blobKey.iv ((offset - offset % 16) / 16))) 0 source).flatten =
      CounterMode.xorFrom (N.ctrBlock blobKey.key blobKey.iv) (offset - offset % 16)
        source.flatten := by
    rw [CounterMode.flatten_xorChunks, advanceIv_eq, N.ctrBlock_advanced,
      CounterMode.xorFrom_shift, haligned]
  have hrest : offset - (offset - offset % 16) = offset % 16 := by omega
  rw [decryptStages]
  by_cases h : offset - offset % 16 = offset
  · have hzero : offset % 16 = 0 := by omega
    rw [if_pos h, List.foldl_cons, List.foldl_nil, hdecipher, hzero, List.drop_zero]
  · rw [if_neg h, List.foldl_cons, List.foldl_cons, List.foldl_nil,
      CounterMode.flatten_skipChunks, hdecipher, hrest]

/-- **A range of an encrypted blob is that range of its payload**: the surplus bytes of the
first block are deciphered and dropped. -/
theorem decrypt_slice (blobKey : BlobKey) (content : Bytes) (start stop : ℕ) :
    (CounterMode.xorFrom (N.ctrBlock blobKey.key blobKey.iv) (start - start % 16)
      ((content.drop (start - start % 16)).take (stop - (start - start % 16)))).drop (start % 16) =
      ((decrypt N blobKey content).drop start).take (stop - start) := by
  have hstart : start - start % 16 + start % 16 = start := by omega
  have hlength : stop - (start - start % 16) - start % 16 = stop - start := by omega
  rw [CounterMode.drop_xorFrom, List.drop_take, List.drop_drop, hstart, hlength, decrypt,
    CounterMode.drop_xorFrom, CounterMode.take_xorFrom, Nat.zero_add]

end StorageCipher
end SimpleStorage
