import SimpleStorage.Library.Codec
import SimpleStorage.Library.Utf8
import SimpleStorage.Storage.Node
import SimpleStorage.Storage.World

/-!
# Secrets that have to be read back

The secret of an access key is kept encrypted, under a key derived from the deployment's
password: the vector, the tag and the ciphertext, in base64 and separated by dots.  The data
keys of the blob store are wrapped in the same form under a key of their own.
-/

namespace SimpleStorage

/-- The setting of the service. -/
structure CryptographicConfig where
  password : Text
  deriving DecidableEq, Repr

namespace CryptographicService

open Program

variable (N : Node)

/-- The vector, the tag and the ciphertext, in base64 and separated by dots. -/
def sealParts (key iv material : Bytes) : Text :=
  let sealed := N.gcmSeal key iv material
  Text.join '.' ([iv, sealed.1, sealed.2].map Codec.base64.encode)

def openParts (key : Bytes) (encrypted : Text) : Option Bytes :=
  match Text.split '.' encrypted with
  | ivPart :: authTagPart :: dataPart :: _ =>
      if ivPart = [] ∨ authTagPart = [] ∨ dataPart = [] then none
      else N.gcmOpen key (Codec.unbase64 ivPart) (Codec.unbase64 authTagPart) (Codec.unbase64 dataPart)
  | _ => none

theorem sealed_ne_nil {key iv material : Bytes} :
    (N.gcmSeal key iv material).2 = [] ↔ material = [] := by
  rw [← List.length_eq_zero_iff, N.length_sealed, List.length_eq_zero_iff]

/-- **What was sealed is opened again** under the same key, if it is not empty. -/
theorem openParts_sealParts {key iv : Bytes} (hiv : iv ≠ []) (material : Bytes) :
    openParts N key (sealParts N key iv material) = if material = [] then none else some material := by
  have htag : (N.gcmSeal key iv material).1 ≠ [] := by
    intro h
    have hlength := N.length_tag key iv material
    rw [h] at hlength
    cases hlength
  have hsplit : Text.split '.' (sealParts N key iv material) =
      [iv, (N.gcmSeal key iv material).1, (N.gcmSeal key iv material).2].map Codec.base64.encode := by
    refine List.splitOn_intercalate '.' (fun part hpart => ?_) (by simp)
    obtain ⟨bs, -, rfl⟩ := List.mem_map.mp hpart
    exact Codec.dot_notMem_encode bs
  rw [openParts, hsplit]
  simp only [List.map_cons]
  by_cases hmaterial : material = []
  · rw [if_pos hmaterial, if_pos]
    refine .inr (.inr ?_)
    rw [(sealed_ne_nil N).mpr hmaterial]
    rfl
  · have hsealed := mt (@sealed_ne_nil N key iv material).mp hmaterial
    rw [if_neg hmaterial, if_neg (by simp [Codec.encode_ne_nil, hiv, htag, hsealed]),
      Codec.unbase64_encode Codec.base64_readable, Codec.unbase64_encode Codec.base64_readable,
      Codec.unbase64_encode Codec.base64_readable, N.gcmOpen_gcmSeal]

/-! ## The service -/

def salt : Text := "storage-secret-key".toList

def ivLength : ℕ := 12

variable (config : CryptographicConfig)

def key : Bytes := N.scryptSync config.password salt 32

def encrypt (plain : Text) : Service Text := do
  let iv := N.randomBytes (← World.nextCall) ivLength
  return sealParts N (key N config) iv (Utf8.encode plain)

/-- What an encrypted value decrypts to. -/
def decrypted (encrypted : Text) : Option Text :=
  (openParts N (key N config) encrypted).map Utf8.decode

def decrypt (encrypted : Text) : Service Text := orThrow (decrypted N config encrypted) .malformedSecret

variable {N config}

/-- **What was encrypted is decrypted again**, unless it was empty. -/
theorem encrypt_spec (plain : Text) (w : World) :
    wp (encrypt N config plain)
      (fun encrypted w' => w' = { w with calls := w.calls + 1 } ∧
        decrypted N config encrypted = if plain = [] then none else some plain)
      (fun _ _ => False) w := by
  have hiv : N.randomBytes w.calls ivLength ≠ [] := by
    intro h
    have hlength := N.length_randomBytes w.calls ivLength
    rw [h] at hlength
    cases hlength
  rw [encrypt, wp_bind, World.nextCall, wp_alter, wp_pure]
  refine ⟨rfl, ?_⟩
  rw [decrypted, openParts_sealParts N hiv]
  cases plain with
  | nil => rfl
  | cons c plain =>
    have hne : Utf8.encode (c :: plain) ≠ [] := fun h => by
      cases Utf8.encode_injective (h.trans Utf8.encode_nil.symm)
    rw [if_neg hne, if_neg (List.cons_ne_nil _ _), Option.map_some, Utf8.decode_encode]

end CryptographicService
end SimpleStorage
