import SimpleStorage.Database.Types
import SimpleStorage.Library.CounterMode

/-!
# The runtime

What the services call in the runtime they run on: the random generator, the clock, the
primitives of its crypto module and the streams of its file system.  Each comes with what
its documentation promises and nothing more.

The random generator and the clock answer by the number of the call.  That no two answers
of the generator coincide is not a promise but a bet every service makes; `Node.Distinct`
is that bet for the first calls of a run.
-/

namespace SimpleStorage

structure Node where
  /-- `crypto.randomBytes(count)`. -/
  randomBytes : ℕ → ℕ → Bytes
  length_randomBytes : ∀ call count, (randomBytes call count).length = count
  /-- `crypto.randomUUID()`. -/
  randomUUID : ℕ → Text
  length_randomUUID : ∀ call, (randomUUID call).length = 36
  /-- The clock. -/
  now : ℕ → Timestamp
  md5 : Bytes → Bytes
  length_md5 : ∀ bs, (md5 bs).length = 16
  scryptSync : Text → Text → ℕ → Bytes
  /-- One block of AES-256 under a key. -/
  aes256 : Bytes → Bytes → Bytes
  /-- AES-256-GCM under a key and an initialisation vector: the tag and the ciphertext. -/
  gcmSeal : Bytes → Bytes → Bytes → Bytes × Bytes
  length_tag : ∀ key iv plain, (gcmSeal key iv plain).1.length = 16
  length_sealed : ∀ key iv plain, (gcmSeal key iv plain).2.length = plain.length
  /-- The plaintext, unless the tag is wrong. -/
  gcmOpen : Bytes → Bytes → Bytes → Bytes → Option Bytes
  gcmOpen_gcmSeal : ∀ key iv plain,
    gcmOpen key iv (gcmSeal key iv plain).1 (gcmSeal key iv plain).2 = some plain
  /-- The pieces a file is read in. -/
  readChunks : Bytes → List Bytes
  flatten_readChunks : ∀ bs, (readChunks bs).flatten = bs

namespace Node

variable (N : Node)

/-- **The random values of the first calls are distinct and the clock has moved on between
them.** -/
structure Distinct (n : ℕ) : Prop where
  randomUUID : ∀ s < n, ∀ t < n, N.randomUUID s = N.randomUUID t → s = t
  versionId : ∀ s < n, ∀ t < n, N.randomBytes s 16 = N.randomBytes t 16 → s = t
  uploadId : ∀ s < n, ∀ t < n, N.randomBytes s 24 = N.randomBytes t 24 → s = t
  now : ∀ t < n, ∀ s < t, N.now s < N.now t

variable {N}

theorem Distinct.mono {m n : ℕ} (h : N.Distinct n) (hmn : m ≤ n) : N.Distinct m where
  randomUUID := fun s hs t ht => h.randomUUID s (by omega) t (by omega)
  versionId := fun s hs t ht => h.versionId s (by omega) t (by omega)
  uploadId := fun s hs t ht => h.uploadId s (by omega) t (by omega)
  now := fun t ht => h.now t (by omega)

variable (N)

/-- The keystream of AES-256 in counter mode. -/
def ctrBlock (key iv : Bytes) (i : ℕ) : Bytes := N.aes256 key (CounterMode.counterBlock iv i)

theorem ctrBlock_advanced (key iv : Bytes) (m : ℕ) :
    N.ctrBlock key (CounterMode.counterBlock iv m) = fun i => N.ctrBlock key iv (m + i) := by
  funext i
  rw [ctrBlock, CounterMode.counterBlock_counterBlock, ctrBlock]

/-! ## A runtime to run examples on -/

/-- The random values count, the clock ticks with every call, and nothing is hidden. -/
def counting : Node where
  randomBytes call count := (List.range count).map fun i => UInt8.ofNat (call / 256 ^ i)
  length_randomBytes _ _ := by rw [List.length_map, List.length_range]
  randomUUID call := (List.range 36).map fun i => Nat.digitChar (call / 16 ^ i % 16)
  length_randomUUID _ := by rw [List.length_map, List.length_range]
  now := id
  md5 _ := List.replicate 16 0
  length_md5 _ := List.length_replicate
  scryptSync _ _ count := List.replicate count 0
  aes256 _ block := block
  gcmSeal _ _ plain := (List.replicate 16 0, plain)
  length_tag _ _ _ := List.length_replicate
  length_sealed _ _ _ := rfl
  gcmOpen _ _ _ sealed := some sealed
  gcmOpen_gcmSeal _ _ _ := rfl
  readChunks bs := [bs]
  flatten_readChunks bs := by rw [List.flatten_singleton]

theorem digitChar_inj : ∀ m < 16, ∀ n < 16, Nat.digitChar m = Nat.digitChar n → m = n := by decide

/-- The first 256 calls of the example differ. -/
theorem distinct_counting : counting.Distinct 256 := by
  have hbytes : ∀ count s t, s < 256 → t < 256 →
      counting.randomBytes s (count + 1) = counting.randomBytes t (count + 1) → s = t := by
    intro count s t hs ht h
    have hhead := congrArg List.head? h
    simp only [counting, List.range_succ_eq_map, List.map_cons, List.head?_cons, pow_zero,
      Nat.div_one, Option.some.injEq] at hhead
    have hnat := congrArg UInt8.toNat hhead
    rwa [UInt8.toNat_ofNat_of_lt' hs, UInt8.toNat_ofNat_of_lt' ht] at hnat
  refine ⟨fun s hs t ht h => ?_, fun s hs t ht => hbytes 15 s t hs ht,
    fun s hs t ht => hbytes 23 s t hs ht, fun t _ s hst => hst⟩
  have hdigit : ∀ i < 36, s / 16 ^ i % 16 = t / 16 ^ i % 16 := by
    intro i hi
    have hget := congrArg (fun l : List Char => l[i]?) h
    simp only [counting, List.getElem?_map, List.getElem?_range hi, Option.map_some,
      Option.some.injEq] at hget
    exact digitChar_inj _ (Nat.mod_lt _ (by omega)) _ (Nat.mod_lt _ (by omega)) hget
  have hlow := hdigit 0 (by omega)
  have hhigh := hdigit 1 (by omega)
  omega

end Node
end SimpleStorage
