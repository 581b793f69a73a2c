import SimpleStorage.AccessKeys.KeyHistory

/-!
# The key a link is signed with

The management API signs links with the caller's oldest key that may be used.  An identifier is
given out once, so whatever becomes of the keys later, it stands for this key or for none.

* `resolveSigningCredentials_spec`: the key that is found.
* `KeysStep`, `request_step`: what a request does to the table of keys.
* `Issued`: an identifier keeps its owner and its secret.
* `resolveCredentials_issued`: what it is resolved to later on.
-/

namespace SimpleStorage
namespace AccessKeysService

open AccessKeysTypes Program

/-! ## Finding a key -/

section Finding

variable (N : Node) (config : CryptographicConfig)

/-- The active keys of a user, the oldest first. -/
def activeKeys (userGuid : UserGuid) (db : Database) : List AccessKeyRow :=
  (db.accessKeys.filter fun k => k.userGuid = userGuid && k.status = .active && k.deletedAt.isNone).insertionSort
    fun k k' => k.createdAt ≤ k'.createdAt

/-- The first that has not expired.  The clock is read for each key that expires. -/
def findUnexpired : List AccessKeyRow → Service (Option AccessKeyRow)
  | [] => pure none
  | row :: rows =>
      match row.expiresAt with
      | none => pure (some row)
      | some expiresAt => do
          let call ← World.nextCall
          if N.now call < expiresAt then return some row else findUnexpired rows

/-- Credentials the management API signs a presigned URL with on the user's behalf: their oldest
usable key. -/
def resolveSigningCredentials (userGuid : UserGuid) : Service (Option ResolvedCredentials) := do
  let rows ← World.select (activeKeys userGuid)
  match ← findUnexpired N rows with
  | none => return none
  | some usable => do
      let secretAccessKey ← CryptographicService.decrypt N config usable.secretKeyEncrypted
      return some ⟨usable.accessKeyId, secretAccessKey, usable.userGuid⟩

variable {N config}

/-- Nothing is written, and what is found comes behind keys that have expired. -/
theorem findUnexpired_spec (rows : List AccessKeyRow) (w : World) :
    wp (findUnexpired N rows)
      (fun found w' => w'.db = w.db ∧ ∀ row, found = some row → ∃ before after,
        rows = before ++ row :: after ∧ ∀ k ∈ before, ∃ expiresAt call, k.expiresAt = some expiresAt ∧
          expiresAt ≤ N.now call)
      (fun _ _ => False) w := by
  induction rows generalizing w with
  | nil => exact ⟨rfl, by simp⟩
  | cons row rows ih =>
    have hhead : ∀ row', some row = some row' → ∃ before after,
        row :: rows = before ++ row' :: after ∧ ∀ k ∈ before, ∃ expiresAt call,
          k.expiresAt = some expiresAt ∧ expiresAt ≤ N.now call := by
      intro row' h
      cases h
      exact ⟨[], rows, rfl, by simp⟩
    rw [findUnexpired]
    cases hexpires : row.expiresAt with
    | none => exact ⟨rfl, hhead⟩
    | some expiresAt =>
      dsimp only
      rw [wp_bind, World.nextCall, wp_alter, wp_ite]
      split_ifs with hlive
      · exact ⟨rfl, hhead⟩
      · refine wp_mono (ih _) ?_ fun _ _ h => h
        rintro found w' ⟨hdb, hfound⟩
        refine ⟨hdb, fun row' hrow' => ?_⟩
        obtain ⟨before, after, hrows, hbefore⟩ := hfound row' hrow'
        refine ⟨row :: before, after, by rw [hrows, List.cons_append], fun k hk => ?_⟩
        rcases List.mem_cons.mp hk with rfl | hk
        · exact ⟨expiresAt, w.calls, hexpires, not_lt.mp hlive⟩
        · exact hbefore k hk

/-- **The key a link is signed with**: an active key of the caller, with every other that is as old
expired - in the order in which the keys were created. -/
structure SigningKey (N : Node) (userGuid : UserGuid) (db : Database) (row : AccessKeyRow) : Prop where
  mem : row ∈ db.accessKeys
  owner : row.userGuid = userGuid
  active : row.status = .active
  live : row.deletedAt = none
  oldest : ∀ k ∈ db.accessKeys, k.userGuid = userGuid → k.status = .active → k.deletedAt = none →
    k.createdAt < row.createdAt → ∃ expiresAt call, k.expiresAt = some expiresAt ∧ expiresAt ≤ N.now call

theorem mem_activeKeys {userGuid : UserGuid} {db : Database} {k : AccessKeyRow} :
    k ∈ activeKeys userGuid db ↔
      k ∈ db.accessKeys ∧ k.userGuid = userGuid ∧ k.status = .active ∧ k.deletedAt = none := by
  rw [activeKeys, List.mem_insertionSort, List.mem_filter]
  simp [and_assoc]

theorem signingKey_of_split {userGuid : UserGuid} {db : Database} {row : AccessKeyRow}
    {before after : List AccessKeyRow} (hrows : activeKeys userGuid db = before ++ row :: after)
    (hbefore : ∀ k ∈ before, ∃ expiresAt call, k.expiresAt = some expiresAt ∧ expiresAt ≤ N.now call) :
    SigningKey N userGuid db row := by
  have hrow : row ∈ activeKeys userGuid db := by simp [hrows]
  obtain ⟨hmem, howner, hactive, hlive⟩ := mem_activeKeys.mp hrow
  refine ⟨hmem, howner, hactive, hlive, fun k hk hkowner hkactive hklive holder => ?_⟩
  have hk' : k ∈ activeKeys userGuid db := mem_activeKeys.mpr ⟨hk, hkowner, hkactive, hklive⟩
  -- The keys behind it are not older.
  have hsorted : (activeKeys userGuid db).Pairwise fun k k' => k.createdAt ≤ k'.createdAt :=
    haveI : Std.Total fun k k' : AccessKeyRow => k.createdAt ≤ k'.createdAt := ⟨fun _ _ => le_total _ _⟩
    haveI : IsTrans AccessKeyRow fun k k' => k.createdAt ≤ k'.createdAt := ⟨fun _ _ _ => le_trans⟩
    List.pairwise_insertionSort _ _
  rw [hrows] at hk' hsorted
  rcases List.mem_append.mp hk' with hk' | hk'
  · exact hbefore k hk'
  · rcases List.mem_cons.mp hk' with rfl | hk'
    · exact absurd holder (lt_irrefl _)
    · have hle := (List.pairwise_cons.mp (List.pairwise_append.mp hsorted).2.1).1 k hk'
      exact absurd holder (not_lt.mpr hle)

theorem resolveSigningCredentials_spec (userGuid : UserGuid) (w : World) :
    wp (resolveSigningCredentials N config userGuid)
      (fun found w' => w'.db = w.db ∧ ∀ credentials, found = some credentials →
        ∃ row, SigningKey N userGuid w.db row ∧
          CryptographicService.decrypted N config row.secretKeyEncrypted = some credentials.secretAccessKey ∧
          credentials.accessKeyId = row.accessKeyId ∧ credentials.userGuid = userGuid)
      (fun _ w' => w'.db = w.db) w := by
  rw [resolveSigningCredentials, wp_bind, World.select, wp_query, wp_bind]
  refine wp_mono (findUnexpired_spec (activeKeys userGuid w.db) w) ?_ fun _ _ h => h.elim
  rintro found w' ⟨hdb, hfound⟩
  cases found with
  | none => exact ⟨hdb, by simp⟩
  | some row =>
    dsimp only
    rw [wp_bind, CryptographicService.decrypt, wp_orThrow]
    refine ⟨fun secretAccessKey hsecret => ⟨hdb, ?_⟩, fun _ => hdb⟩
    intro credentials hcredentials
    cases hcredentials
    obtain ⟨before, after, hrows, hbefore⟩ := hfound row rfl
    have hkey := signingKey_of_split hrows hbefore
    exact ⟨row, hkey, hsecret, rfl, hkey.owner⟩

end Finding

/-! ## What becomes of the keys -/

section Identifiers

variable {N : Node} {A : AuthRuntime} {config : CryptographicConfig} {w : World}

/-- **What a request does to the table of keys**: it changes what keys may be used for, or adds a key
with an identifier that was not given out before. -/
inductive KeysStep (N : Node) (keys : List AccessKeyRow) : List AccessKeyRow → Prop where
  | changed (f : AccessKeyRow → AccessKeyRow)
      (hf : ∀ k, (f k).accessKeyId = k.accessKeyId ∧ (f k).userGuid = k.userGuid ∧
        (f k).secretKeyEncrypted = k.secretKeyEncrypted) : KeysStep N keys (keys.map f)
  | created (row : AccessKeyRow) (call : ℕ) (hnew : ∀ k ∈ keys, k.accessKeyId ≠ row.accessKeyId)
      (hid : row.accessKeyId = generateAccessKeyId (N.randomBytes call accessKeyIdLength)) :
      KeysStep N keys (keys ++ [row])

theorem KeysStep.of_eq {keys keys' : List AccessKeyRow} (h : keys' = keys) : KeysStep N keys keys' := by
  have hid : KeysStep N keys (keys.map id) := .changed id fun _ => ⟨rfl, rfl, rfl⟩
  rw [List.map_id] at hid
  rwa [h]

theorem updateAccessKey_step (accessKeyId : Text) {f : AccessKeyRow → AccessKeyRow}
    (hf : ∀ k, (f k).accessKeyId = k.accessKeyId ∧ (f k).userGuid = k.userGuid ∧
      (f k).secretKeyEncrypted = k.secretKeyEncrypted) (db : Database) :
    KeysStep N db.accessKeys (updateAccessKey accessKeyId f db).2.accessKeys := by
  refine .changed _ fun k => ?_
  split_ifs
  · exact hf k
  · exact ⟨rfl, rfl, rfl⟩

theorem create_step (owner : UserGuid) (description : Option Text) (expiresAt : Option Timestamp) :
    wp (create N config owner description expiresAt)
      (fun _ w' => KeysStep N w.db.accessKeys w'.db.accessKeys)
      (fun _ w' => KeysStep N w.db.accessKeys w'.db.accessKeys) w := by
  rw [create, wp_bind, World.nextCall, wp_alter, wp_bind, wp_alter, wp_bind]
  refine wp_mono (CryptographicService.encrypt_spec _ _) ?_ fun _ _ h => h.elim
  rintro encrypted _ ⟨rfl, -⟩
  rw [wp_bind, World.insertFor, wp_perform, insertAccessKey]
  split_ifs with htaken howner
  · exact .of_eq rfl
  · refine .created _ w.calls (fun k hk hid => htaken ?_) rfl
    exact List.any_eq_true.mpr ⟨k, hk, decide_eq_true hid⟩
  · exact .of_eq rfl

theorem request_step (r : AccountRequest) (w : World) :
    wp (r.program N A config) (fun _ w' => KeysStep N w.db.accessKeys w'.db.accessKeys)
      (fun _ w' => KeysStep N w.db.accessKeys w'.db.accessKeys) w := by
  cases r with
  | createUser email password role =>
    rw [AccountRequest.program, wp_bind]
    exact wp_mono (createUser_keys email password role _ w rfl) (fun _ _ h => .of_eq h) fun _ _ h => .of_eq h
  | setUserStatus guid status =>
    rw [AccountRequest.program, wp_bind]
    exact wp_mono (setUserStatus_keys guid status _ w rfl) (fun _ _ h => .of_eq h) fun _ _ h => .of_eq h
  | deleteUser guid =>
    rw [AccountRequest.program, wp_bind]
    exact wp_mono (deleteUser_keys guid _ w rfl) (fun _ _ h => .of_eq h) fun _ _ h => .of_eq h
  | createKey owner description expiresAt =>
    rw [AccountRequest.program, wp_bind]
    exact wp_mono (create_step owner description expiresAt) (fun _ _ h => h) fun _ _ h => h
  | setKeyStatus accessKeyId status =>
    have hstep := updateAccessKey_step (N := N) accessKeyId (f := fun k => { k with status })
      (fun _ => ⟨rfl, rfl, rfl⟩) w.db
    rw [AccountRequest.program, wp_bind, setStatus, wp_bind, World.execute, wp_alter, wp_require]
    exact ⟨fun _ => hstep, fun _ => hstep⟩
  | deleteKey accessKeyId =>
    have hstep := updateAccessKey_step (N := N) accessKeyId
      (f := fun k => { k with deletedAt := some (N.now w.calls) }) (fun _ => ⟨rfl, rfl, rfl⟩) w.db
    rw [AccountRequest.program, wp_bind, delete, wp_bind, World.insertFor, wp_perform, wp_require]
    exact ⟨fun _ => hstep, fun _ => hstep⟩

/-- What no step changes is kept by every run. -/
theorem runAll_keys {inv : List AccessKeyRow → Prop}
    (hstep : ∀ keys keys', KeysStep N keys keys' → inv keys → inv keys') (hw : inv w.db.accessKeys)
    (requests : List AccountRequest) :
    inv (runAll (AccountRequest.program N A config) requests w).db.accessKeys := by
  have hrequest : ∀ r ∈ requests, ∀ s : World, inv s.db.accessKeys →
      inv (stateAfter (r.program N A config) s).db.accessKeys := by
    intro r _ s hs
    exact stateAfter_of_wp (p := fun w : World => inv w.db.accessKeys)
      (wp_mono (request_step r s) (fun _ _ h => hstep _ _ h hs) fun _ _ h => hstep _ _ h hs)
  exact @runAll_keeps _ _ _ _ _ (AccountRequest.program N A config) (fun w : World => inv w.db.accessKeys)
    requests hrequest w hw

/-! ## Identifiers -/

/-- Identifiers are told apart, and can be told apart from what is around them. -/
structure KeyTable (keys : List AccessKeyRow) : Prop where
  nodup : (keys.map (·.accessKeyId)).Nodup
  plain : ∀ k ∈ keys, k.accessKeyId ≠ [] ∧ '/' ∉ k.accessKeyId ∧ Char.ofNat 0 ∉ k.accessKeyId

theorem plain_generateAccessKeyId (random : Bytes) :
    generateAccessKeyId random ≠ [] ∧ '/' ∉ generateAccessKeyId random ∧
      Char.ofNat 0 ∉ generateAccessKeyId random := by
  have hchars : ∀ c ∈ generateAccessKeyId random, c ∈ 'A' :: "ST".toList ++ alphabet := by
    intro c hc
    rw [generateAccessKeyId, List.mem_append] at hc
    rcases hc with hc | hc
    · exact List.mem_append_left _ (List.mem_cons_of_mem _ hc)
    · obtain ⟨byte, -, rfl⟩ := List.mem_map.mp (List.mem_of_mem_take hc)
      rw [List.getD_eq_getElem?_getD]
      cases hget : alphabet[byte.toNat % alphabet.length]? with
      | none => simp
      | some c =>
        have hmem := List.mem_of_getElem? hget
        simp [hmem]
  have hslash : '/' ∉ 'A' :: "ST".toList ++ alphabet := by decide
  have hnul : Char.ofNat 0 ∉ 'A' :: "ST".toList ++ alphabet := by decide
  exact ⟨by simp [generateAccessKeyId], fun h => hslash (hchars _ h), fun h => hnul (hchars _ h)⟩

theorem KeyTable.step {keys keys' : List AccessKeyRow} (hstep : KeysStep N keys keys') (h : KeyTable keys) :
    KeyTable keys' := by
  cases hstep with
  | changed f hf =>
    constructor
    · have hsame : (keys.map f).map (·.accessKeyId) = keys.map (·.accessKeyId) := by
        rw [List.map_map]
        exact List.map_congr_left fun k _ => (hf k).1
      rw [hsame]
      exact h.nodup
    · intro k' hk'
      obtain ⟨k, hk, rfl⟩ := List.mem_map.mp hk'
      rw [(hf k).1]
      exact h.plain k hk
  | created row call hnew hid =>
    constructor
    · rw [List.map_append, List.map_singleton, List.nodup_append]
      refine ⟨h.nodup, List.nodup_singleton _, ?_⟩
      rintro _ hx y hy rfl
      obtain ⟨k, hk, hkid⟩ := List.mem_map.mp hx
      exact hnew k hk (hkid.trans (List.mem_singleton.mp hy))
    · intro k hk
      rcases List.mem_append.mp hk with hk | hk
      · exact h.plain k hk
      · rw [List.mem_singleton.mp hk, hid]
        exact plain_generateAccessKeyId _

/-- **An identifier has been given out** with an owner and a secret. -/
structure Issued (accessKeyId : Text) (userGuid : UserGuid) (secretKeyEncrypted : Text)
    (keys : List AccessKeyRow) : Prop where
  taken : ∃ row ∈ keys, row.accessKeyId = accessKeyId
  same : ∀ row ∈ keys, row.accessKeyId = accessKeyId →
    row.userGuid = userGuid ∧ row.secretKeyEncrypted = secretKeyEncrypted

variable {accessKeyId : Text} {userGuid : UserGuid} {secretKeyEncrypted : Text}

theorem KeyTable.issued {keys : List AccessKeyRow} (h : KeyTable keys) {row : AccessKeyRow}
    (hrow : row ∈ keys) : Issued row.accessKeyId row.userGuid row.secretKeyEncrypted keys := by
  refine ⟨⟨row, hrow, rfl⟩, fun k hk hid => ?_⟩
  rw [List.inj_on_of_nodup_map h.nodup hk hrow hid]
  exact ⟨rfl, rfl⟩

/-- **An identifier keeps its owner and its secret.** -/
theorem Issued.step {keys keys' : List AccessKeyRow} (hstep : KeysStep N keys keys')
    (h : Issued accessKeyId userGuid secretKeyEncrypted keys) :
    Issued accessKeyId userGuid secretKeyEncrypted keys' := by
  obtain ⟨issued, hissued, hid⟩ := h.taken
  cases hstep with
  | changed f hf =>
    refine ⟨⟨f issued, List.mem_map_of_mem hissued, (hf issued).1.trans hid⟩, fun k' hk' hk'id => ?_⟩
    obtain ⟨k, hk, rfl⟩ := List.mem_map.mp hk'
    obtain ⟨hfid, hfowner, hfsecret⟩ := hf k
    rw [hfowner, hfsecret]
    exact h.same k hk (hfid.symm.trans hk'id)
  | created row call hnew _ =>
    refine ⟨⟨issued, List.mem_append_left _ hissued, hid⟩, fun k hk hkid => ?_⟩
    rcases List.mem_append.mp hk with hk | hk
    · exact h.same k hk hkid
    · have hrow : row.accessKeyId = accessKeyId := List.mem_singleton.mp hk ▸ hkid
      exact absurd (hid.trans hrow.symm) (hnew issued hissued)

/-- The key is there, is active and has not expired. -/
def usableAt (now : Timestamp) (found : Option AccessKeyRow) : Bool :=
  found.any fun row => row.status = .active && row.expiresAt.all (¬ · < now)

/-- **What an identifier is resolved to**: what it was given out with, as long as it can be used. -/
theorem resolveCredentials_issued (hw : Issued accessKeyId userGuid secretKeyEncrypted w.db.accessKeys)
    {secretAccessKey : Text}
    (hsecret : CryptographicService.decrypted N config secretKeyEncrypted = some secretAccessKey) :
    wp (resolveCredentials N config accessKeyId)
      (fun credentials _ => usableAt (N.now w.calls) (findAccessKey accessKeyId w.db) = true ∧
        credentials = ⟨accessKeyId, secretAccessKey, userGuid⟩)
      (fun e _ => usableAt (N.now w.calls) (findAccessKey accessKeyId w.db) = false ∧
        (e = .accessKeyNotFound ∨ e = .accessKeyInactive)) w := by
  rw [resolveCredentials, wp_bind, World.select, wp_query]
  cases hfound : findAccessKey accessKeyId w.db with
  | none => exact ⟨rfl, .inl rfl⟩
  | some row =>
    have hid := findAccessKey_eq_some hfound
    obtain ⟨howner, henc⟩ := hw.same row (List.mem_of_find?_eq_some hfound) hid
    have hrest : usableAt (N.now w.calls) (some row) = true → ∀ w', wp (do
        let secretAccessKey ← CryptographicService.decrypt N config row.secretKeyEncrypted
        return (⟨row.accessKeyId, secretAccessKey, row.userGuid⟩ : ResolvedCredentials))
        (fun credentials _ => usableAt (N.now w.calls) (some row) = true ∧
          credentials = ⟨accessKeyId, secretAccessKey, userGuid⟩)
        (fun e _ => usableAt (N.now w.calls) (some row) = false ∧
          (e = .accessKeyNotFound ∨ e = .accessKeyInactive)) w' := by
      intro husable w'
      rw [wp_bind, CryptographicService.decrypt, wp_orThrow, henc, hsecret, hid, howner]
      refine ⟨fun secret hsome => ⟨husable, ?_⟩, by simp⟩
      rw [Option.some.inj hsome]
    rw [wp_bind, orThrow, wp_pure, wp_bind, wp_require]
    refine ⟨fun hactive => ?_, fun hinactive => ⟨by simp [usableAt, hinactive], .inr rfl⟩⟩
    rw [wp_bind]
    cases hexpiry : row.expiresAt with
    | none => exact hrest (by simp [usableAt, hactive, hexpiry]) w
    | some expiresAt =>
      dsimp only
      rw [wp_bind, World.nextCall, wp_alter, wp_require]
      refine ⟨fun hlive => hrest ?_ _, fun hexpired => ⟨?_, .inr rfl⟩⟩
      · have hlive : ¬ expiresAt < N.now w.calls := hlive
        simp [usableAt, hactive, hexpiry, not_lt.mp hlive]
      · have hexpired : expiresAt < N.now w.calls := not_not.mp hexpired
        simp [usableAt, hactive, hexpiry, hexpired]

end Identifiers

end AccessKeysService
end SimpleStorage
