import SimpleStorage.AccessKeys.AccessKeysService
import SimpleStorage.Library.Joins
import SimpleStorage.Users.UsersService

/-!
# Access keys and their owners

Whether a key may be used should depend on what became of the key and of its owner: it was
created and not deleted since, it is active and not past its expiry, and its owner is still
there.  A disabled owner's keys go on working, a deleted one's should not.

`History` is what the requests of a run and their answers say of both.  The table of keys
agrees with it (`recorded`), but the service asks nothing of the table of users:

* `resolveCredentials_eq`: the credentials that are resolved, in terms of the history;
* `resolves_iff`: a key resolves when it should, exactly if it cannot be used anyway, or its
  owner is still there;
* `deleted_owner_resolves`: a key that outlives its owner.
-/

namespace SimpleStorage
namespace AccessKeysService

open AccessKeysTypes Program

/-! ## Requests and their history -/

inductive AccountRequest where
  | createUser (email password : Text) (role : UserRole)
  | setUserStatus (guid : UserGuid) (status : UserStatus)
  | deleteUser (guid : UserGuid)
  | createKey (userGuid : UserGuid) (description : Option Text) (expiresAt : Option Timestamp)
  | setKeyStatus (accessKeyId : Text) (status : AccessKeyStatus)
  | deleteKey (accessKeyId : Text)
  deriving DecidableEq, Repr

inductive AccountReply where
  | user (row : UserRow)
  | key (created : CreatedAccessKey)
  | done
  deriving DecidableEq, Repr

variable (N : Node) (A : AuthRuntime) (config : CryptographicConfig)

def AccountRequest.program : AccountRequest → Service AccountReply
  | .createUser email password role => do return .user (← UsersService.create N A email password role)
  | .setUserStatus guid status => do
      UsersService.setStatus guid status
      return .done
  | .deleteUser guid => do
      UsersService.delete N guid
      return .done
  | .createKey userGuid description expiresAt => do
      return .key (← create N config userGuid description expiresAt)
  | .setKeyStatus accessKeyId status => do
      setStatus accessKeyId status
      return .done
  | .deleteKey accessKeyId => do
      delete N accessKeyId
      return .done

/-- The key is active and not past its expiry. -/
def isUsable (now : Timestamp) (k : CreatedAccessKey) : Bool :=
  k.status = .active && k.expiresAt.all (¬ · < now)

/-- **What the requests say**: the keys that were created and not deleted, each with the status it
was given last, and the users that were deleted. -/
structure History where
  keys : Text → Option CreatedAccessKey := fun _ => none
  deleted : List UserGuid := []

namespace History

/-- What a request and its answer add. -/
def next : AccountRequest → Except Fault AccountReply → History → History
  | .createKey .., .ok (.key created), h =>
      { h with keys := Function.update h.keys created.accessKeyId (some created) }
  | .setKeyStatus accessKeyId status, .ok _, h => { h with
      keys := Function.update h.keys accessKeyId ((h.keys accessKeyId).map ({ · with status })) }
  | .deleteKey accessKeyId, .ok _, h => { h with keys := Function.update h.keys accessKeyId none }
  | .deleteUser guid, .ok _, h => { h with deleted := guid :: h.deleted }
  | _, _, h => h

/-- The key, if it can be used at a time as far as it goes. -/
def usable (h : History) (accessKeyId : Text) (now : Timestamp) : Option CreatedAccessKey :=
  (h.keys accessKeyId).filter (isUsable now)

/-- **The law**: the key can be used, and its owner has not been deleted. -/
def admits (h : History) (accessKeyId : Text) (now : Timestamp) : Bool :=
  (h.usable accessKeyId now).any (·.userGuid ∉ h.deleted)

end History

/-! ## The table of keys -/

/-- A row holds the key that was handed out.  An empty secret cannot be read back. -/
structure Holds (row : AccessKeyRow) (k : CreatedAccessKey) : Prop where
  item : toItem row = k.toAccessKeyItem
  secret : CryptographicService.decrypted N config row.secretKeyEncrypted =
    if k.secretAccessKey = [] then none else some k.secretAccessKey

/-- **The table agrees with the history.** -/
def Recorded (db : Database) (h : History) : Prop :=
  ∀ accessKeyId, Option.Rel (Holds N config) (findAccessKey accessKeyId db) (h.keys accessKeyId)

theorem findAccessKey_eq_some {accessKeyId : Text} {db : Database} {row : AccessKeyRow}
    (h : findAccessKey accessKeyId db = some row) : row.accessKeyId = accessKeyId := by
  have hp := List.find?_some h
  rw [Bool.and_eq_true, decide_eq_true_iff] at hp
  exact hp.1

/-- Updating a key does nothing to the others. -/
theorem findAccessKey_update_other {accessKeyId other : Text} (hne : other ≠ accessKeyId)
    {f : AccessKeyRow → AccessKeyRow} (hid : ∀ k, (f k).accessKeyId = k.accessKeyId) (db : Database) :
    findAccessKey other (updateAccessKey accessKeyId f db).2 = findAccessKey other db := by
  refine Join.find?_update_other (fun k hk => ?_) db.accessKeys
  rw [Bool.and_eq_true, decide_eq_true_iff] at hk
  rw [hid, hk.1, decide_eq_false hne.symm]
  exact ⟨rfl, rfl⟩

/-- An update that leaves the key there. -/
theorem findAccessKey_update {accessKeyId : Text} {f : AccessKeyRow → AccessKeyRow}
    (hid : ∀ k, (f k).accessKeyId = k.accessKeyId) (hdeleted : ∀ k, (f k).deletedAt = k.deletedAt)
    (db : Database) : findAccessKey accessKeyId (updateAccessKey accessKeyId f db).2 =
      (findAccessKey accessKeyId db).map f := by
  refine Join.find?_update (fun k hk => ?_) db.accessKeys
  rw [hid, hdeleted]
  exact hk

/-- An update that deletes the key. -/
theorem findAccessKey_update_deleted {accessKeyId : Text} {f : AccessKeyRow → AccessKeyRow}
    (hdeleted : ∀ k, (f k).deletedAt.isNone = false) (db : Database) :
    findAccessKey accessKeyId (updateAccessKey accessKeyId f db).2 = none := by
  refine Join.find?_update_out (fun k _ => ?_) db.accessKeys
  rw [hdeleted, Bool.and_false]

/-- An update that finds no key changes nothing. -/
theorem updateAccessKey_none {accessKeyId : Text} {f : AccessKeyRow → AccessKeyRow} {db : Database}
    (h : (updateAccessKey accessKeyId f db).1 = 0) :
    (updateAccessKey accessKeyId f db).2.accessKeys = db.accessKeys := by
  have hnone := List.filter_eq_nil_iff.mp (List.length_eq_zero_iff.mp h)
  refine (List.map_congr_left fun k hk => ?_).trans (List.map_id db.accessKeys)
  rw [if_neg (hnone k hk)]
  rfl

/-- A new key is found under its identifier, and the others as before. -/
theorem findAccessKey_append {row : AccessKeyRow} {db : Database}
    (hnew : db.accessKeys.any (·.accessKeyId = row.accessKeyId) = false) (hlive : row.deletedAt = none)
    (other : Text) :
    findAccessKey other { db with accessKeys := db.accessKeys ++ [row] } =
      if other = row.accessKeyId then some row else findAccessKey other db := by
  rw [findAccessKey, List.find?_append, List.find?_singleton, hlive]
  by_cases hother : other = row.accessKeyId
  · rw [if_pos hother, hother]
    have hnone : db.accessKeys.find? (fun k => k.accessKeyId = row.accessKeyId && k.deletedAt.isNone) =
        none := by
      refine List.find?_eq_none.mpr fun k hk h => ?_
      rw [Bool.and_eq_true] at h
      exact absurd h.1 (List.any_eq_false.mp hnew k hk)
    rw [hnone, Option.none_or, decide_eq_true rfl]
    rfl
  · rw [if_neg hother, decide_eq_false (Ne.symm hother)]
    exact Option.or_none

section Simulation

variable {N A config} {w : World} {h : History}

theorem Recorded.congr {db db' : Database} (hrecorded : Recorded N config db h)
    (hsame : db'.accessKeys = db.accessKeys) : Recorded N config db' h := by
  unfold Recorded findAccessKey
  rw [hsame]
  exact hrecorded

/-- What is found under other identifiers stays in agreement. -/
theorem Recorded.update {db db' : Database} (hrecorded : Recorded N config db h) {accessKeyId : Text}
    {k : Option CreatedAccessKey}
    (hself : Option.Rel (Holds N config) (findAccessKey accessKeyId db') k)
    (hothers : ∀ other, other ≠ accessKeyId → findAccessKey other db' = findAccessKey other db)
    (deleted : List UserGuid) :
    Recorded N config db' ⟨Function.update h.keys accessKeyId k, deleted⟩ := by
  intro other
  by_cases hother : other = accessKeyId
  · rw [hother]
    dsimp only
    rw [Function.update_self]
    exact hself
  · dsimp only
    rw [Function.update_of_ne hother, hothers other hother]
    exact hrecorded other

/-- A new row is recorded with the key it holds. -/
theorem Recorded.inserted {db : Database} (hrecorded : Recorded N config db h) {row : AccessKeyRow}
    {k : CreatedAccessKey} (hnew : db.accessKeys.any (·.accessKeyId = row.accessKeyId) = false)
    (hlive : row.deletedAt = none) (hholds : Holds N config row k) :
    Recorded N config { db with accessKeys := db.accessKeys ++ [row] }
      { h with keys := Function.update h.keys k.accessKeyId (some k) } := by
  have hid : row.accessKeyId = k.accessKeyId := congrArg AccessKeyItem.accessKeyId hholds.item
  refine hrecorded.update ?_ (fun other hother => ?_) h.deleted
  · rw [findAccessKey_append hnew hlive, if_pos hid.symm]
    exact .some hholds
  · rw [findAccessKey_append hnew hlive, if_neg (hid ▸ hother)]

/-- **A created key is recorded** with the secret that was handed out. -/
theorem create_spec (hrecorded : Recorded N config w.db h) (userGuid : UserGuid)
    (description : Option Text) (expiresAt : Option Timestamp) :
    wp (create N config userGuid description expiresAt)
      (fun created w' => Recorded N config w'.db
        { h with keys := Function.update h.keys created.accessKeyId (some created) })
      (fun _ w' => Recorded N config w'.db h) w := by
  rw [create, wp_bind, World.nextCall, wp_alter, wp_bind, wp_alter, wp_bind]
  refine wp_mono (CryptographicService.encrypt_spec _ _) ?_ fun _ _ h => h.elim
  rintro encrypted _ ⟨rfl, hdecrypted⟩
  rw [wp_bind, World.insertFor, wp_perform, insertAccessKey]
  split_ifs with htaken howner
  · exact hrecorded
  · exact hrecorded.inserted (Bool.not_eq_true _ ▸ htaken) rfl ⟨rfl, hdecrypted⟩
  · exact hrecorded

theorem setStatus_spec (hrecorded : Recorded N config w.db h) (accessKeyId : Text)
    (status : AccessKeyStatus) :
    wp (setStatus accessKeyId status)
      (fun _ w' => Recorded N config w'.db { h with
        keys := Function.update h.keys accessKeyId ((h.keys accessKeyId).map ({ · with status })) })
      (fun _ w' => Recorded N config w'.db h) w := by
  rw [setStatus, wp_bind, World.execute, wp_alter, wp_require]
  refine ⟨fun _ => ?_, fun hnone => hrecorded.congr (updateAccessKey_none (not_not.mp hnone))⟩
  refine hrecorded.update ?_ (fun other hother => ?_) h.deleted
  · change Option.Rel _ (findAccessKey accessKeyId (updateAccessKey accessKeyId _ w.db).2) _
    rw [findAccessKey_update (f := fun k => { k with status }) (fun _ => rfl) fun _ => rfl]
    have hkeys := hrecorded accessKeyId
    generalize findAccessKey accessKeyId w.db = found at hkeys ⊢
    generalize h.keys accessKeyId = k at hkeys ⊢
    cases hkeys with
    | none => exact .none
    | some hholds =>
      exact .some ⟨congrArg (fun item : AccessKeyItem => { item with status }) hholds.item, hholds.secret⟩
  · exact findAccessKey_update_other (f := fun k => { k with status }) hother (fun _ => rfl) w.db

theorem delete_spec (hrecorded : Recorded N config w.db h) (accessKeyId : Text) :
    wp (delete N accessKeyId)
      (fun _ w' => Recorded N config w'.db
        { h with keys := Function.update h.keys accessKeyId none })
      (fun _ w' => Recorded N config w'.db h) w := by
  rw [delete, wp_bind, World.insertFor, wp_perform, wp_require]
  refine ⟨fun _ => ?_, fun hnone => hrecorded.congr (updateAccessKey_none (not_not.mp hnone))⟩
  refine hrecorded.update ?_ (fun other hother => ?_) h.deleted
  · change Option.Rel _ (findAccessKey accessKeyId (updateAccessKey accessKeyId _ w.db).2) _
    rw [findAccessKey_update_deleted (f := fun k => { k with deletedAt := some (N.now w.calls) })
      fun _ => rfl]
    exact .none
  · exact findAccessKey_update_other (f := fun k => { k with deletedAt := some (N.now w.calls) }) hother
      (fun _ => rfl) w.db

/-- Nothing becomes of the keys of users who are created, disabled or deleted. -/
theorem createUser_keys (email password : Text) (role : UserRole) (keys : List AccessKeyRow) :
    Keeps (fun w => w.db.accessKeys = keys) (UsersService.create N A email password role) := by
  refine .bind (.bind (fun _ hw => hw) fun _ => .pure _) fun passwordHash =>
    .bind (fun w hw => ?_) fun _ => .orThrow _ _
  rw [World.insertFor, wp_perform, UsersService.insertUser]
  split_ifs
  · exact hw
  · exact hw

theorem updateFor_keys {α : Type} {f : ℕ → Database → α × Database}
    (hf : ∀ call db, (f call db).2.accessKeys = db.accessKeys) (guid : UserGuid)
    (keys : List AccessKeyRow) :
    Keeps (fun w => w.db.accessKeys = keys) (UsersService.updateFor guid f) :=
  fun w hw => (hf w.calls w.db).trans hw

theorem get_keys (guid : UserGuid) (keys : List AccessKeyRow) :
    Keeps (fun w => w.db.accessKeys = keys) (UsersService.get guid) :=
  .bind ((World.select_readOnly _).keeps _) fun _ => .orThrow _ _

theorem selectAdmins_keys (c : Prop) [Decidable c] (e : Fault) (keys : List AccessKeyRow) :
    Keeps (fun w => w.db.accessKeys = keys) (if c then do
      let admins ← UsersService.selectAdmins
      require (¬ admins ≤ 1) e
    else pure ()) :=
  .ite (.bind ((World.selectFor_readOnly _ _).keeps _) fun _ => .require _ _) (.pure _)

theorem setUserStatus_keys (guid : UserGuid) (status : UserStatus) (keys : List AccessKeyRow) :
    Keeps (fun w => w.db.accessKeys = keys) (UsersService.setStatus guid status) :=
  .bind (get_keys guid keys) fun _ => .bind (selectAdmins_keys _ _ keys) fun _ =>
    .bind (updateFor_keys (fun _ _ => rfl) guid keys) fun _ => .require _ _

theorem deleteUser_keys (guid : UserGuid) (keys : List AccessKeyRow) :
    Keeps (fun w => w.db.accessKeys = keys) (UsersService.delete N guid) :=
  .bind (get_keys guid keys) fun _ => .bind (selectAdmins_keys _ _ keys) fun _ =>
    updateFor_keys (fun _ _ => rfl) guid keys

/-- **Every request keeps the agreement.** -/
theorem request_recorded (hrecorded : Recorded N config w.db h) (r : AccountRequest) :
    wp (r.program N A config) (fun reply w' => Recorded N config w'.db (History.next r (.ok reply) h))
      (fun e w' => Recorded N config w'.db (History.next r (.error e) h)) w := by
  cases r with
  | createUser email password role =>
    rw [AccountRequest.program, wp_bind]
    exact wp_mono (createUser_keys email password role _ w rfl) (fun _ _ hkeys => hrecorded.congr hkeys)
      fun _ _ hkeys => hrecorded.congr hkeys
  | setUserStatus guid status =>
    rw [AccountRequest.program, wp_bind]
    exact wp_mono (setUserStatus_keys guid status _ w rfl) (fun _ _ hkeys => hrecorded.congr hkeys)
      fun _ _ hkeys => hrecorded.congr hkeys
  | deleteUser guid =>
    rw [AccountRequest.program, wp_bind]
    exact wp_mono (deleteUser_keys guid _ w rfl) (fun _ _ hkeys => hrecorded.congr hkeys)
      fun _ _ hkeys => hrecorded.congr hkeys
  | createKey userGuid description expiresAt =>
    rw [AccountRequest.program, wp_bind]
    exact wp_mono (create_spec hrecorded userGuid description expiresAt) (fun _ _ h => h) fun _ _ h => h
  | setKeyStatus accessKeyId status =>
    rw [AccountRequest.program, wp_bind]
    exact wp_mono (setStatus_spec hrecorded accessKeyId status) (fun _ _ h => h) fun _ _ h => h
  | deleteKey accessKeyId =>
    rw [AccountRequest.program, wp_bind]
    exact wp_mono (delete_spec hrecorded accessKeyId) (fun _ _ h => h) fun _ _ h => h

/-- The secret of a held key is read back, unless it is empty. -/
theorem decrypt_holds {row : AccessKeyRow} {k : CreatedAccessKey} (hholds : Holds N config row k)
    (w : World) :
    wp (CryptographicService.decrypt N config row.secretKeyEncrypted)
      (fun secretAccessKey _ => secretAccessKey = k.secretAccessKey ∧ k.secretAccessKey ≠ [])
      (fun _ _ => k.secretAccessKey = []) w := by
  rw [CryptographicService.decrypt, wp_orThrow, hholds.secret]
  split_ifs with hsecret
  · exact ⟨nofun, fun _ => hsecret⟩
  · exact ⟨fun secret hsome => ⟨(Option.some.inj hsome).symm, hsecret⟩, nofun⟩

/-- **What is resolved**: the credentials of the key, if it can be used and its secret is not empty. -/
theorem resolveCredentials_spec (hrecorded : Recorded N config w.db h) (accessKeyId : Text) :
    wp (resolveCredentials N config accessKeyId)
      (fun credentials _ => ∃ k, h.usable accessKeyId (N.now w.calls) = some k ∧ k.secretAccessKey ≠ [] ∧
        credentials = ⟨accessKeyId, k.secretAccessKey, k.userGuid⟩)
      (fun _ _ => ∀ k, h.usable accessKeyId (N.now w.calls) = some k → k.secretAccessKey = []) w := by
  have hkeys := hrecorded accessKeyId
  have hid : ∀ row, findAccessKey accessKeyId w.db = some row → row.accessKeyId = accessKeyId :=
    fun row hrow => findAccessKey_eq_some hrow
  rw [resolveCredentials, wp_bind, World.select, wp_query]
  unfold History.usable
  generalize findAccessKey accessKeyId w.db = found at hkeys hid ⊢
  generalize h.keys accessKeyId = key at hkeys ⊢
  cases hkeys with
  | none =>
    intro k hk
    simp at hk
  | @some row k hholds =>
    have hstatus : row.status = k.status := congrArg AccessKeyItem.status hholds.item
    have hexpires : row.expiresAt = k.expiresAt := congrArg AccessKeyItem.expiresAt hholds.item
    have huser : row.userGuid = k.userGuid := congrArg AccessKeyItem.userGuid hholds.item
    rw [Option.filter_some, wp_bind, orThrow, wp_pure, hid row rfl, huser, hstatus, hexpires, wp_bind,
      wp_require]
    refine ⟨fun hactive => ?_, fun hinactive => ?_⟩
    · have hsecret : isUsable (N.now w.calls) k = true → ∀ w', wp (do
          let secretAccessKey ← CryptographicService.decrypt N config row.secretKeyEncrypted
          return (⟨accessKeyId, secretAccessKey, k.userGuid⟩ : ResolvedCredentials))
          (fun credentials _ => ∃ k', (if isUsable (N.now w.calls) k then some k else none) = some k' ∧
            k'.secretAccessKey ≠ [] ∧ credentials = ⟨accessKeyId, k'.secretAccessKey, k'.userGuid⟩)
          (fun _ _ => ∀ k', (if isUsable (N.now w.calls) k then some k else none) = some k' →
            k'.secretAccessKey = []) w' := by
        intro husable w'
        rw [if_pos husable, wp_bind]
        refine wp_mono (decrypt_holds hholds w') ?_ fun _ _ hempty k' hk' => Option.some.inj hk' ▸ hempty
        rintro _ _ ⟨rfl, hne⟩
        exact ⟨k, rfl, hne, rfl⟩
      rw [wp_bind]
      cases hexpiry : k.expiresAt with
      | none =>
        refine hsecret ?_ w
        simp [isUsable, hactive, hexpiry]
      | some expiresAt =>
        dsimp only
        rw [wp_bind, World.nextCall, wp_alter, wp_require]
        refine ⟨fun hlive => hsecret ?_ _, fun hexpired => ?_⟩
        · have hlive : ¬ expiresAt < N.now w.calls := hlive
          simp [isUsable, hactive, hexpiry, not_lt.mp hlive]
        · have hexpired : expiresAt < N.now w.calls := not_not.mp hexpired
          simp [isUsable, hexpiry, hexpired]
    · simp [isUsable, hinactive]

end Simulation

/-! ## Runs -/

/-- A deployment nobody has an account on. -/
def newDeployment (encryption : StorageTypes.EncryptionConfig) : World := { db := {}, encryption }

/-- The history of a run on a new deployment. -/
def historyOf (encryption : StorageTypes.EncryptionConfig) (requests : List AccountRequest) : History :=
  follow History.next (trace (AccountRequest.program N A config) requests (newDeployment encryption)) {}

/-- The deployment after the run, when the clock is asked for the time of a call. -/
def deploymentAt (encryption : StorageTypes.EncryptionConfig) (requests : List AccountRequest) (call : ℕ) :
    World :=
  { runAll (AccountRequest.program N A config) requests (newDeployment encryption) with calls := call }

theorem recorded (encryption : StorageTypes.EncryptionConfig) (requests : List AccountRequest) (call : ℕ) :
    Recorded N config (deploymentAt N A config encryption requests call).db
      (historyOf N A config encryption requests) := by
  have hempty : Recorded N config (newDeployment encryption).db {} := fun _ => .none
  exact runAll_follows (R := fun (w : World) h => Recorded N config w.db h)
    (fun r _ _ hrecorded => request_recorded hrecorded r) hempty

/-- **A key resolves when it should**, after any run and at any time, exactly if it cannot be used
anyway, or its owner has not been deleted.  (A key whose random secret came out empty never
resolves, and should not once its owner is deleted.) -/
theorem resolves_iff (encryption : StorageTypes.EncryptionConfig) (requests : List AccountRequest)
    (accessKeyId : Text) (call : ℕ) :
    ((∃ credentials, outcome (resolveCredentials N config accessKeyId)
        (deploymentAt N A config encryption requests call) = .ok credentials) ↔
      (historyOf N A config encryption requests).admits accessKeyId (N.now call) = true) ↔
    ∀ k, (historyOf N A config encryption requests).usable accessKeyId (N.now call) = some k →
      (k.userGuid ∉ (historyOf N A config encryption requests).deleted ↔ k.secretAccessKey ≠ []) := by
  have hspec := resolveCredentials_spec (recorded N A config encryption requests call) accessKeyId
  generalize historyOf N A config encryption requests = h at hspec ⊢
  change wp _ (fun _ _ => ∃ k, h.usable accessKeyId (N.now call) = some k ∧ _) (fun _ _ => ∀ k,
    h.usable accessKeyId (N.now call) = some k → _) _ at hspec
  rw [History.admits]
  have hresolves : (∃ credentials, outcome (resolveCredentials N config accessKeyId)
      (deploymentAt N A config encryption requests call) = .ok credentials) ↔
      ∃ k, h.usable accessKeyId (N.now call) = some k ∧ k.secretAccessKey ≠ [] := by
    rcases outcome_of_wp hspec with ⟨_, hok, k, hk, hsecret, -⟩ | ⟨e, herror, hempty⟩
    · exact iff_of_true ⟨_, hok⟩ ⟨k, hk, hsecret⟩
    · refine iff_of_false ?_ ?_
      · rintro ⟨_, hok⟩
        rw [herror] at hok
        cases hok
      · rintro ⟨k, hk, hsecret⟩
        exact hsecret (hempty k hk)
  rw [hresolves]
  cases h.usable accessKeyId (N.now call) with
  | none => simp
  | some k =>
    simp only [Option.some.injEq, exists_eq_left', Option.any_some, decide_eq_true_iff, forall_eq']
    exact iff_comm

/-! ## A key that outlives its owner -/

/-- A user is created, is given a key and is deleted. -/
def comeAndGo : List AccountRequest :=
  [.createUser "a@example.com".toList "pw".toList .user,
    .createKey (Node.counting.randomUUID 1) none none, .deleteUser (Node.counting.randomUUID 1)]

def firstKey : Text := generateAccessKeyId (Node.counting.randomBytes 2 accessKeyIdLength)

def somePassword : CryptographicConfig := ⟨"password".toList⟩

/-- **A deleted user's key resolves.** -/
theorem deleted_owner_resolves : ¬ ∀ requests accessKeyId call,
    (∃ credentials, outcome (resolveCredentials Node.counting somePassword accessKeyId)
        (deploymentAt Node.counting AuthRuntime.sample somePassword ⟨false, []⟩ requests call) =
        .ok credentials) ↔
      (historyOf Node.counting AuthRuntime.sample somePassword ⟨false, []⟩ requests).admits accessKeyId
        (Node.counting.now call) = true := by
  intro h
  have hresolves : ∃ credentials, outcome (resolveCredentials Node.counting somePassword firstKey)
      (deploymentAt Node.counting AuthRuntime.sample somePassword ⟨false, []⟩ comeAndGo 6) =
      .ok credentials := ⟨⟨firstKey, generateSecret (Node.counting.randomBytes 3 secretKeyBytes),
        Node.counting.randomUUID 1⟩, by decide +kernel⟩
  exact absurd ((h comeAndGo firstKey 6).mp hresolves) (by decide +kernel)

end AccessKeysService
end SimpleStorage
