import SimpleStorage.Auth.AuthService

/-!
# Users

Creating accounts, changing their roles, disabling, enabling and deleting them, and setting
their passwords.  The last admin who can sign in is neither demoted nor disabled nor deleted,
and setting a password ends every session.
-/

namespace SimpleStorage
namespace UsersService

open AuthService Program

variable (N : Node) (A : AuthRuntime)

/-- Admins who could still sign in. -/
def countAdmins (db : Database) : ℕ :=
  (db.users.filter fun u => u.role = .admin && u.status = .active && u.deletedAt.isNone).length

def get (guid : UserGuid) : Service UserRow := do
  let found ← World.select (findUser guid)
  orThrow found .userNotFound

/-- The count of the admins, on record. -/
def selectAdmins : Service ℕ := World.selectFor (fun db => some (.countedAdmins (countAdmins db))) countAdmins

/-- An update of a user's row, on record if it takes away an admin who could still sign in. -/
def updateFor {α : Type} (guid : UserGuid) (f : ℕ → Database → α × Database) : Service α :=
  Program.perform
    (fun w => if countAdmins (f w.calls w.db).2 < countAdmins w.db then some (.tookAdmin guid) else none)
    fun w => ((f w.calls w.db).1, { w with db := (f w.calls w.db).2, calls := w.calls + 1 })

/-- No two users have the same e-mail. -/
def insertUser (row : UserRow) (db : Database) : Option UserRow × Database :=
  if db.users.any (fun u => u.guid = row.guid || u.email = row.email) then (none, db)
  else (some row, { db with users := db.users ++ [row] })

def create (email password : Text) (role : UserRole) : Service UserRow := do
  let passwordHash ← hashPassword N A password
  let inserted ← World.insertFor (fun _ => none) fun call => insertUser {
    guid := N.randomUUID call
    email := A.toLowerCase email
    passwordHash
    role }
  orThrow inserted .emailAlreadyUsed

def update (guid : UserGuid) (role : Option UserRole) : Service UserRow := do
  let user ← get guid
  (if role.isSome ∧ role ≠ some user.role ∧ user.role = .admin then do
    let admins ← selectAdmins
    require (¬ admins ≤ 1) .lastAdminDemoted
  else pure ())
  let updated ← updateFor guid fun _ db =>
    let updated := updateUsers (fun u => u.guid = guid && u.deletedAt.isNone)
      (fun u => { u with role := role.getD u.role }) db
    (findUser guid updated, updated)
  orThrow updated .userNotFound

def setStatus (guid : UserGuid) (status : UserStatus) : Service Unit := do
  let user ← get guid
  (if status = .disabled ∧ user.role = .admin then do
    let admins ← selectAdmins
    require (¬ admins ≤ 1) .lastAdminDemoted
  else pure ())
  let updated ← updateFor guid fun _ db =>
    ((db.users.filter fun u => u.guid = guid && u.deletedAt.isNone).length,
      updateUsers (fun u => u.guid = guid && u.deletedAt.isNone) (fun u => { u with status }) db)
  require (updated ≠ 0) .userNotFound

/-- Whoever changes their own password has to know the current one. -/
def setPassword (guid : UserGuid) (password : Text) (currentPassword : Option Text)
    (actorGuid : UserGuid) : Service Unit := do
  let found ← World.select (findUser guid)
  let found ← orThrow found .userNotFound
  require (¬ (actorGuid = guid ∧ verifyPassword A (currentPassword.getD []) found.passwordHash = false))
    .invalidCurrentPassword
  let passwordHash ← hashPassword N A password
  World.execute fun db => ((), updateUsers (·.guid = guid) (fun u => { u with passwordHash }) db)
  revokeSessions N guid

def delete (guid : UserGuid) : Service Unit := do
  let user ← get guid
  (if user.role = .admin then do
    let admins ← selectAdmins
    require (¬ admins ≤ 1) .lastAdmin
  else pure ())
  updateFor guid fun call db =>
    ((), updateUsers (·.guid = guid) (fun u => { u with deletedAt := some (N.now call) }) db)

/-! ## What the methods do -/

variable {N A}

theorem wp_get {α : Type} {guid : UserGuid} {w : World} {f : UserRow → Service α}
    {post : α → World → Prop} {fail : Fault → World → Prop} (hfail : fail .userNotFound w)
    (h : ∀ user, findUser guid w.db = some user → wp (f user) post fail w) :
    wp (get guid >>= f) post fail w := by
  rw [wp_bind, get, wp_bind, World.select, wp_query, wp_orThrow]
  exact ⟨h, fun _ => hfail⟩

/-- The last admin stays. -/
theorem wp_countAdmins {c : Prop} [Decidable c] {e : Fault} {α : Type} {w : World}
    {f : Unit → Service α} {post : α → World → Prop} {fail : Fault → World → Prop}
    (hfail : c ∧ countAdmins w.db ≤ 1 → fail e w)
    (h : ¬ (c ∧ countAdmins w.db ≤ 1) → wp (f ()) post fail w) :
    wp ((if c then do
      let admins ← selectAdmins
      require (¬ admins ≤ 1) e
    else pure ()) >>= f) post fail w := by
  rw [wp_bind, wp_ite]
  split_ifs with hc
  · rw [wp_bind, selectAdmins, World.selectFor, wp_observe, wp_require]
    exact ⟨fun hmore => h fun hone => hmore hone.2, fun hone => hfail ⟨hc, not_not.mp hone⟩⟩
  · exact h fun hone => hc hone.1

theorem setStatus_spec (guid : UserGuid) (status : UserStatus) (w : World) :
    wp (setStatus guid status) (fun _ w' => SameSessions w w') (fun _ w' => SameSessions w w') w := by
  have hsame : SameSessions w w := ⟨rfl, rfl, le_rfl⟩
  refine wp_get hsame fun user _ => wp_countAdmins (fun _ => hsame) fun _ => ?_
  have husers := map_guid_updateUsers (fun u => { u with status }) (fun _ => rfl)
    (fun u => u.guid = guid && u.deletedAt.isNone) w.db
  rw [wp_bind, updateFor, wp_perform, wp_require]
  exact ⟨fun _ => ⟨rfl, husers, Nat.le_succ _⟩, fun _ => ⟨rfl, husers, Nat.le_succ _⟩⟩

/-- **Setting a password ends the user's sessions.** -/
theorem setPassword_spec (guid : UserGuid) (password : Text) (currentPassword : Option Text)
    (actorGuid : UserGuid) (w : World) :
    wp (setPassword N A guid password currentPassword actorGuid)
      (fun _ w' => Ends (fun s => s.userGuid = guid && s.revokedAt.isNone) w w')
      (fun _ w' => SameSessions w w') w := by
  have hsame : SameSessions w w := ⟨rfl, rfl, le_rfl⟩
  rw [setPassword, wp_bind, World.select, wp_query, wp_bind, wp_orThrow]
  refine ⟨fun user _ => ?_, fun _ => hsame⟩
  rw [wp_bind, wp_require]
  refine ⟨fun _ => ?_, fun _ => hsame⟩
  rw [wp_bind, hashPassword, wp_bind, World.nextCall, wp_alter, wp_pure, wp_bind, World.execute,
    wp_alter]
  refine wp_mono (revokeSessions_spec guid _) (fun _ w' h => ?_) fun _ _ h => h.elim
  refine ⟨h.sessions, h.users.trans (map_guid_updateUsers _ ?_ _ _), Nat.le_of_succ_le h.calls⟩
  exact fun _ => rfl

theorem delete_spec (guid : UserGuid) (w : World) :
    wp (delete N guid) (fun _ w' => SameSessions w w') (fun _ w' => SameSessions w w') w := by
  have hsame : SameSessions w w := ⟨rfl, rfl, le_rfl⟩
  refine wp_get hsame fun user _ => wp_countAdmins (fun _ => hsame) fun _ => ?_
  rw [updateFor, wp_perform]
  refine ⟨rfl, map_guid_updateUsers _ ?_ _ _, Nat.le_succ _⟩
  exact fun _ => rfl

end UsersService
end SimpleStorage
