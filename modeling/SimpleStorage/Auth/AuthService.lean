import SimpleStorage.S3.S3SignatureService
import SimpleStorage.Storage.Node
import SimpleStorage.Storage.World

/-!
# Signing in

Users of the management interface sign in with a password and get two tokens: an access token
for the next requests, and a refresh token to exchange for the next two.  The service keeps a
session for each refresh token, under the token's hash; a session that is revoked or expired
takes no token any more.

* `login_spec`, `refresh_spec`: what signing in and exchanging a token do to the sessions.
* `logout_spec`, `revokeSessions_spec`: which sessions are ended.
-/

namespace SimpleStorage

namespace AuthTypes

structure Identity where
  guid : UserGuid
  email : Text
  role : UserRole
  deriving DecidableEq, Repr

structure AccessTokenPayload where
  sub : UserGuid
  email : Text
  role : UserRole
  «type» : Text
  deriving DecidableEq, Repr

structure Tokens where
  accessToken : Text
  refreshToken : Text
  expiresIn : ℕ
  deriving DecidableEq, Repr

end AuthTypes

/-- The settings of the service; the lifetimes are in seconds. -/
structure AuthConfig where
  secret : Text
  issuer : Text
  accessTtl : ℕ
  refreshTtl : ℕ
  deriving DecidableEq, Repr

/-- What else signing in calls: the case mapping of the runtime, its password hash and the library
that signs access tokens. -/
structure AuthRuntime where
  toLowerCase : Text → Text
  /-- `crypto.scryptSync(password, salt, length)`. -/
  scryptSync : Text → Bytes → ℕ → Bytes
  length_scryptSync : ∀ password salt length, (scryptSync password salt length).length = length
  /-- `jwt.sign(payload, secret, { issuer, expiresIn })`, at a time. -/
  sign : AuthTypes.AccessTokenPayload → Text → Text → ℕ → Timestamp → Text

namespace AuthRuntime

/-- A runtime to run examples on: nothing is hidden, and tokens are the user's e-mail. -/
def sample : AuthRuntime where
  toLowerCase s := s.map Char.toLower
  scryptSync password _ length := (password.bytes ++ List.replicate length 0).take length
  length_scryptSync password salt length := by simp
  sign payload _ _ _ _ := payload.email

end AuthRuntime

namespace AuthService

open AuthTypes Program

variable (N : Node) (C : Crypto) (A : AuthRuntime) (config : AuthConfig)

/-! ## Statements -/

def findUserByEmail (email : Text) (db : Database) : Option UserRow :=
  db.users.find? fun u => u.email = email && u.deletedAt.isNone

def findUser (guid : UserGuid) (db : Database) : Option UserRow :=
  db.users.find? fun u => u.guid = guid && u.deletedAt.isNone

/-- The session of a token that was not revoked. -/
def findSession (refreshTokenHash : Text) (db : Database) : Option UserSessionRow :=
  db.userSessions.find? fun s => s.refreshTokenHash = refreshTokenHash && s.revokedAt.isNone

def updateUsers (p : UserRow → Bool) (f : UserRow → UserRow) (db : Database) : Database :=
  { db with users := db.users.map fun u => if p u then f u else u }

def setRevokedAt (p : UserSessionRow → Bool) (time : Timestamp) (db : Database) : Database :=
  { db with
    userSessions := db.userSessions.map fun s => if p s then { s with revokedAt := some time } else s }

/-- No two sessions have the same hash. -/
def insertSession (row : UserSessionRow) (db : Database) : Option UserSessionRow × Database :=
  if db.userSessions.any (·.refreshTokenHash = row.refreshTokenHash) then (none, db)
  else (some row, { db with userSessions := db.userSessions ++ [row] })

/-! ## Passwords and tokens -/

def scryptKeyLength : ℕ := 64

def hashPassword (password : Text) : Service Text := do
  let salt := N.randomBytes (← World.nextCall) 16
  let derived := A.scryptSync password salt scryptKeyLength
  return Codec.base64.encode salt ++ '.' :: Codec.base64.encode derived

def verifyPassword (password storedHash : Text) : Bool :=
  let saltPart := ((Text.split '.' storedHash)[0]?).getD []
  let hashPart := ((Text.split '.' storedHash)[1]?).getD []
  if saltPart = [] ∨ hashPart = [] then false
  else
    let expected := Codec.unbase64 hashPart
    let derived := A.scryptSync password (Codec.unbase64 saltPart) expected.length
    expected.length = derived.length && expected = derived

def hashRefreshToken (token : Text) : Text := Codec.hex (C.sha256 token.bytes)

/-- The refresh token a call of the random generator makes. -/
def refreshTokenAt (call : ℕ) : Text := Codec.base64url.encode (N.randomBytes call 48)

/-! ## The service -/

def issueTokens (identity : Identity) (userAgent : Option Text) : Service Tokens := do
  let payload : AccessTokenPayload :=
    ⟨identity.guid, identity.email, identity.role, "access".toList⟩
  let now := N.now (← World.nextCall)
  let accessToken := A.sign payload config.secret config.issuer config.accessTtl now
  let refreshToken := refreshTokenAt N (← World.nextCall)
  let inserted ← World.insertFor (fun _ => some (.openedSession identity.guid)) fun call => insertSession {
    guid := call
    userGuid := identity.guid
    refreshTokenHash := hashRefreshToken C refreshToken
    userAgent
    expiresAt := N.now call + config.refreshTtl * 1000 }
  let _ ← orThrow inserted .uniqueViolation
  return ⟨accessToken, refreshToken, config.accessTtl⟩

def login (email password : Text) (userAgent : Option Text) : Service Tokens := do
  let found ← World.selectFor
    (fun db => some (.readUser ((findUserByEmail (A.toLowerCase email) db).map (·.guid))))
    (findUserByEmail (A.toLowerCase email))
  let found ← orThrow (found.filter fun u => verifyPassword A password u.passwordHash)
    .invalidCredentials
  require (found.status ≠ .disabled) .userDisabled
  World.insertFor (fun _ => none) fun call db =>
    ((), updateUsers (·.guid = found.guid) (fun u => { u with lastLoginAt := some (N.now call) }) db)
  issueTokens N C A config ⟨found.guid, found.email, found.role⟩ userAgent

/-- The presented token is revoked before the next one is made. -/
def refresh (refreshToken : Text) : Service Tokens := do
  let tokenHash := hashRefreshToken C refreshToken
  let session ← World.selectFor
    (fun db => some (.readSession ((findSession tokenHash db).map (·.guid)))) (findSession tokenHash)
  let session ← orThrow session .invalidRefreshToken
  let now := N.now (← World.nextCall)
  require (¬ session.expiresAt < now) .invalidRefreshToken
  let found ← World.select (findUser session.userGuid)
  let found ← orThrow (found.filter (·.status ≠ .disabled)) .userDisabled
  World.insertFor (fun _ => some (.exchangedSession session.guid)) fun call db =>
    ((), setRevokedAt (·.guid = session.guid) (N.now call) db)
  issueTokens N C A config ⟨found.guid, found.email, found.role⟩ session.userAgent

def logout (refreshToken : Text) : Service Unit :=
  World.insertFor (fun _ => none) fun call db =>
    ((), setRevokedAt (·.refreshTokenHash = hashRefreshToken C refreshToken) (N.now call) db)

/-- End every session a user holds. -/
def revokeSessions (userGuid : UserGuid) : Service Unit :=
  World.insertFor (fun _ => some (.revokedSessions userGuid)) fun call db =>
    ((), setRevokedAt (fun s => s.userGuid = userGuid && s.revokedAt.isNone) (N.now call) db)

/-! ## What the methods do -/

theorem findUser_eq_some {guid : UserGuid} {db : Database} {user : UserRow}
    (h : findUser guid db = some user) :
    user ∈ db.users ∧ user.guid = guid ∧ user.deletedAt = none := by
  have hp := List.find?_some h
  rw [Bool.and_eq_true, decide_eq_true_iff, Option.isNone_iff_eq_none] at hp
  exact ⟨List.mem_of_find?_eq_some h, hp⟩

theorem findSession_eq_some {refreshTokenHash : Text} {db : Database} {session : UserSessionRow}
    (h : findSession refreshTokenHash db = some session) :
    session ∈ db.userSessions ∧ session.refreshTokenHash = refreshTokenHash ∧
      session.revokedAt = none := by
  have hp := List.find?_some h
  rw [Bool.and_eq_true, decide_eq_true_iff, Option.isNone_iff_eq_none] at hp
  exact ⟨List.mem_of_find?_eq_some h, hp⟩

theorem findSession_of_mem {refreshTokenHash : Text} {db : Database} {session : UserSessionRow}
    (hhashes : (db.userSessions.map (·.refreshTokenHash)).Nodup) (hmem : session ∈ db.userSessions)
    (hhash : session.refreshTokenHash = refreshTokenHash) (hnone : session.revokedAt = none) :
    findSession refreshTokenHash db = some session := by
  cases hfind : findSession refreshTokenHash db with
  | none =>
    have := List.find?_eq_none.mp hfind session hmem
    simp [hhash, hnone] at this
  | some session' =>
    obtain ⟨hmem', hhash', -⟩ := findSession_eq_some hfind
    rw [List.inj_on_of_nodup_map hhashes hmem' hmem (hhash'.trans hhash.symm)]

/-- The user of a guid is found unless they are deleted. -/
theorem findUser_iff {guid : UserGuid} {db : Database} {user : UserRow}
    (hguids : (db.users.map (·.guid)).Nodup) :
    findUser guid db = some user ↔ user ∈ db.users ∧ user.guid = guid ∧ user.deletedAt = none := by
  refine ⟨findUser_eq_some, ?_⟩
  rintro ⟨hmem, hguid, hlive⟩
  cases hfind : findUser guid db with
  | none =>
    have := List.find?_eq_none.mp hfind user hmem
    simp [hguid, hlive] at this
  | some user' =>
    obtain ⟨hmem', hguid', -⟩ := findUser_eq_some hfind
    rw [List.inj_on_of_nodup_map hguids hmem' hmem (hguid'.trans hguid.symm)]

/-- The sessions that are not ended. -/
theorem mem_setRevokedAt {p : UserSessionRow → Bool} {time : Timestamp} {db : Database}
    {s : UserSessionRow} : s ∈ (setRevokedAt p time db).userSessions ∧ s.revokedAt = none ↔
      s ∈ db.userSessions ∧ s.revokedAt = none ∧ p s = false := by
  constructor
  · rintro ⟨hs, hnone⟩
    obtain ⟨s', hs', rfl⟩ := List.mem_map.mp hs
    by_cases hp : p s' = true
    · rw [if_pos hp] at hnone
      cases hnone
    · rw [if_neg hp] at hnone ⊢
      exact ⟨hs', hnone, Bool.eq_false_iff.mpr hp⟩
  · rintro ⟨hs, hnone, hp⟩
    refine ⟨List.mem_map.mpr ⟨s, hs, ?_⟩, hnone⟩
    rw [hp, if_neg Bool.false_ne_true]

/-- What ending sessions keeps of their rows. -/
theorem map_setRevokedAt {β : Type} (f : UserSessionRow → β)
    (hf : ∀ s time, f { s with revokedAt := time } = f s) (p : UserSessionRow → Bool)
    (time : Timestamp) (db : Database) :
    (setRevokedAt p time db).userSessions.map f = db.userSessions.map f := by
  unfold setRevokedAt
  rw [List.map_map]
  refine List.map_congr_left fun s _ => ?_
  rw [Function.comp_apply]
  split_ifs
  · exact hf s _
  · rfl

/-- **A session is opened** for a token made on the way: its row comes after `rows`. -/
structure Opens (userGuid : UserGuid) (rows : List UserSessionRow) (tokens : Tokens) (w w' : World)
    (call : ℕ) (row : UserSessionRow) : Prop where
  call_ge : w.calls ≤ call
  call_lt : call < row.guid
  guid_lt : row.guid < w'.calls
  refreshToken : tokens.refreshToken = refreshTokenAt N call
  refreshTokenHash : row.refreshTokenHash = hashRefreshToken C tokens.refreshToken
  user : row.userGuid = userGuid
  expiresAt : row.expiresAt = N.now row.guid + config.refreshTtl * 1000
  revokedAt : row.revokedAt = none
  unique : ∀ s ∈ rows, s.refreshTokenHash ≠ row.refreshTokenHash
  sessions : w'.db.userSessions = rows ++ [row]
  users : w'.db.users.map (·.guid) = w.db.users.map (·.guid)

/-- **The sessions are left alone**, and users remain who they are. -/
structure SameSessions (w w' : World) : Prop where
  sessions : w'.db.userSessions = w.db.userSessions
  users : w'.db.users.map (·.guid) = w.db.users.map (·.guid)
  calls : w.calls ≤ w'.calls

/-- Sessions are ended, and nothing else happens to them. -/
structure Ends (p : UserSessionRow → Bool) (w w' : World) : Prop where
  sessions : ∃ time, w'.db.userSessions = (setRevokedAt p time w.db).userSessions
  users : w'.db.users.map (·.guid) = w.db.users.map (·.guid)
  calls : w.calls ≤ w'.calls

/-- **The hash of a new token is taken.** -/
def Collides (w w' : World) : Prop :=
  ∃ call, w.calls ≤ call ∧ call < w'.calls ∧ ∃ s ∈ w.db.userSessions,
    s.refreshTokenHash = hashRefreshToken C (refreshTokenAt N call)

variable {N C A config}

theorem issueTokens_spec (identity : Identity) (userAgent : Option Text) (w : World) :
    wp (issueTokens N C A config identity userAgent)
      (fun tokens w' => ∃ call row,
        Opens N C config identity.guid w.db.userSessions tokens w w' call row)
      (fun _ w' => w'.db = w.db ∧ Collides N C w w') w := by
  simp only [issueTokens, wp_bind, World.nextCall, World.insertFor, wp_alter, wp_perform,
    wp_orThrow, wp_pure, insertSession]
  by_cases htaken : w.db.userSessions.any
      (·.refreshTokenHash = hashRefreshToken C (refreshTokenAt N (w.calls + 1))) = true
  · rw [if_pos htaken]
    obtain ⟨s, hs, hhash⟩ := List.any_eq_true.mp htaken
    exact ⟨by simp, fun _ => ⟨rfl, w.calls + 1, Nat.le_succ _, Nat.lt_succ_of_lt (Nat.lt_succ_self _),
      s, hs, of_decide_eq_true hhash⟩⟩
  · rw [if_neg htaken]
    refine ⟨fun _ _ => ⟨w.calls + 1, _, Nat.le_succ _, Nat.lt_succ_self _, Nat.lt_succ_self _, rfl, rfl,
      rfl, rfl, rfl, fun s hs hhash => htaken ?_, rfl, rfl⟩, by simp⟩
    exact List.any_eq_true.mpr ⟨s, hs, decide_eq_true hhash⟩

/-- Updating users keeps who they are. -/
theorem map_guid_updateUsers (f : UserRow → UserRow) (hf : ∀ u, (f u).guid = u.guid)
    (p : UserRow → Bool) (db : Database) :
    (updateUsers p f db).users.map (·.guid) = db.users.map (·.guid) := by
  unfold updateUsers
  rw [List.map_map]
  refine List.map_congr_left fun u _ => ?_
  rw [Function.comp_apply]
  split_ifs
  · exact hf u
  · rfl

/-- **Signing in opens a session.** -/
theorem login_spec (email password : Text) (userAgent : Option Text) (w : World) :
    wp (login N C A config email password userAgent)
      (fun tokens w' => ∃ user call row, findUserByEmail (A.toLowerCase email) w.db = some user ∧
        Opens N C config user.guid w.db.userSessions tokens w w' call row)
      (fun _ w' => SameSessions w w') w := by
  rw [login, wp_bind, World.selectFor, wp_observe, wp_bind, wp_orThrow]
  refine ⟨fun user huser => ?_, fun _ => ⟨rfl, rfl, le_rfl⟩⟩
  rw [Option.filter_eq_some_iff] at huser
  rw [wp_bind, wp_require]
  refine ⟨fun _ => ?_, fun _ => ⟨rfl, rfl, le_rfl⟩⟩
  rw [wp_bind, World.insertFor, wp_perform]
  have husers := map_guid_updateUsers (fun u => { u with lastLoginAt := some (N.now w.calls) })
    (fun _ => rfl) (·.guid = user.guid) w.db
  refine wp_mono (issueTokens_spec _ userAgent _) ?_ ?_
  · rintro tokens w' ⟨call, row, h⟩
    exact ⟨user, call, row, huser.1, { h with
      call_ge := Nat.le_of_succ_le h.call_ge
      users := h.users.trans husers }⟩
  · rintro _ w' ⟨hdb, call, hge, hlt, -⟩
    refine ⟨by rw [hdb]; rfl, by rw [hdb]; exact husers, ?_⟩
    exact (Nat.le_of_succ_le hge).trans hlt.le

theorem logout_spec (refreshToken : Text) (w : World) :
    wp (logout N C refreshToken)
      (fun _ w' => Ends (·.refreshTokenHash = hashRefreshToken C refreshToken) w w')
      (fun _ _ => False) w :=
  ⟨⟨_, rfl⟩, rfl, Nat.le_succ _⟩

theorem revokeSessions_spec (userGuid : UserGuid) (w : World) :
    wp (revokeSessions N userGuid)
      (fun _ w' => Ends (fun s => s.userGuid = userGuid && s.revokedAt.isNone) w w')
      (fun _ _ => False) w :=
  ⟨⟨_, rfl⟩, rfl, Nat.le_succ _⟩

/-- **The session a token is accepted for**: not revoked, not expired, and of a user who is there and
not disabled. -/
structure Accepts (N : Node) (C : Crypto) (w : World) (refreshToken : Text) (session : UserSessionRow) :
    Prop where
  found : findSession (hashRefreshToken C refreshToken) w.db = some session
  inTime : N.now w.calls ≤ session.expiresAt
  user : ∃ user, findUser session.userGuid w.db = some user ∧ user.status ≠ .disabled

theorem accepts_iff {w : World} (husers : (w.db.users.map (·.guid)).Nodup) {refreshToken : Text}
    {session : UserSessionRow} : Accepts N C w refreshToken session ↔
      findSession (hashRefreshToken C refreshToken) w.db = some session ∧
        N.now w.calls ≤ session.expiresAt ∧
        ∃ u ∈ w.db.users, u.guid = session.userGuid ∧ u.status = .active ∧ u.deletedAt = none := by
  have hactive : ∀ status : UserStatus, status ≠ .disabled ↔ status = .active := by
    intro status
    cases status <;> decide
  constructor
  · rintro ⟨hfound, htime, user, huser, hstatus⟩
    obtain ⟨hmem, hguid, hlive⟩ := (findUser_iff husers).mp huser
    exact ⟨hfound, htime, user, hmem, hguid, (hactive _).mp hstatus, hlive⟩
  · rintro ⟨hfound, htime, user, hmem, hguid, hstatus, hlive⟩
    exact ⟨hfound, htime, user, (findUser_iff husers).mpr ⟨hmem, hguid, hlive⟩, (hactive _).mpr hstatus⟩

/-- **Exchanging a token ends its session and opens another.** -/
theorem refresh_spec (refreshToken : Text) (w : World) :
    wp (refresh N C A config refreshToken)
      (fun tokens w' => ∃ session time call row, Accepts N C w refreshToken session ∧
        Opens N C config session.userGuid
          (setRevokedAt (·.guid = session.guid) time w.db).userSessions tokens w w' call row)
      (fun _ w' => (w'.db = w.db ∧ w.calls ≤ w'.calls ∧ ∀ session, ¬ Accepts N C w refreshToken session) ∨
        Collides N C w w') w := by
  rw [refresh]
  dsimp only
  rw [wp_bind, World.selectFor, wp_observe, wp_bind, wp_orThrow]
  refine ⟨fun session hsession => ?_, fun h => .inl ⟨rfl, le_rfl, fun session haccepts => ?_⟩⟩
  swap
  · rw [haccepts.found] at h
    cases h
  have hsame : ∀ session', Accepts N C w refreshToken session' → session' = session := by
    intro session' h
    have hfound := h.found
    rw [hsession] at hfound
    exact (Option.some.inj hfound).symm
  rw [wp_bind, World.nextCall, wp_alter, wp_bind, wp_require]
  refine ⟨fun htime => ?_, fun htime => .inl ⟨rfl, Nat.le_succ _, fun session' h => ?_⟩⟩
  swap
  · obtain rfl := hsame session' h
    exact htime (not_lt.mpr h.inTime)
  rw [wp_bind, World.select, wp_query, wp_bind, wp_orThrow]
  refine ⟨fun user huser => ?_, fun h => .inl ⟨rfl, Nat.le_succ _, fun session' h' => ?_⟩⟩
  swap
  · obtain rfl := hsame session' h'
    obtain ⟨user, huser, hstatus⟩ := h'.user
    rw [Option.filter_eq_none_iff] at h
    exact h user huser (decide_eq_true hstatus)
  rw [Option.filter_eq_some_iff, decide_eq_true_iff] at huser
  obtain ⟨huser, hstatus⟩ := huser
  have hguid : user.guid = session.userGuid := (findUser_eq_some huser).2.1
  rw [wp_bind, World.insertFor, wp_perform]
  refine wp_mono (issueTokens_spec _ _ _) ?_ ?_
  · rintro tokens w' ⟨call, row, h⟩
    exact ⟨session, _, call, row, ⟨hsession, not_lt.mp htime, user, huser, hstatus⟩, { h with
      call_ge := (Nat.le_add_right _ 2).trans h.call_ge
      user := h.user.trans hguid }⟩
  · rintro _ w' ⟨-, call, hge, hlt, s, hs, hhash⟩
    obtain ⟨s', hs', rfl⟩ := List.mem_map.mp hs
    refine .inr ⟨call, (Nat.le_add_right _ 2).trans hge, hlt, s', hs', ?_⟩
    split_ifs at hhash <;> exact hhash

end AuthService
end SimpleStorage
