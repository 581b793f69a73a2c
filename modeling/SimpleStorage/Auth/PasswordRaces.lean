import SimpleStorage.Library.Interleaving
import SimpleStorage.Users.UsersService

/-!
# Setting a password while others sign in

`UsersService.setPassword` stores the new hash and then ends the sessions there are.  A sign-in
checks the password in one statement and opens its session in a later one, and an exchange of a
refresh token reads its session first and opens the next one later; what they open after the
sessions were ended stays.

`sessions_ended` says that no session of the user is left once the password is set, on any
schedule on which the sessions are not ended between a request's check and the opening of its
session, and `session_survives` is a schedule on which one survives.

The old password must not be the new one as well: no salt may make the same hash of both.
-/

namespace SimpleStorage
namespace PasswordRaces

open AuthService AuthTypes Program

/-- One password change, and the calls that go on meanwhile. -/
inductive SignInRequest where
  | setPassword
  /-- With the old password. -/
  | login (email : Text) (userAgent : Option Text)
  | refresh (refreshToken : Text)
  deriving DecidableEq, Repr

/-- The change: whose password, by whom, from what to what. -/
structure Change where
  guid : UserGuid
  oldPassword : Text
  password : Text
  currentPassword : Option Text
  actorGuid : UserGuid
  deriving DecidableEq, Repr

variable (N : Node) (C : Crypto) (A : AuthRuntime) (config : AuthConfig) (change : Change)

def SignInRequest.program : SignInRequest → Service Unit
  | .setPassword => UsersService.setPassword N A change.guid change.password change.currentPassword
      change.actorGuid
  | .login email userAgent => do
      let _ ← AuthService.login N C A config email change.oldPassword userAgent
  | .refresh refreshToken => do
      let _ ← AuthService.refresh N C A config refreshToken

/-- Whether this is the check of a thread: a read of a user by a sign-in, or of a session. -/
def checks (i : ℕ) : ℕ × Event → Bool
  | (j, .readUser _) => j = i
  | (j, .readSession _) => j = i
  | _ => false

/-- Whose session is opened. -/
def opened : Event → Option UserGuid
  | .openedSession guid => some guid
  | _ => none

/-- **The user's sessions are not ended between a request's check and its opening one.** -/
def OpensInTime (v : Shared Event World) (i : ℕ) (e : Event) : Prop :=
  ∀ guid ∈ opened e, ∀ e' ∈ v.record.takeWhile (fun e => !checks i e), e'.2 ≠ .revokedSessions guid

instance (v : Shared Event World) (i : ℕ) (e : Event) : Decidable (OpensInTime v i e) :=
  inferInstanceAs (Decidable (∀ guid ∈ opened e, _))

/-! ## What holds throughout -/

/-- The old password does not open the user's account any more. -/
def LockedOut (w : World) : Prop :=
  ∀ u ∈ w.db.users, u.guid = change.guid → verifyPassword A change.oldPassword u.passwordHash = false

/-- The user has no session that was not ended. -/
def NoSession (w : World) : Prop :=
  ∀ s ∈ w.db.userSessions, s.userGuid = change.guid → s.revokedAt ≠ none

/-- The user's sessions were ended. -/
def Ended (record : List (ℕ × Event)) : Prop := ∃ e ∈ record, e.2 = .revokedSessions change.guid

/-- **Once the sessions are ended**, there are none, and the old password opens no more. -/
structure EndedForGood (v : Shared Event World) : Prop where
  lockedOut : Ended change v.record → LockedOut A change v.state
  noSession : Ended change v.record → NoSession change v.state

/-- Threads rely on each other not to let the old password in again. -/
def signIns : Protocol Event World where
  permits := OpensInTime
  inv := EndedForGood A change
  rely i v v' := (∃ new, v'.record = new ++ v.record ∧ ∀ e ∈ new, e.1 ≠ i) ∧
    (LockedOut A change v.state → LockedOut A change v'.state)
  guar _ v _ s := LockedOut A change v.state → LockedOut A change s
  refl _ v := ⟨⟨[], rfl, nofun⟩, id⟩
  trans := by
    rintro i v v' v'' ⟨⟨new, hrecord, hother⟩, hlocked⟩ ⟨⟨new', hrecord', hother'⟩, hlocked'⟩
    refine ⟨⟨new' ++ new, by rw [hrecord', hrecord, List.append_assoc], fun e he => ?_⟩, hlocked' ∘ hlocked⟩
    exact (List.mem_append.mp he).elim (hother' e) (hother e)
  rely_of_guar := by
    rintro i j v e s hij - hguar -
    refine ⟨⟨e.toList.map (j, ·), rfl, fun e' he' => ?_⟩, hguar⟩
    obtain ⟨_, -, rfl⟩ := List.mem_map.mp he'
    exact hij.symm

/-! ## Steps that open and end nothing -/

/-- **A step that opens no session, lets no old password in and ends no sessions.** -/
structure QuietStep (event : World → Option Event) (effect : World → World) : Prop where
  locked : ∀ w, LockedOut A change w → LockedOut A change (effect w)
  sessions : ∀ w, NoSession change w → NoSession change (effect w)
  event : ∀ w, ∀ e ∈ event w, e ≠ .revokedSessions change.guid

variable {A change}

theorem QuietStep.of_same {event : World → Option Event} {effect : World → World}
    (husers : ∀ w, (effect w).db.users = w.db.users)
    (hsessions : ∀ w, (effect w).db.userSessions = w.db.userSessions)
    (hevent : ∀ w, ∀ e ∈ event w, e ≠ .revokedSessions change.guid) : QuietStep A change event effect where
  locked := fun w h => by
    rw [LockedOut, husers]
    exact h
  sessions := fun w h => by
    rw [NoSession, hsessions]
    exact h
  event := hevent

/-- What is on record after a step. -/
theorem ended_after {v : Shared Event World} {i : ℕ} {event : Option Event} {s : World}
    (hevent : ∀ e ∈ event, e ≠ .revokedSessions change.guid) (h : Ended change (v.after i event s).record) :
    Ended change v.record := by
  obtain ⟨e, he, hended⟩ := h
  rcases List.mem_append.mp he with he | he
  · obtain ⟨e', he', rfl⟩ := List.mem_map.mp he
    exact absurd hended (hevent e' (by simpa using he'))
  · exact ⟨e, he, hended⟩

theorem EndedForGood.quiet {v : Shared Event World} (h : EndedForGood A change v)
    {event : World → Option Event} {effect : World → World} (hstep : QuietStep A change event effect)
    (i : ℕ) : EndedForGood A change (v.after i (event v.state) (effect v.state)) where
  lockedOut := fun hended => hstep.locked _ (h.lockedOut (ended_after (hstep.event v.state) hended))
  noSession := fun hended => hstep.sessions _ (h.noSession (ended_after (hstep.event v.state) hended))

/-- **The thread has made its check, and nobody had ended the user's sessions by then.** -/
def CheckedInTime (guid : UserGuid) (i : ℕ) (record : List (ℕ × Event)) : Prop :=
  ∃ new check old, record = new ++ check :: old ∧ checks i check = true ∧
    (∀ e ∈ new, checks i e = false) ∧ ∀ e ∈ old, e.2 ≠ .revokedSessions guid

theorem checks_other {i : ℕ} {e : ℕ × Event} (h : e.1 ≠ i) : checks i e = false := by
  obtain ⟨j, e⟩ := e
  cases e with
  | readUser guid => exact decide_eq_false h
  | readSession guid => exact decide_eq_false h
  | _ => rfl

theorem CheckedInTime.append {guid : UserGuid} {i : ℕ} {record : List (ℕ × Event)}
    (h : CheckedInTime guid i record) {more : List (ℕ × Event)} (hmore : ∀ e ∈ more, checks i e = false) :
    CheckedInTime guid i (more ++ record) := by
  obtain ⟨new, check, old, hrecord, hcheck, hnew, hold⟩ := h
  refine ⟨more ++ new, check, old, by rw [hrecord, List.append_assoc], hcheck, fun e he => ?_, hold⟩
  exact (List.mem_append.mp he).elim (hmore e) (hnew e)

/-- What a request knows of its user: if it is the one whose password is set, it checked in time. -/
def Checked (change : Change) (userGuid : UserGuid) (i : ℕ) (v : Shared Event World) : Prop :=
  userGuid = change.guid → CheckedInTime change.guid i v.record

theorem Checked.rely {userGuid : UserGuid} {i : ℕ} {v v' : Shared Event World}
    (hrely : (signIns A change).rely i v v') (h : Checked change userGuid i v) :
    Checked change userGuid i v' := by
  intro hguid
  obtain ⟨⟨new, hrecord, hother⟩, -⟩ := hrely
  rw [hrecord]
  exact (h hguid).append fun e he => checks_other (hother e he)

/-! ## The programs -/

/-- A quiet step that is no check. -/
theorem quiet_stepHolds {event : World → Option Event} {effect : World → World}
    (hstep : QuietStep A change event effect) {i : ℕ}
    (hsilent : ∀ w, ∀ e ∈ event w, checks i (i, e) = false) {userGuid : UserGuid}
    {v : Shared Event World} (hv : Checked change userGuid i v) :
    (signIns A change).StepHolds i event effect (fun _ => Checked change userGuid i) v := by
  intro v' hrely hinv _
  refine ⟨hstep.locked v'.state, hinv.quiet hstep i, fun hguid => ?_⟩
  refine (hv.rely hrely hguid).append fun e he => ?_
  obtain ⟨e', he', rfl⟩ := List.mem_map.mp he
  exact hsilent v'.state e' (by simpa using he')

/-- A quiet step of a request that knows nothing. -/
theorem quiet_stepHolds' {event : World → Option Event} {effect : World → World}
    (hstep : QuietStep A change event effect) (i : ℕ) (v : Shared Event World) :
    (signIns A change).StepHolds i event effect (fun _ _ => True) v :=
  fun v' _ hinv _ => ⟨hstep.locked v'.state, hinv.quiet hstep i, trivial⟩

/-- Nobody ended the sessions, if a request that has checked in time may open one. -/
theorem not_ended {guid : UserGuid} {i : ℕ} {v : Shared Event World} (hguid : change.guid = guid)
    (h : CheckedInTime change.guid i v.record) (hpermits : OpensInTime v i (.openedSession guid)) :
    ¬ Ended change v.record := by
  subst hguid
  obtain ⟨new, check, old, hrecord, hcheck, hnew, hold⟩ := h
  have htake : v.record.takeWhile (fun e => !checks i e) = new := by
    rw [hrecord, List.takeWhile_append_of_pos]
    · simp [hcheck]
    · intro e he
      rw [hnew e he]
      rfl
  rintro ⟨e, he, hended⟩
  rw [hrecord] at he
  rcases List.mem_append.mp he with he | he
  · exact hpermits change.guid rfl e (htake.symm ▸ he) hended
  · rcases List.mem_cons.mp he with rfl | he
    · obtain ⟨j, e⟩ := e
      dsimp only at hended
      rw [hended] at hcheck
      cases hcheck
    · exact hold e he hended

/-- **Opening a session**, permitted and after a check in time. -/
theorem opening_stepHolds {r : ℕ → UserSessionRow} {userGuid : UserGuid}
    (hr : ∀ call, (r call).userGuid = userGuid) {i : ℕ} {v : Shared Event World}
    (hv : Checked change userGuid i v) :
    (signIns A change).StepHolds i (fun _ => some (.openedSession userGuid))
      (fun w => { w with db := (insertSession (r w.calls) w.db).2, calls := w.calls + 1 })
      (fun _ _ => True) v := by
  intro v' hrely hinv hpermits
  have husers : ∀ w : World, (insertSession (r w.calls) w.db).2.users = w.db.users := by
    intro w
    rw [insertSession]
    split_ifs <;> rfl
  have hlocked : LockedOut A change v'.state →
      LockedOut A change { v'.state with db := (insertSession (r v'.state.calls) v'.state.db).2
                                         calls := v'.state.calls + 1 } := by
    intro h
    rw [LockedOut, husers]
    exact h
  have hended : ∀ e ∈ some (Event.openedSession userGuid), e ≠ .revokedSessions change.guid := by
    simp
  refine ⟨hlocked, ⟨fun h => hlocked (hinv.lockedOut (ended_after hended h)), fun h => ?_⟩, trivial⟩
  by_cases hguid : userGuid = change.guid
  · exact absurd (ended_after hended h)
      (not_ended hguid.symm (hv.rely hrely hguid) (hpermits _ rfl))
  · intro s hs huser
    have hmem : s ∈ (insertSession (r v'.state.calls) v'.state.db).2.userSessions := hs
    rw [insertSession] at hmem
    split_ifs at hmem
    · exact hinv.noSession (ended_after hended h) s hmem huser
    · rcases List.mem_append.mp hmem with hmem | hmem
      · exact hinv.noSession (ended_after hended h) s hmem huser
      · rw [List.mem_singleton.mp hmem, hr] at huser
        exact absurd huser hguid

theorem quiet_nextCall : QuietStep A change (fun _ => none) fun w => { w with calls := w.calls + 1 } :=
  .of_same (fun _ => rfl) (fun _ => rfl) nofun

variable {N C config}

theorem issueTokens_holds (identity : Identity) (userAgent : Option Text) {i : ℕ} {v : Shared Event World}
    (hv : Checked change identity.guid i v) :
    (signIns A change).holds i (issueTokens N C A config identity userAgent) (fun _ _ => True)
      (fun _ _ => True) v := by
  rw [issueTokens]
  dsimp only
  rw [Protocol.holds_bind, World.nextCall, Program.alter, Protocol.holds_perform]
  refine Protocol.StepHolds.mono (quiet_stepHolds quiet_nextCall (by simp) hv) fun w v₁ hv₁ => ?_
  rw [Protocol.holds_bind, Protocol.holds_perform]
  refine Protocol.StepHolds.mono (quiet_stepHolds quiet_nextCall (by simp) hv₁) fun w' v₂ hv₂ => ?_
  rw [Protocol.holds_bind, World.insertFor, Protocol.holds_perform]
  let row (guid : ℕ) : UserSessionRow := {
    guid
    userGuid := identity.guid
    refreshTokenHash := hashRefreshToken C (refreshTokenAt N w'.calls)
    userAgent
    expiresAt := N.now guid + config.refreshTtl * 1000 }
  refine Protocol.StepHolds.mono (opening_stepHolds (r := row) (fun _ => rfl) hv₂) fun w'' v₃ _ => ?_
  rw [Protocol.holds_bind, Protocol.holds_orThrow]
  exact ⟨fun _ _ => trivial, fun _ => trivial⟩

/-- The check of a sign-in: if it lets the user in, nobody has ended the user's sessions yet. -/
theorem login_holds (email : Text) (userAgent : Option Text) (i : ℕ) (v : Shared Event World) :
    (signIns A change).holds i (login N C A config email change.oldPassword userAgent) (fun _ _ => True)
      (fun _ _ => True) v := by
  rw [login, Protocol.holds_bind, World.selectFor, Protocol.holds_observe]
  intro v₁ _ hinv₁ _
  have hread : QuietStep A change (fun w => some (.readUser
      ((findUserByEmail (A.toLowerCase email) w.db).map (·.guid)))) id :=
    .of_same (fun _ => rfl) (fun _ => rfl) (by simp)
  refine ⟨fun h => h, hinv₁.quiet hread i, ?_⟩
  beta_reduce
  rw [Protocol.holds_bind, Protocol.holds_orThrow]
  refine ⟨fun user huser => ?_, fun _ => trivial⟩
  rw [Option.filter_eq_some_iff] at huser
  obtain ⟨hfound, hverified⟩ := huser
  -- had the sessions been ended, the old password would not have been let in
  have hchecked : Checked change user.guid i (v₁.after i (some (.readUser
      ((findUserByEmail (A.toLowerCase email) v₁.state.db).map (·.guid)))) v₁.state) := by
    intro hguid
    refine ⟨[], _, v₁.record, rfl, decide_eq_true rfl, by simp, fun e he hended => ?_⟩
    have hlocked := hinv₁.lockedOut ⟨e, he, hended⟩ user (List.mem_of_find?_eq_some hfound) hguid
    rw [hlocked] at hverified
    cases hverified
  rw [Protocol.holds_bind, Protocol.holds_require]
  refine ⟨fun _ => ?_, fun _ => trivial⟩
  have hseen : QuietStep A change (fun _ => none) fun w => { w with
      db := updateUsers (·.guid = user.guid) (fun u => { u with lastLoginAt := some (N.now w.calls) }) w.db
      calls := w.calls + 1 } := by
    refine ⟨fun w h u hu hguid => ?_, fun w h => h, by simp⟩
    obtain ⟨u', hu', rfl⟩ := List.mem_map.mp hu
    split_ifs at hguid ⊢
    · exact h u' hu' hguid
    · exact h u' hu' hguid
  rw [Protocol.holds_bind, World.insertFor, Protocol.holds_perform]
  exact Protocol.StepHolds.mono (quiet_stepHolds hseen (by simp) hchecked) fun _ _ hv₂ =>
    issueTokens_holds _ _ hv₂

/-- Ending sessions opens none. -/
theorem noSession_setRevokedAt (p : UserSessionRow → Bool) (time : Timestamp) {w : World}
    (h : NoSession change w) :
    ∀ s ∈ (setRevokedAt p time w.db).userSessions, s.userGuid = change.guid → s.revokedAt ≠ none := by
  intro s hs hguid hnone
  obtain ⟨hmem, hnone, -⟩ := mem_setRevokedAt.mp ⟨hs, hnone⟩
  exact h s hmem hguid hnone

theorem refresh_holds (refreshToken : Text) (i : ℕ) (v : Shared Event World) :
    (signIns A change).holds i (refresh N C A config refreshToken) (fun _ _ => True) (fun _ _ => True)
      v := by
  rw [AuthService.refresh]
  dsimp only
  rw [Protocol.holds_bind, World.selectFor, Protocol.holds_observe]
  intro v₁ _ hinv₁ _
  have hread : QuietStep A change (fun w => some (.readSession
      ((findSession (hashRefreshToken C refreshToken) w.db).map (·.guid)))) id :=
    .of_same (fun _ => rfl) (fun _ => rfl) (by simp)
  refine ⟨fun h => h, hinv₁.quiet hread i, ?_⟩
  beta_reduce
  rw [Protocol.holds_bind, Protocol.holds_orThrow]
  refine ⟨fun session hsession => ?_, fun _ => trivial⟩
  obtain ⟨hmem, -, hunrevoked⟩ := findSession_eq_some hsession
  -- had the sessions been ended, this one would have been
  have hchecked : Checked change session.userGuid i (v₁.after i (some (.readSession
      ((findSession (hashRefreshToken C refreshToken) v₁.state.db).map (·.guid)))) v₁.state) := by
    intro hguid
    refine ⟨[], _, v₁.record, rfl, decide_eq_true rfl, by simp, fun e he hended => ?_⟩
    exact hinv₁.noSession ⟨e, he, hended⟩ session hmem hguid hunrevoked
  rw [Protocol.holds_bind, World.nextCall, Program.alter, Protocol.holds_perform]
  refine Protocol.StepHolds.mono (quiet_stepHolds quiet_nextCall (by simp) hchecked) fun w v₂ hv₂ => ?_
  rw [Protocol.holds_bind, Protocol.holds_require]
  refine ⟨fun _ => ?_, fun _ => trivial⟩
  have hselect : QuietStep A change (fun _ => none) id := .of_same (fun _ => rfl) (fun _ => rfl) (by simp)
  rw [Protocol.holds_bind, World.select, Program.query, Protocol.holds_observe]
  refine Protocol.StepHolds.mono (quiet_stepHolds hselect (by simp) hv₂) fun w' v₃ hv₃ => ?_
  rw [Protocol.holds_bind, Protocol.holds_orThrow]
  refine ⟨fun user huser => ?_, fun _ => trivial⟩
  rw [Option.filter_eq_some_iff] at huser
  have hguid : user.guid = session.userGuid := (findUser_eq_some huser.1).2.1
  have hexchange : QuietStep A change (fun _ => some (.exchangedSession session.guid)) fun w => { w with
      db := setRevokedAt (·.guid = session.guid) (N.now w.calls) w.db, calls := w.calls + 1 } :=
    ⟨fun w h => h, fun w h => noSession_setRevokedAt _ _ h, by simp⟩
  rw [Protocol.holds_bind, World.insertFor, Protocol.holds_perform]
  refine Protocol.StepHolds.mono (quiet_stepHolds hexchange (by rintro _ _ ⟨⟩; rfl) hv₃) fun _ _ hv₄ => ?_
  exact issueTokens_holds _ _ (hguid ▸ hv₄)

/-- **A hash of the new password** does not verify the old one, if no salt makes both alike. -/
theorem verifyPassword_new
    (hnew : ∀ salt, A.scryptSync change.oldPassword salt scryptKeyLength ≠
      A.scryptSync change.password salt scryptKeyLength) (salt : Bytes) :
    verifyPassword A change.oldPassword (Codec.base64.encode salt ++
      '.' :: Codec.base64.encode (A.scryptSync change.password salt scryptKeyLength)) = false := by
  have hsplit : Text.split '.' (Codec.base64.encode salt ++
      '.' :: Codec.base64.encode (A.scryptSync change.password salt scryptKeyLength)) =
      [Codec.base64.encode salt, Codec.base64.encode (A.scryptSync change.password salt scryptKeyLength)] := by
    rw [Text.split_append_cons, Text.split_of_not_mem (Codec.dot_notMem_encode _),
      Text.split_of_not_mem (Codec.dot_notMem_encode _)]
    rfl
  rw [verifyPassword, hsplit]
  simp only [List.getElem?_cons_zero, List.getElem?_cons_succ, Option.getD_some]
  split_ifs
  · rfl
  · refine Bool.and_eq_false_iff.mpr (.inr (decide_eq_false fun h => ?_))
    rw [Codec.unbase64_encode Codec.base64_readable, Codec.unbase64_encode Codec.base64_readable,
      A.length_scryptSync] at h
    exact hnew salt h.symm

/-- **Setting the password ends the sessions for good.** -/
theorem setPassword_holds
    (hnew : ∀ salt, A.scryptSync change.oldPassword salt scryptKeyLength ≠
      A.scryptSync change.password salt scryptKeyLength) (i : ℕ) (v : Shared Event World) :
    (signIns A change).holds i (UsersService.setPassword N A change.guid change.password
        change.currentPassword change.actorGuid)
      (fun _ v => Ended change v.record) (fun _ _ => True) v := by
  have hselect : QuietStep A change (fun _ => none) id := .of_same (fun _ => rfl) (fun _ => rfl) nofun
  rw [UsersService.setPassword, Protocol.holds_bind, World.select, Program.query, Protocol.holds_observe]
  refine Protocol.StepHolds.mono (quiet_stepHolds' hselect i v) fun w v₁ _ => ?_
  rw [Protocol.holds_bind, Protocol.holds_orThrow]
  refine ⟨fun user _ => ?_, fun _ => trivial⟩
  rw [Protocol.holds_bind, Protocol.holds_require]
  refine ⟨fun _ => ?_, fun _ => trivial⟩
  rw [Protocol.holds_bind, hashPassword, Protocol.holds_bind, World.nextCall, Program.alter,
    Protocol.holds_perform]
  refine Protocol.StepHolds.mono (quiet_stepHolds' quiet_nextCall i v₁) fun w' v₂ _ => ?_
  rw [Protocol.holds_pure, Protocol.holds_bind, World.execute, Program.alter, Protocol.holds_perform]
  intro v₃ _ hinv₃ _
  have hlocked : LockedOut A change { v₃.state with
      db := updateUsers (·.guid = change.guid) (fun u => { u with
        passwordHash := Codec.base64.encode (N.randomBytes w'.calls 16) ++ '.' :: Codec.base64.encode
          (A.scryptSync change.password (N.randomBytes w'.calls 16) scryptKeyLength) }) v₃.state.db } := by
    intro u hu hguid
    obtain ⟨u', hu', rfl⟩ := List.mem_map.mp hu
    split_ifs at hguid ⊢ with hself
    · exact verifyPassword_new hnew _
    · exact absurd (decide_eq_true hguid) hself
  refine ⟨fun _ => hlocked, ⟨fun _ => hlocked, hinv₃.noSession⟩, ?_⟩
  beta_reduce
  rw [revokeSessions, World.insertFor, Protocol.holds_perform]
  rintro v₄ ⟨-, hstays⟩ hinv₄ _
  refine ⟨fun h => h, ⟨fun _ => hstays hlocked, fun _ s hs hguid hnone => ?_⟩,
    ⟨_, List.mem_cons_self, rfl⟩⟩
  obtain ⟨-, hnone, hother⟩ := mem_setRevokedAt.mp ⟨hs, hnone⟩
  rw [hguid, hnone, decide_eq_true rfl] at hother
  cases hother

/-! ## Schedules -/

theorem ended_rely {i : ℕ} {v v' : Shared Event World} (hrely : (signIns A change).rely i v v')
    (h : Ended change v.record) : Ended change v'.record := by
  obtain ⟨⟨new, hrecord, -⟩, -⟩ := hrely
  obtain ⟨e, he, hended⟩ := h
  refine ⟨e, ?_, hended⟩
  rw [hrecord]
  exact List.mem_append_right _ he

/-- The password was set. -/
def PasswordSet (t : Thread SignInRequest Event Fault World Unit) : Bool :=
  t.request = .setPassword && match t.rest with
    | some (.done ()) => true
    | _ => false

/-- **No session of the user is left once their password is set**, on any schedule on which the
sessions are not ended between a request's check and the opening of its session. -/
theorem sessions_ended
    (hnew : ∀ salt, A.scryptSync change.oldPassword salt scryptKeyLength ≠
      A.scryptSync change.password salt scryptKeyLength)
    (w : World) (schedule : List (Move SignInRequest))
    (hpermitted : (⟨⟨w, []⟩, []⟩ : Pool _ _ _ _ _).Permitted (SignInRequest.program N C A config change)
      OpensInTime schedule) :
    let p := (⟨⟨w, []⟩, []⟩ : Pool _ _ _ _ _).run (SignInRequest.program N C A config change) schedule
    (∃ t ∈ p.threads, PasswordSet t = true) →
      ∀ s ∈ p.state.db.userSessions, s.userGuid = change.guid → s.revokedAt ≠ none := by
  intro p hset
  have hinv : EndedForGood A change ⟨w, []⟩ := by
    constructor
    · rintro ⟨e, he, -⟩
      cases he
    · rintro ⟨e, he, -⟩
      cases he
  have hprogram : ∀ (r : SignInRequest) i v, (signIns A change).inv v → Protocol.Fresh i v →
      (signIns A change).holds i (r.program N C A config change)
        (fun _ v => r = .setPassword → Ended change v.record) (fun _ _ => True) v := by
    intro r i v _ _
    cases r with
    | setPassword =>
      exact Protocol.holds_mono (setPassword_holds hnew i v) (fun _ _ h _ => h) fun _ _ h => h
    | login email userAgent =>
      rw [SignInRequest.program, Protocol.holds_bind]
      exact Protocol.holds_mono (login_holds email userAgent i v) (fun _ _ _ h => nomatch h) fun _ _ h => h
    | refresh refreshToken =>
      rw [SignInRequest.program, Protocol.holds_bind]
      exact Protocol.holds_mono (refresh_holds refreshToken i v) (fun _ _ _ h => nomatch h) fun _ _ h => h
  have hsound : (signIns A change).Sound
      (fun _ r _ v => r = SignInRequest.setPassword → Ended change v.record) (fun _ _ _ _ => True) p :=
    Protocol.sound (P := signIns A change) hprogram (.of_idle hinv rfl) hpermitted
  obtain ⟨⟨request, rest⟩, hthread, hset⟩ := hset
  obtain ⟨j, hj⟩ := List.mem_iff_getElem?.mp hthread
  unfold PasswordSet at hset
  rw [Bool.and_eq_true, decide_eq_true_iff] at hset
  obtain ⟨hrequest, hset⟩ := hset
  dsimp only at hrequest hset
  split at hset
  · obtain ⟨v, hrely, hended⟩ := hsound.threads j request _ hj
    exact hsound.inv.noSession (ended_rely hrely (hended hrequest))
  · cases hset

/-! ## A session that survives -/

/-- A user whose password is `pw`. -/
def racedUser : UserRow where
  guid := "user-1".toList
  email := "a@example.com".toList
  passwordHash := Codec.base64.encode [0] ++ '.' :: Codec.base64.encode (Text.bytes "pw".toList)

/-- They set it to `new`. -/
def toNew : Change := ⟨racedUser.guid, "pw".toList, "new".toList, some "pw".toList, racedUser.guid⟩

def somewhere : AuthConfig := ⟨"secret".toList, "storage".toList, 900, 1209600⟩

def racedPool : Pool SignInRequest Event Fault World Unit where
  state := { db := { users := [racedUser] }, encryption := ⟨false, []⟩ }

def signInMeanwhile : List (Move SignInRequest) := [.start (.login racedUser.email none), .start .setPassword]

/-- **A session survives**: the password is checked before it is changed, and the session opened after
the others were ended. -/
theorem session_survives :
    let p := racedPool.run (SignInRequest.program Node.counting Crypto.sample AuthRuntime.sample somewhere
      toNew) (signInMeanwhile ++ [.advance 0] ++ List.replicate 4 (.advance 1) ++
        List.replicate 4 (.advance 0))
    (∀ t ∈ p.threads, t.rest.any (fun x => x matches .done ()) = true) ∧
      (∃ t ∈ p.threads, PasswordSet t = true) ∧
      ∃ s ∈ p.state.db.userSessions, s.userGuid = toNew.guid ∧ s.revokedAt = none := by
  decide +kernel

/-- A session opened before is ended. -/
theorem sessions_ended_inTurn :
    let p := racedPool.run (SignInRequest.program Node.counting Crypto.sample AuthRuntime.sample somewhere
      toNew) (signInMeanwhile ++ List.replicate 5 (.advance 0) ++ List.replicate 4 (.advance 1))
    ∀ s ∈ p.state.db.userSessions, s.userGuid = toNew.guid → s.revokedAt ≠ none := by
  intro p
  have hnew : AuthRuntime.sample.scryptSync toNew.oldPassword [] scryptKeyLength ≠
      AuthRuntime.sample.scryptSync toNew.password [] scryptKeyLength := by decide +kernel
  exact @sessions_ended Node.counting Crypto.sample AuthRuntime.sample somewhere toNew (fun _ => hnew)
    racedPool.state _ (by decide +kernel) (by decide +kernel)

end PasswordRaces
end SimpleStorage
