import SimpleStorage.Auth.RefreshTokens
import SimpleStorage.Library.Interleaving

/-!
# Two exchanges of one token

`AuthService.refresh` reads a session that is not revoked in one statement and revokes it in
another, which does not look whether it still is not.  Of several requests that come with the
same token, all that read the session before the first of them revokes it get new tokens.

`exchanged_once` says that, whatever else is going on, at most one of them does as long as no
other exchange of the session comes between a request's read and its update, and
`exchanged_twice` is a schedule on which one does.
-/

namespace SimpleStorage
namespace RefreshTokens

open AuthService AuthTypes Program

variable (N : Node) (C : Crypto) (A : AuthRuntime) (config : AuthConfig)

/-- The session an exchange ends. -/
def exchanged : Event → Option Guid
  | .exchangedSession guid => some guid
  | _ => none

/-- **No exchange of a session comes between a request's read of it and its own.** -/
def ExchangesInTime (v : Shared Event World) (i : ℕ) (e : Event) : Prop :=
  ∀ guid ∈ exchanged e, ∀ e' ∈ v.record.takeWhile (· ≠ (i, .readSession (some guid))),
    exchanged e'.2 ≠ some guid

instance (v : Shared Event World) (i : ℕ) (e : Event) : Decidable (ExchangesInTime v i e) :=
  inferInstanceAs (Decidable (∀ guid ∈ exchanged e, _))

/-- The thread got new tokens for a token. -/
def GotTokens (token : Text) (t : Thread AuthRequest Event Fault World (Option Tokens)) : Bool :=
  t.request = .refresh token && match t.rest with
    | some (.done (some _)) => true
    | _ => false

/-- **Keys of the session table**: guids are distinct and drawn already, and so are hashes. -/
structure SessionKeys (w : World) : Prop where
  guids : (w.db.userSessions.map (·.guid)).Nodup
  guid_lt : ∀ s ∈ w.db.userSessions, s.guid < w.calls
  hashes : (w.db.userSessions.map (·.refreshTokenHash)).Nodup

/-- **Sessions stay**, and what is revoked stays revoked. -/
structure SessionsStay (w w' : World) : Prop where
  calls : w.calls ≤ w'.calls
  stays : ∀ s ∈ w.db.userSessions, ∃ s' ∈ w'.db.userSessions, s'.guid = s.guid ∧
    s'.refreshTokenHash = s.refreshTokenHash ∧ (s.revokedAt ≠ none → s'.revokedAt ≠ none)

theorem SessionsStay.refl (w : World) : SessionsStay w w :=
  ⟨le_rfl, fun s hs => ⟨s, hs, rfl, rfl, id⟩⟩

theorem SessionsStay.trans {w w' w'' : World} (h : SessionsStay w w') (h' : SessionsStay w' w'') :
    SessionsStay w w'' := by
  refine ⟨h.calls.trans h'.calls, fun s hs => ?_⟩
  obtain ⟨s', hs', hguid, hhash, hrevoked⟩ := h.stays s hs
  obtain ⟨s'', hs'', hguid', hhash', hrevoked'⟩ := h'.stays s' hs'
  exact ⟨s'', hs'', hguid'.trans hguid, hhash'.trans hhash, hrevoked' ∘ hrevoked⟩

/-! ## Steps -/

/-- **What every step on the sessions keeps.** -/
structure SessionStep (effect : World → World) : Prop where
  stays : ∀ w, SessionsStay w (effect w)
  keys : ∀ w, SessionKeys w → SessionKeys (effect w)

/-- A step that is not an exchange. -/
structure OtherStep (event : World → Option Event) (effect : World → World) : Prop
    extends SessionStep effect where
  event : ∀ w, ∀ e ∈ event w, exchanged e = none

theorem SessionStep.id : SessionStep id := ⟨SessionsStay.refl, fun _ h => h⟩

/-- Sessions are left alone. -/
theorem SessionStep.of_same {effect : World → World}
    (hsessions : ∀ w, (effect w).db.userSessions = w.db.userSessions)
    (hcalls : ∀ w, w.calls ≤ (effect w).calls) : SessionStep effect where
  stays := fun w => ⟨hcalls w, fun s hs => ⟨s, by rw [hsessions]; exact hs, rfl, rfl, fun h => h⟩⟩
  keys := fun w h => by
    constructor
    · rw [hsessions]
      exact h.guids
    · rw [hsessions]
      exact fun s hs => (h.guid_lt s hs).trans_le (hcalls w)
    · rw [hsessions]
      exact h.hashes

/-- Sessions are ended. -/
theorem sessionStep_setRevokedAt (p : UserSessionRow → Bool) : SessionStep fun w =>
    { w with db := setRevokedAt p (N.now w.calls) w.db, calls := w.calls + 1 } where
  stays := fun w => by
    refine ⟨Nat.le_succ _, fun s hs => ⟨_, List.mem_map_of_mem hs, ?_⟩⟩
    split_ifs
    · exact ⟨rfl, rfl, fun _ => Option.some_ne_none _⟩
    · exact ⟨rfl, rfl, fun h => h⟩
  keys := fun w h => by
    have hguids := map_setRevokedAt (·.guid) (fun _ _ => rfl) p (N.now w.calls) w.db
    have hhashes := map_setRevokedAt (·.refreshTokenHash) (fun _ _ => rfl) p (N.now w.calls) w.db
    refine ⟨hguids ▸ h.guids, fun s hs => ?_, hhashes ▸ h.hashes⟩
    obtain ⟨s', hs', hguid⟩ := List.mem_map.mp (hguids ▸ List.mem_map_of_mem hs)
    rw [← hguid]
    exact Nat.lt_succ_of_lt (h.guid_lt s' hs')

/-- A session is opened, unless its hash is taken. -/
theorem sessionStep_insertSession (row : ℕ → UserSessionRow) (hguid : ∀ call, (row call).guid = call) :
    SessionStep fun w =>
      { w with db := (insertSession (row w.calls) w.db).2, calls := w.calls + 1 } where
  stays := fun w => by
    refine ⟨Nat.le_succ _, fun s hs => ⟨s, ?_, rfl, rfl, fun h => h⟩⟩
    unfold insertSession
    split_ifs
    · exact hs
    · exact List.mem_append_left _ hs
  keys := fun w h => by
    unfold insertSession
    split_ifs with htaken
    · exact ⟨h.guids, fun s hs => Nat.lt_succ_of_lt (h.guid_lt s hs), h.hashes⟩
    rw [List.any_eq_true, not_exists] at htaken
    refine ⟨?_, fun s hs => ?_, ?_⟩
    · rw [List.map_append, List.nodup_append]
      refine ⟨h.guids, List.nodup_singleton _, fun a ha b hb => ?_⟩
      obtain ⟨s, hs, rfl⟩ := List.mem_map.mp ha
      rw [List.mem_singleton.mp hb]
      exact ((h.guid_lt s hs).trans_eq (hguid w.calls).symm).ne
    · rcases List.mem_append.mp hs with hs | hs
      · exact Nat.lt_succ_of_lt (h.guid_lt s hs)
      · rw [List.mem_singleton.mp hs, hguid]
        exact Nat.lt_succ_self _
    · rw [List.map_append, List.nodup_append]
      refine ⟨h.hashes, List.nodup_singleton _, fun a ha b hb heq => ?_⟩
      obtain ⟨s, hs, rfl⟩ := List.mem_map.mp ha
      rw [List.mem_singleton.mp hb] at heq
      exact htaken s ⟨hs, decide_eq_true heq⟩

section Programs

variable {N C A config}

theorem select_other {α : Type} (f : Database → α) : (World.select f).Every OtherStep :=
  .observe ⟨.id, nofun⟩ _

theorem readUser_other {α : Type} (f : Database → α) (g : Database → Option UserGuid) :
    (World.selectFor (fun db => some (.readUser (g db))) f).Every OtherStep :=
  .observe ⟨.id, by rintro _ _ ⟨⟩; rfl⟩ _

theorem nextCall_other : World.nextCall.Every OtherStep :=
  .perform ⟨.of_same (fun _ => rfl) fun _ => Nat.le_succ _, nofun⟩

theorem updateUsers_other {β : Type} (g : Database → β) (p : UserRow → Bool) (f : UserRow → UserRow) :
    (World.execute fun db => (g db, updateUsers p f db)).Every OtherStep :=
  .perform ⟨.of_same (fun _ => rfl) fun _ => le_rfl, nofun⟩

theorem updateFor_other {β : Type} (guid : UserGuid) (g : Database → β) (p : UserRow → Bool)
    (f : ℕ → UserRow → UserRow) :
    (UsersService.updateFor guid fun call db => (g db, updateUsers p (f call) db)).Every OtherStep := by
  refine .perform ⟨.of_same (fun _ => rfl) fun _ => Nat.le_succ _, fun w e he => ?_⟩
  split_ifs at he
  · cases he
    rfl
  · cases he

theorem insertUsers_other (p : UserRow → Bool) (f : ℕ → UserRow → UserRow) :
    (World.insertFor (fun _ => none) fun call db => ((), updateUsers p (f call) db)).Every OtherStep :=
  .perform ⟨.of_same (fun _ => rfl) fun _ => Nat.le_succ _, nofun⟩

theorem logout_other (token : Text) : (logout N C token).Every OtherStep :=
  .perform ⟨sessionStep_setRevokedAt N _, nofun⟩

theorem revokeSessions_other (guid : UserGuid) : (revokeSessions N guid).Every OtherStep :=
  .perform ⟨sessionStep_setRevokedAt N _, by rintro _ _ ⟨⟩; rfl⟩

theorem issueTokens_other (identity : Identity) (userAgent : Option Text) :
    (issueTokens N C A config identity userAgent).Every OtherStep := by
  refine .bind nextCall_other fun now => .bind nextCall_other fun call => .bind ?_ fun inserted =>
    .bind (.orThrow _ _) fun _ => .pure _
  let row (guid : ℕ) : UserSessionRow := {
    guid
    userGuid := identity.guid
    refreshTokenHash := hashRefreshToken C (refreshTokenAt N call)
    userAgent
    expiresAt := N.now guid + config.refreshTtl * 1000 }
  exact .perform ⟨sessionStep_insertSession row fun _ => rfl, by rintro _ _ ⟨⟩; rfl⟩

theorem login_other (email password : Text) (userAgent : Option Text) :
    (login N C A config email password userAgent).Every OtherStep :=
  .bind (readUser_other _ _) fun _ => .bind (.orThrow _ _) fun _ => .bind (.require _ _) fun _ =>
    .bind (insertUsers_other _ _) fun _ => issueTokens_other _ _

theorem setPassword_other (guid : UserGuid) (password : Text) (currentPassword : Option Text)
    (actorGuid : UserGuid) :
    (UsersService.setPassword N A guid password currentPassword actorGuid).Every OtherStep :=
  .bind (select_other _) fun _ => .bind (.orThrow _ _) fun _ => .bind (.require _ _) fun _ =>
    .bind (.bind nextCall_other fun _ => .pure _) fun _ => .bind (updateUsers_other _ _ _) fun _ =>
      revokeSessions_other _

theorem countAdmins_other (c : Prop) [Decidable c] (e : Fault) :
    Every OtherStep (if c then do
      let admins ← UsersService.selectAdmins
      require (¬ admins ≤ 1) e
    else pure ()) :=
  .ite (.bind (.observe ⟨.id, by rintro _ _ ⟨⟩; rfl⟩ _) fun _ => .require _ _) (.pure _)

theorem setStatus_other (guid : UserGuid) (status : UserStatus) :
    (UsersService.setStatus guid status).Every OtherStep :=
  .bind (.bind (select_other _) fun _ => .orThrow _ _) fun _ => .bind (countAdmins_other _ _) fun _ =>
    .bind (updateFor_other _ _ _ _) fun _ => .require _ _

theorem delete_other (guid : UserGuid) : (UsersService.delete N guid).Every OtherStep :=
  .bind (.bind (select_other _) fun _ => .orThrow _ _) fun _ => .bind (countAdmins_other _ _) fun _ =>
    updateFor_other _ _ _ _

end Programs

/-! ## The protocol -/

/-- **What holds throughout**: a session that was exchanged is revoked, and was exchanged once. -/
structure ExchangedOnce (v : Shared Event World) : Prop where
  keys : SessionKeys v.state
  revoked : ∀ e ∈ v.record, ∀ guid ∈ exchanged e.2, ∃ s ∈ v.state.db.userSessions,
    s.guid = guid ∧ s.revokedAt ≠ none
  once : ∀ guid i j, (i, .exchangedSession guid) ∈ v.record → (j, .exchangedSession guid) ∈ v.record → i = j

/-- Threads rely on each other to keep the sessions. -/
def exchanges : Protocol Event World where
  permits := ExchangesInTime
  inv := ExchangedOnce
  rely i v v' := (∃ new, v'.record = new ++ v.record ∧ ∀ e ∈ new, e.1 ≠ i) ∧ SessionsStay v.state v'.state
  guar _ v _ s := SessionsStay v.state s
  refl _ v := ⟨⟨[], rfl, nofun⟩, .refl _⟩
  trans := by
    rintro i v v' v'' ⟨⟨new, hrecord, hother⟩, hstays⟩ ⟨⟨new', hrecord', hother'⟩, hstays'⟩
    refine ⟨⟨new' ++ new, by rw [hrecord', hrecord, List.append_assoc], fun e he => ?_⟩, hstays.trans hstays'⟩
    exact (List.mem_append.mp he).elim (hother' e) (hother e)
  rely_of_guar := by
    rintro i j v e s hij - hguar -
    refine ⟨⟨e.toList.map (j, ·), rfl, fun e' he' => ?_⟩, hguar⟩
    obtain ⟨_, -, rfl⟩ := List.mem_map.mp he'
    exact hij.symm

/-- The invariant after a step that is not an exchange. -/
theorem ExchangedOnce.other {v : Shared Event World} (h : ExchangedOnce v)
    {event : World → Option Event} {effect : World → World} (hstep : OtherStep event effect) (i : ℕ) :
    ExchangedOnce (v.after i (event v.state) (effect v.state)) := by
  have hrecord : ∀ e ∈ (v.after i (event v.state) (effect v.state)).record, ∀ guid ∈ exchanged e.2,
      e ∈ v.record := by
    intro e he guid hguid
    rcases List.mem_append.mp he with he | he
    · obtain ⟨e', he', rfl⟩ := List.mem_map.mp he
      rw [hstep.event v.state e' (by simpa using he')] at hguid
      cases hguid
    · exact he
  refine ⟨hstep.keys _ h.keys, fun e he guid hguid => ?_, fun guid j k hj hk => ?_⟩
  · obtain ⟨s, hs, hsguid, hrevoked⟩ := h.revoked e (hrecord e he guid hguid) guid hguid
    obtain ⟨s', hs', hguid', -, hstays⟩ := (hstep.stays v.state).stays s hs
    exact ⟨s', hs', hguid'.trans hsguid, hstays hrevoked⟩
  · exact h.once guid j k (hrecord _ hj guid rfl) (hrecord _ hk guid rfl)

/-- What the others and the steps that are not exchanges do not undo. -/
structure Stable (i : ℕ) (known : Shared Event World → Prop) : Prop where
  rely : ∀ v v', exchanges.rely i v v' → known v → known v'
  after : ∀ v e s, SessionsStay v.state s → known v → known (v.after i e s)

theorem other_stepHolds {event : World → Option Event} {effect : World → World}
    (hstep : OtherStep event effect) {i : ℕ} {known : Shared Event World → Prop} (hstable : Stable i known)
    (v : Shared Event World) (hv : known v) :
    exchanges.StepHolds i event effect (fun _ => known) v := by
  intro v' hrely hinv _
  exact ⟨hstep.stays v'.state, hinv.other hstep i,
    hstable.after v' _ _ (hstep.stays v'.state) (hstable.rely v v' hrely hv)⟩

theorem other_holds {α : Type} {x : Service α} (hx : x.Every OtherStep) {i : ℕ}
    {known : Shared Event World → Prop} (hstable : Stable i known) {v : Shared Event World} (hv : known v) :
    exchanges.holds i x (fun _ => known) (fun _ => known) v :=
  Protocol.holds_of_stable known (fun _ _ h v hv => other_stepHolds h hstable v hv) hx hv

/-- The thread exchanged a session of a token. -/
def Exchanged (tokenHash : Text) (i : ℕ) (v : Shared Event World) : Prop :=
  ∃ s ∈ v.state.db.userSessions, s.refreshTokenHash = tokenHash ∧
    (i, .exchangedSession s.guid) ∈ v.record

theorem stable_exchanged (tokenHash : Text) (i : ℕ) : Stable i (Exchanged tokenHash i) where
  rely := by
    rintro v v' ⟨⟨new, hrecord, -⟩, hstays⟩ ⟨s, hs, hhash, hmem⟩
    obtain ⟨s', hs', hguid, hhash', -⟩ := hstays.stays s hs
    refine ⟨s', hs', hhash'.trans hhash, ?_⟩
    rw [hguid, hrecord]
    exact List.mem_append_right _ hmem
  after := by
    rintro v e w hstays ⟨s, hs, hhash, hmem⟩
    obtain ⟨s', hs', hguid, hhash', -⟩ := hstays.stays s hs
    refine ⟨s', hs', hhash'.trans hhash, ?_⟩
    rw [hguid]
    exact List.mem_append_right _ hmem

/-- The thread has read a session that nobody had exchanged by then. -/
def ReadUnexchanged (session : UserSessionRow) (i : ℕ) (v : Shared Event World) : Prop :=
  (∃ s ∈ v.state.db.userSessions, s.guid = session.guid ∧
    s.refreshTokenHash = session.refreshTokenHash) ∧
  ∃ new old, v.record = new ++ (i, .readSession (some session.guid)) :: old ∧
    (∀ e ∈ new, e.1 ≠ i) ∧ ∀ e ∈ old, exchanged e.2 ≠ some session.guid

/-- Reading goes on without leaving anything on record. -/
theorem readUnexchanged_rely {session : UserSessionRow} {i : ℕ} {v v' : Shared Event World}
    (hrely : exchanges.rely i v v') (h : ReadUnexchanged session i v) : ReadUnexchanged session i v' := by
  obtain ⟨⟨more, hrecord', hmore⟩, hstays⟩ := hrely
  obtain ⟨⟨s, hs, hguid, hhash⟩, new, old, hrecord, hnew, hold⟩ := h
  obtain ⟨s', hs', hguid', hhash', -⟩ := hstays.stays s hs
  refine ⟨⟨s', hs', hguid'.trans hguid, hhash'.trans hhash⟩, more ++ new, old, ?_, fun e he => ?_, hold⟩
  · rw [hrecord', hrecord, List.append_assoc]
  · exact (List.mem_append.mp he).elim (hmore e) (hnew e)

theorem readUnexchanged_after {session : UserSessionRow} {i : ℕ} {v : Shared Event World} {s : World}
    (hstays : SessionsStay v.state s) (h : ReadUnexchanged session i v) :
    ReadUnexchanged session i (v.after i none s) :=
  readUnexchanged_rely (i := i) (v := v) ⟨⟨[], rfl, nofun⟩, hstays⟩ h

/-- **The exchange itself**: permitted, it is the only one of its session. -/
theorem exchange_stepHolds (session : UserSessionRow) (i : ℕ) {v : Shared Event World}
    (hv : ReadUnexchanged session i v) :
    exchanges.StepHolds i (fun _ => some (.exchangedSession session.guid))
      (fun w => { w with
        db := setRevokedAt (·.guid = session.guid) (N.now w.calls) w.db, calls := w.calls + 1 })
      (fun _ => Exchanged session.refreshTokenHash i) v := by
  intro v' hrely hinv hpermits
  obtain ⟨⟨s, hs, hguid, hhash⟩, new, old, hrecord, hnew, hold⟩ := readUnexchanged_rely hrely hv
  have hstep := sessionStep_setRevokedAt N fun s => decide (s.guid = session.guid)
  have htake : v'.record.takeWhile (· ≠ (i, .readSession (some session.guid))) = new := by
    rw [hrecord, List.takeWhile_append_of_pos]
    · simp
    · intro e he
      exact decide_eq_true fun h => hnew e he (congrArg Prod.fst h)
  have hnone : ∀ e ∈ v'.record, exchanged e.2 ≠ some session.guid := by
    intro e he
    rw [hrecord] at he
    rcases List.mem_append.mp he with he | he
    · exact hpermits _ rfl session.guid rfl e (htake.symm ▸ he)
    · rcases List.mem_cons.mp he with rfl | he
      · nofun
      · exact hold e he
  have hstays := hstep.stays v'.state
  obtain ⟨s', hs', hguid', hhash', -⟩ := hstays.stays s hs
  refine ⟨hstays, ⟨hstep.keys _ hinv.keys, fun e he guid hexchanged => ?_, fun guid j k hj hk => ?_⟩,
    s', hs', hhash'.trans hhash, ?_⟩
  · rcases List.mem_cons.mp he with rfl | he
    · obtain rfl := Option.some.inj hexchanged
      refine ⟨_, List.mem_map_of_mem hs, ?_⟩
      rw [if_pos (decide_eq_true hguid)]
      exact ⟨hguid, Option.some_ne_none _⟩
    · obtain ⟨r, hr, hrguid, hrevoked⟩ := hinv.revoked e he guid hexchanged
      obtain ⟨r', hr', hguid'', -, hkept⟩ := hstays.stays r hr
      exact ⟨r', hr', hguid''.trans hrguid, hkept hrevoked⟩
  · rcases List.mem_cons.mp hj with hj | hj
    · rcases List.mem_cons.mp hk with hk | hk
      · rw [(Prod.mk.inj hj).1, (Prod.mk.inj hk).1]
      · cases hj
        exact absurd rfl (hnone _ hk)
    · rcases List.mem_cons.mp hk with hk | hk
      · cases hk
        exact absurd rfl (hnone _ hj)
      · exact hinv.once guid j k hj hk
  · rw [hguid'.trans hguid]
    exact List.mem_cons_self

/-- What has been read stays as good. -/
theorem silent_stepHolds {effect : World → World} (hstep : OtherStep (fun _ => none) effect)
    {session : UserSessionRow} {i : ℕ} {v : Shared Event World} (hv : ReadUnexchanged session i v) :
    exchanges.StepHolds i (fun _ => none) effect (fun _ => ReadUnexchanged session i) v := by
  intro v' hrely hinv _
  exact ⟨hstep.stays v'.state, hinv.other hstep i,
    readUnexchanged_after (hstep.stays v'.state) (readUnexchanged_rely hrely hv)⟩

variable {N C A config}

/-- **A request that gets new tokens exchanged the session** of its token. -/
theorem refresh_holds (token : Text) (i : ℕ) (v : Shared Event World) :
    exchanges.holds i (AuthService.refresh N C A config token)
      (fun _ => Exchanged (hashRefreshToken C token) i) (fun _ _ => True) v := by
  rw [AuthService.refresh]
  dsimp only
  rw [Protocol.holds_bind, World.selectFor, Protocol.holds_observe]
  intro v₁ _ hinv₁ _
  have hread : OtherStep (fun w => some (.readSession
      ((findSession (hashRefreshToken C token) w.db).map (·.guid)))) id := by
    refine ⟨.id, ?_⟩
    rintro w _ ⟨⟩
    rfl
  refine ⟨.refl _, hinv₁.other hread i, ?_⟩
  beta_reduce
  rw [Protocol.holds_bind, Protocol.holds_orThrow]
  refine ⟨fun session hsession => ?_, fun _ => trivial⟩
  obtain ⟨hmem, hhash, hunrevoked⟩ := findSession_eq_some hsession
  -- whoever exchanged it before would have revoked it
  have hunexchanged : ∀ e ∈ v₁.record, exchanged e.2 ≠ some session.guid := by
    intro e he hexchanged
    obtain ⟨s, hs, hguid, hrevoked⟩ := hinv₁.revoked e he session.guid hexchanged
    rw [List.inj_on_of_nodup_map hinv₁.keys.guids hs hmem hguid] at hrevoked
    exact hrevoked hunrevoked
  have hknown : ReadUnexchanged session i (v₁.after i (some (.readSession
      ((findSession (hashRefreshToken C token) v₁.state.db).map (·.guid)))) v₁.state) := by
    refine ⟨⟨session, hmem, rfl, rfl⟩, [], v₁.record, ?_, by simp, hunexchanged⟩
    rw [hsession]
    rfl
  have hdraw : OtherStep (fun _ => none) fun w => { w with calls := w.calls + 1 } :=
    ⟨.of_same (fun _ => rfl) fun _ => Nat.le_succ _, by simp⟩
  rw [Protocol.holds_bind, World.nextCall, Program.alter, Protocol.holds_perform]
  refine Protocol.StepHolds.mono (silent_stepHolds hdraw hknown) fun w v₂ hknown₂ => ?_
  rw [Protocol.holds_bind, Protocol.holds_require]
  refine ⟨fun _ => ?_, fun _ => trivial⟩
  rw [Protocol.holds_bind, World.select, Program.query, Protocol.holds_observe]
  refine Protocol.StepHolds.mono (silent_stepHolds ⟨.id, by simp⟩ hknown₂) fun w' v₃ hknown₃ => ?_
  rw [Protocol.holds_bind, Protocol.holds_orThrow]
  refine ⟨fun user _ => ?_, fun _ => trivial⟩
  rw [Protocol.holds_bind, World.insertFor, Protocol.holds_perform]
  refine Protocol.StepHolds.mono (exchange_stepHolds N session i hknown₃) fun _ v₄ hexchanged => ?_
  rw [hhash] at hexchanged
  exact Protocol.holds_mono (other_holds (issueTokens_other _ _) (stable_exchanged _ i) hexchanged)
    (fun _ _ h => h) fun _ _ _ => trivial

/-- What is known of a request that is through. -/
def Through (C : Crypto) (i : ℕ) (request : AuthRequest) (answer : Option Tokens) (v : Shared Event World) :
    Prop := ∀ token, request = .refresh token → answer ≠ none → Exchanged (hashRefreshToken C token) i v

theorem program_holds (request : AuthRequest) (i : ℕ) (v : Shared Event World) :
    exchanges.holds i (request.program N C A config) (Through C i request) (fun _ _ => True) v := by
  have hother : ∀ {β : Type} {x : Service β} {f : β → Option Tokens}, x.Every OtherStep →
      (∀ token, request ≠ .refresh token) →
      exchanges.holds i (x >>= fun b => pure (f b)) (Through C i request) (fun _ _ => True) v := by
    intro β x f hx hrequest
    have hstable : Stable i fun _ => True := ⟨fun _ _ _ _ => trivial, fun _ _ _ _ _ => trivial⟩
    refine Protocol.holds_mono (other_holds (.bind hx fun _ => .pure _) hstable trivial) ?_
      fun _ _ _ => trivial
    exact fun _ _ _ token htoken => absurd htoken (hrequest token)
  cases request with
  | login email password userAgent => exact hother (login_other _ _ _) nofun
  | refresh token =>
    refine Protocol.holds_bind.mpr (Protocol.holds_mono (refresh_holds token i v) ?_ fun _ _ h => h)
    rintro tokens v' h _ ⟨⟩ -
    exact h
  | logout token => exact hother (logout_other _) nofun
  | setPassword guid password currentPassword actorGuid =>
    exact hother (setPassword_other _ _ _ _) nofun
  | setStatus guid status => exact hother (setStatus_other _ _) nofun
  | delete guid => exact hother (delete_other _) nofun

/-- **A token is exchanged at most once** on any schedule on which no exchange of a session comes
between another request's read of it and that request's own exchange. -/
theorem exchanged_once {w : World} (hw : SessionKeys w) (schedule : List (Move AuthRequest))
    (hpermitted : (⟨⟨w, []⟩, []⟩ : Pool _ _ _ _ _).Permitted (AuthRequest.program N C A config)
      ExchangesInTime schedule) (token : Text) (i j : ℕ) :
    let p := (⟨⟨w, []⟩, []⟩ : Pool _ _ _ _ _).run (AuthRequest.program N C A config) schedule
    p.threads[i]?.any (GotTokens token) → p.threads[j]?.any (GotTokens token) → i = j := by
  intro p hi hj
  have hinv : ExchangedOnce ⟨w, []⟩ := ⟨hw, nofun, nofun⟩
  have hsound : exchanges.Sound (Through C) (fun _ _ _ _ => True) p :=
    Protocol.sound (P := exchanges) (fun r i v _ _ => program_holds r i v) (.of_idle hinv rfl) hpermitted
  have hgot : ∀ k, p.threads[k]?.any (GotTokens token) →
      Exchanged (hashRefreshToken C token) k p.toShared := by
    intro k hk
    obtain ⟨⟨request, rest⟩, hthread, hgot⟩ := (Option.any_eq_true _ _).mp hk
    unfold GotTokens at hgot
    rw [Bool.and_eq_true, decide_eq_true_iff] at hgot
    obtain ⟨hrequest, hgot⟩ := hgot
    dsimp only at hrequest hgot
    split at hgot
    · obtain ⟨v, hrely, hthrough⟩ := hsound.threads k request _ hthread
      exact (stable_exchanged _ k).rely v _ hrely (hthrough token hrequest (Option.some_ne_none _))
    · cases hgot
  obtain ⟨s, hs, hhash, hmem⟩ := hgot i hi
  obtain ⟨s', hs', hhash', hmem'⟩ := hgot j hj
  have hsame : s = s' :=
    List.inj_on_of_nodup_map hsound.inv.keys.hashes hs hs' (hhash.trans hhash'.symm)
  subst hsame
  exact hsound.inv.once s.guid i j hmem hmem'

/-! ## A token exchanged twice -/

/-- The deployment after the user's sign-in. -/
def signedIn : World :=
  { newAccount with db := { newAccount.db with userSessions := [firstSession] }, calls := 4 }

def presentTwice : List (Move AuthRequest) :=
  [.start (.refresh (refreshTokenAt Node.counting 2)), .start (.refresh (refreshTokenAt Node.counting 2))]

def firstPool : Pool AuthRequest Event Fault World (Option Tokens) := ⟨⟨signedIn, []⟩, []⟩

/-- **A token is exchanged twice**: both requests read the session before either revokes it. -/
theorem exchanged_twice :
    let p := firstPool.run (AuthRequest.program Node.counting Crypto.sample AuthRuntime.sample twoWeeks)
      (presentTwice ++ [.advance 0, .advance 1] ++ List.replicate 6 (.advance 0) ++
        List.replicate 6 (.advance 1))
    p.threads[0]?.any (GotTokens (refreshTokenAt Node.counting 2)) ∧
      p.threads[1]?.any (GotTokens (refreshTokenAt Node.counting 2)) := by
  decide +kernel

/-- One after the other, only the first gets new tokens. -/
theorem exchanged_once_inTurn :
    ¬ (firstPool.run (AuthRequest.program Node.counting Crypto.sample AuthRuntime.sample twoWeeks)
      (presentTwice ++ List.replicate 7 (.advance 0) ++ List.replicate 7 (.advance 1))).threads[1]?.any
      (GotTokens (refreshTokenAt Node.counting 2)) := by
  intro h
  have hkeys : SessionKeys signedIn :=
    ⟨List.nodup_singleton _, by decide +kernel, List.nodup_singleton firstSession.refreshTokenHash⟩
  have honce := @exchanged_once Node.counting Crypto.sample AuthRuntime.sample twoWeeks signedIn hkeys
    (presentTwice ++ List.replicate 7 (.advance 0) ++ List.replicate 7 (.advance 1))
    (by decide +kernel) (refreshTokenAt Node.counting 2) 0 1
  cases honce (by decide +kernel) h

end RefreshTokens
end SimpleStorage
