import Mathlib.Data.List.Nodup
import SimpleStorage.Users.UsersService

/-!
# Refresh tokens and their history

A refresh token is good for as long as nothing has ended it: until it is exchanged, logged
out, or its user's password is set, and until it expires; and it is not taken while its user
is disabled, nor once they are deleted.  The service keeps no history.  It keeps rows, and
five methods change them or what they refer to, each in its own way.

`Held` is the history's side: the token was handed out by an earlier request, and no request
after it ended it.  `Linked` ties the rows to it: the rows that are not revoked are the
sessions of the tokens that are held.  Each request keeps it (`Linked.turn`), so a run does
(`linked`), and `refresh_accepted_iff` reads off when a token is taken.

The hash of a token stands for the token as long as no two of a run have the same one, and
the random generator does not repeat itself.  `ToldApart` says both.
-/

namespace SimpleStorage
namespace RefreshTokens

open AuthService AuthTypes Program

/-- The requests that have to do with sessions. -/
inductive AuthRequest where
  | login (email password : Text) (userAgent : Option Text)
  | refresh (refreshToken : Text)
  | logout (refreshToken : Text)
  | setPassword (guid : UserGuid) (password : Text) (currentPassword : Option Text)
      (actorGuid : UserGuid)
  | setStatus (guid : UserGuid) (status : UserStatus)
  | delete (guid : UserGuid)
  deriving DecidableEq, Repr

variable (N : Node) (C : Crypto) (A : AuthRuntime) (config : AuthConfig)

def AuthRequest.program : AuthRequest → Service (Option Tokens)
  | .login email password userAgent => do
      let tokens ← AuthService.login N C A config email password userAgent
      return some tokens
  | .refresh refreshToken => do
      let tokens ← AuthService.refresh N C A config refreshToken
      return some tokens
  | .logout refreshToken => do
      AuthService.logout N C refreshToken
      return none
  | .setPassword guid password currentPassword actorGuid => do
      UsersService.setPassword N A guid password currentPassword actorGuid
      return none
  | .setStatus guid status => do
      UsersService.setStatus guid status
      return none
  | .delete guid => do
      UsersService.delete N guid
      return none

/-- The tokens a request comes with. -/
def AuthRequest.presents : AuthRequest → Option Text
  | .refresh token | .logout token => some token
  | _ => none

/-! ## History -/

/-- A request that ran, with what it came to and the state it left. -/
structure Turn where
  request : AuthRequest
  outcome : Except Fault (Option Tokens)
  after : World

/-- What becomes of a request. -/
def turnOf (w : World) (request : AuthRequest) : Turn where
  request
  outcome := outcome (request.program N C A config) w
  after := stateAfter (request.program N C A config) w

/-- **The history of a run**, the earliest request first. -/
def turns : List AuthRequest → World → List Turn
  | [], _ => []
  | request :: requests, w =>
      turnOf N C A config w request ::
        turns requests (stateAfter (request.program N C A config) w)

namespace Turn

variable (turn : Turn)

/-- The request handed out a token. -/
def Returned (token : Text) : Prop := ∃ tokens, turn.outcome = .ok (some tokens) ∧ tokens.refreshToken = token

/-- … with a session, as it was when it was opened. -/
def Issued (token : Text) (session : UserSessionRow) : Prop :=
  turn.Returned token ∧ session ∈ turn.after.db.userSessions ∧
    session.refreshTokenHash = hashRefreshToken C token ∧ session.revokedAt = none

/-- **The request ended a user's token**: it exchanged it, logged it out, or set the user's password. -/
def Ended (token : Text) (userGuid : UserGuid) : Prop :=
  (∃ answer, turn.outcome = .ok answer) ∧
    match turn.request with
    | .refresh token' | .logout token' => token' = token
    | .setPassword guid _ _ _ => guid = userGuid
    | _ => False

end Turn

/-- **The token was handed out, and nothing has ended it since.** -/
def Held (log : List Turn) (token : Text) (session : UserSessionRow) : Prop :=
  ∃ earlier turn later, log = earlier ++ turn :: later ∧ turn.Issued C token session ∧
    ∀ t ∈ later, ¬ t.Ended token session.userGuid

/-- **A token is good**: it is held and not past its expiry, and its user is active and not deleted. -/
def Good (log : List Turn) (w : World) (token : Text) : Prop :=
  ∃ session, Held C log token session ∧ N.now w.calls ≤ session.expiresAt ∧
    ∃ u ∈ w.db.users, u.guid = session.userGuid ∧ u.status = .active ∧ u.deletedAt = none

/-- **Tokens are told apart** by their hashes, and the random generator does not repeat itself: for the
tokens of the first `n` calls and those presented. -/
structure ToldApart (n : ℕ) (presented : List Text) : Prop where
  distinct : ∀ s < n, ∀ t < n, N.randomBytes s 48 = N.randomBytes t 48 → s = t
  hash : ∀ s < n, ∀ token, (token ∈ presented ∨ ∃ t < n, token = refreshTokenAt N t) →
    hashRefreshToken C token = hashRefreshToken C (refreshTokenAt N s) → token = refreshTokenAt N s

variable {N C A config}

theorem ToldApart.mono {m n : ℕ} {presented presented' : List Text} (h : ToldApart N C n presented)
    (hmn : m ≤ n) (hpresented : presented' ⊆ presented) : ToldApart N C m presented' where
  distinct := fun s hs t ht => h.distinct s (by omega) t (by omega)
  hash := fun s hs token htoken => h.hash s (by omega) token <| htoken.imp (fun ht => hpresented ht)
    fun ⟨t, ht, heq⟩ => ⟨t, by omega, heq⟩

/-- The hashes of two calls' tokens differ. -/
theorem ToldApart.call_eq {n : ℕ} {presented : List Text} (h : ToldApart N C n presented) {s t : ℕ}
    (hs : s < n) (ht : t < n)
    (heq : hashRefreshToken C (refreshTokenAt N s) = hashRefreshToken C (refreshTokenAt N t)) :
    s = t := by
  have htoken := h.hash t ht _ (.inr ⟨s, hs, rfl⟩) heq
  refine h.distinct s hs t ht ?_
  have hdecoded := congrArg Codec.unbase64 htoken
  unfold refreshTokenAt at hdecoded
  rwa [Codec.unbase64_encode Codec.base64url_readable,
    Codec.unbase64_encode Codec.base64url_readable] at hdecoded

theorem turns_append (requests : List AuthRequest) (request : AuthRequest) (w : World) :
    turns N C A config (requests ++ [request]) w =
      turns N C A config requests w ++
        [turnOf N C A config (runAll (AuthRequest.program N C A config) requests w) request] := by
  induction requests generalizing w with
  | nil => rfl
  | cons r requests ih =>
    rw [List.cons_append, turns, turns, ih, runAll_cons, List.cons_append]

/-- **One more request**: it hands the token out, or leaves it held. -/
theorem held_concat {log : List Turn} {turn : Turn} {token : Text} {session : UserSessionRow} :
    Held C (log ++ [turn]) token session ↔
      turn.Issued C token session ∨ Held C log token session ∧ ¬ turn.Ended token session.userGuid := by
  constructor
  · rintro ⟨earlier, t, later, hlog, hissued, hlater⟩
    rcases List.eq_nil_or_concat later with rfl | ⟨later, u, rfl⟩
    · obtain ⟨-, hturn⟩ := List.append_inj' hlog rfl
      rw [List.singleton_inj] at hturn
      exact .inl (hturn ▸ hissued)
    · rw [List.concat_eq_append, ← List.cons_append, ← List.append_assoc] at hlog
      obtain ⟨hlog, hturn⟩ := List.append_inj' hlog rfl
      rw [List.singleton_inj] at hturn
      rw [List.concat_eq_append] at hlater
      exact .inr ⟨⟨earlier, t, later, hlog, hissued, fun v hv => hlater v (List.mem_append_left _ hv)⟩,
        hturn ▸ hlater u (List.mem_append_right _ List.mem_cons_self)⟩
  · rintro (hissued | ⟨⟨earlier, t, later, rfl, hissued, hlater⟩, hended⟩)
    · exact ⟨log, turn, [], rfl, hissued, by simp⟩
    · refine ⟨earlier, t, later ++ [turn], by rw [List.append_assoc, List.cons_append], hissued, ?_⟩
      intro u hu
      rcases List.mem_append.mp hu with hu | hu
      · exact hlater u hu
      · rw [List.mem_singleton] at hu
        exact hu ▸ hended

/-! ## The rows and the history -/

/-- **What ties the rows to the history**: the rows that are not revoked are the sessions of the tokens
that are held. -/
structure Linked (N : Node) (C : Crypto) (log : List Turn) (w : World) : Prop where
  users : (w.db.users.map (·.guid)).Nodup
  guids : (w.db.userSessions.map (·.guid)).Nodup
  guid_lt : ∀ s ∈ w.db.userSessions, s.guid < w.calls
  hashes : (w.db.userSessions.map (·.refreshTokenHash)).Nodup
  generated : ∀ s ∈ w.db.userSessions, ∃ call < w.calls,
    s.refreshTokenHash = hashRefreshToken C (refreshTokenAt N call)
  returned : ∀ turn ∈ log, ∀ token, turn.Returned token → ∃ call < w.calls, token = refreshTokenAt N call
  held : ∀ session, session ∈ w.db.userSessions ∧ session.revokedAt = none ↔
    ∃ token, Held C log token session

namespace Held

variable {log : List Turn} {token : Text} {session : UserSessionRow}

theorem returned (h : Held C log token session) : ∃ turn ∈ log, turn.Returned token := by
  obtain ⟨earlier, turn, later, rfl, hissued, -⟩ := h
  exact ⟨turn, List.mem_append_right _ List.mem_cons_self, hissued.1⟩

theorem hash (h : Held C log token session) :
    session.refreshTokenHash = hashRefreshToken C token := by
  obtain ⟨_, _, _, _, hissued, _⟩ := h
  exact hissued.2.2.1

end Held

namespace Linked

variable {log : List Turn} {w : World} (h : Linked N C log w)
include h

/-- A held token is the only one of its hash. -/
theorem token_eq {n : ℕ} {presented : List Text} (hapart : ToldApart N C n presented)
    (hn : w.calls ≤ n) {token token' : Text} {session : UserSessionRow}
    (hheld : Held C log token session) (htoken' : token' ∈ presented) :
    session.refreshTokenHash = hashRefreshToken C token' ↔ token' = token := by
  obtain ⟨turn, hturn, hreturned⟩ := hheld.returned
  obtain ⟨call, hcall, rfl⟩ := h.returned turn hturn token hreturned
  rw [hheld.hash]
  constructor
  · exact fun heq => hapart.hash call (by omega) token' (.inl htoken') heq.symm
  · rintro rfl
    rfl

/-- **One request**: it ends some sessions and opens `new` ones. -/
theorem step {turn : Turn} {p : UserSessionRow → Bool} {time : Timestamp} {new : List UserSessionRow}
    (hsessions : turn.after.db.userSessions = (setRevokedAt p time w.db).userSessions ++ new)
    (husers : turn.after.db.users.map (·.guid) = w.db.users.map (·.guid))
    (hcalls : w.calls ≤ turn.after.calls) (hnodup : (new.map (·.guid)).Nodup)
    (hnodup' : (new.map (·.refreshTokenHash)).Nodup)
    (hguid : ∀ s ∈ new, w.calls ≤ s.guid ∧ s.guid < turn.after.calls)
    (hhash : ∀ s ∈ w.db.userSessions, ∀ s' ∈ new, s.refreshTokenHash ≠ s'.refreshTokenHash)
    (hgenerated : ∀ s ∈ new, ∃ call < turn.after.calls,
      s.refreshTokenHash = hashRefreshToken C (refreshTokenAt N call))
    (hreturned : ∀ token, turn.Returned token → ∃ call < turn.after.calls, token = refreshTokenAt N call)
    (hissued : ∀ s, (s ∈ new ∧ s.revokedAt = none) ↔ ∃ token, turn.Issued C token s)
    (hended : ∀ s token, Held C log token s → (p s = true ↔ turn.Ended token s.userGuid)) :
    Linked N C (log ++ [turn]) turn.after := by
  have hguids := map_setRevokedAt (·.guid) (fun _ _ => rfl) p time w.db
  have hhashes := map_setRevokedAt (·.refreshTokenHash) (fun _ _ => rfl) p time w.db
  have hold : ∀ s ∈ (setRevokedAt p time w.db).userSessions, ∃ s' ∈ w.db.userSessions,
      s'.guid = s.guid ∧ s'.refreshTokenHash = s.refreshTokenHash := by
    intro s hs
    obtain ⟨s', hs', rfl⟩ := List.mem_map.mp hs
    refine ⟨s', hs', ?_⟩
    split_ifs <;> exact ⟨rfl, rfl⟩
  constructor
  · rw [husers]
    exact h.users
  · rw [hsessions, List.map_append, hguids, List.nodup_append]
    refine ⟨h.guids, hnodup, ?_⟩
    intro a ha b hb
    obtain ⟨s, hs, rfl⟩ := List.mem_map.mp ha
    obtain ⟨s', hs', rfl⟩ := List.mem_map.mp hb
    exact ((h.guid_lt s hs).trans_le (hguid s' hs').1).ne
  · intro s hs
    rw [hsessions] at hs
    rcases List.mem_append.mp hs with hs | hs
    · obtain ⟨s', hs', hsame, -⟩ := hold s hs
      rw [← hsame]
      exact (h.guid_lt s' hs').trans_le hcalls
    · exact (hguid s hs).2
  · rw [hsessions, List.map_append, hhashes, List.nodup_append]
    refine ⟨h.hashes, hnodup', ?_⟩
    intro a ha b hb
    obtain ⟨s, hs, rfl⟩ := List.mem_map.mp ha
    obtain ⟨s', hs', rfl⟩ := List.mem_map.mp hb
    exact hhash s hs s' hs'
  · intro s hs
    rw [hsessions] at hs
    rcases List.mem_append.mp hs with hs | hs
    · obtain ⟨s', hs', -, hsame⟩ := hold s hs
      obtain ⟨call, hcall, heq⟩ := h.generated s' hs'
      exact ⟨call, hcall.trans_le hcalls, hsame ▸ heq⟩
    · exact hgenerated s hs
  · intro t ht token hreturn
    rcases List.mem_append.mp ht with ht | ht
    · obtain ⟨call, hcall, heq⟩ := h.returned t ht token hreturn
      exact ⟨call, hcall.trans_le hcalls, heq⟩
    · rw [List.mem_singleton] at ht
      exact hreturned token (ht ▸ hreturn)
  · intro s
    simp only [held_concat, exists_or]
    rw [hsessions, List.mem_append, or_and_right, hissued, mem_setRevokedAt, or_comm]
    refine or_congr_right ⟨?_, ?_⟩
    · rintro ⟨hs, hnone, hp⟩
      obtain ⟨token, hheld⟩ := (h.held s).mp ⟨hs, hnone⟩
      refine ⟨token, hheld, fun hend => ?_⟩
      rw [(hended s token hheld).mpr hend] at hp
      cases hp
    · rintro ⟨token, hheld, hend⟩
      obtain ⟨hs, hnone⟩ := (h.held s).mpr ⟨token, hheld⟩
      exact ⟨hs, hnone, Bool.eq_false_iff.mpr fun hp => hend ((hended s token hheld).mp hp)⟩

/-- A request that hands out nothing. -/
theorem ends {turn : Turn} {p : UserSessionRow → Bool} (hreturned : ∀ token, ¬ turn.Returned token)
    (hends : Ends p w turn.after)
    (hended : ∀ s token, Held C log token s → (p s = true ↔ turn.Ended token s.userGuid)) :
    Linked N C (log ++ [turn]) turn.after := by
  obtain ⟨time, hsessions⟩ := hends.sessions
  refine h.step (hsessions.trans (List.append_nil _).symm) hends.users hends.calls .nil .nil nofun
    (fun _ _ => nofun) nofun (fun token hr => absurd hr (hreturned token)) (fun s => ?_) hended
  exact ⟨nofun, fun ⟨token, hissued⟩ => absurd hissued.1 (hreturned token)⟩

/-- … and ends nothing either. -/
theorem same {turn : Turn} (hreturned : ∀ token, ¬ turn.Returned token)
    (hsame : SameSessions w turn.after)
    (hended : ∀ token userGuid, ¬ turn.Ended token userGuid) : Linked N C (log ++ [turn]) turn.after := by
  refine h.ends hreturned ⟨⟨0, ?_⟩, hsame.users, hsame.calls⟩ fun s token _ =>
    iff_of_false Bool.false_ne_true (hended token s.userGuid)
  rw [hsame.sessions]
  unfold setRevokedAt
  simp only [Bool.false_eq_true, if_false, List.map_id']

/-- **A request that hands out a token**, and may end some sessions first. -/
theorem opens {turn : Turn} {tokens : Tokens} {p : UserSessionRow → Bool} {time : Timestamp}
    {userGuid : UserGuid} {call : ℕ} {row : UserSessionRow} (houtcome : turn.outcome = .ok (some tokens))
    (hopens : Opens N C config userGuid (setRevokedAt p time w.db).userSessions tokens w turn.after
      call row)
    (hended : ∀ s token, Held C log token s → (p s = true ↔ turn.Ended token s.userGuid)) :
    Linked N C (log ++ [turn]) turn.after := by
  have hcalls : w.calls ≤ turn.after.calls :=
    hopens.call_ge.trans (hopens.call_lt.le.trans hopens.guid_lt.le)
  have hreturned : ∀ token, turn.Returned token ↔ token = tokens.refreshToken := by
    intro token
    unfold Turn.Returned
    rw [houtcome]
    constructor
    · rintro ⟨_, ⟨⟩, rfl⟩
      rfl
    · rintro rfl
      exact ⟨tokens, rfl, rfl⟩
  have hrow : row.refreshTokenHash = hashRefreshToken C (refreshTokenAt N call) := by
    rw [hopens.refreshTokenHash, hopens.refreshToken]
  have hcall : call < turn.after.calls := hopens.call_lt.trans hopens.guid_lt
  refine h.step hopens.sessions hopens.users hcalls (List.nodup_singleton _) (List.nodup_singleton _)
    ?_ ?_ ?_ (fun token hr => ⟨call, hcall, ((hreturned token).mp hr).trans hopens.refreshToken⟩) ?_
    hended
  · intro s hs
    rw [List.mem_singleton.mp hs]
    exact ⟨hopens.call_ge.trans hopens.call_lt.le, hopens.guid_lt⟩
  · intro s hs s' hs'
    rw [List.mem_singleton.mp hs']
    obtain ⟨s₁, hs₁, heq⟩ := List.mem_map.mp
      (map_setRevokedAt (·.refreshTokenHash) (fun _ _ => rfl) p time w.db ▸ List.mem_map_of_mem hs)
    exact heq ▸ hopens.unique s₁ hs₁
  · intro s hs
    rw [List.mem_singleton.mp hs]
    exact ⟨call, hcall, hrow⟩
  · intro s
    constructor
    · rintro ⟨hs, hnone⟩
      obtain rfl := List.mem_singleton.mp hs
      refine ⟨tokens.refreshToken, (hreturned _).mpr rfl, ?_, hopens.refreshTokenHash, hnone⟩
      rw [hopens.sessions]
      exact List.mem_append_right _ hs
    · rintro ⟨token, hreturn, hs, hhash, hnone⟩
      refine ⟨?_, hnone⟩
      rw [hopens.sessions] at hs
      refine (List.mem_append.mp hs).resolve_left fun hs => hopens.unique s hs ?_
      rw [hhash, (hreturned token).mp hreturn, hopens.refreshTokenHash]

end Linked

/-! ## What each request keeps -/

/-- The clock and the generator are only asked more often. -/
theorem calls_le_turnOf (request : AuthRequest) (w : World) :
    w.calls ≤ (turnOf N C A config w request).after.calls := by
  have hopens : ∀ {userGuid rows tokens w' call row}, Opens N C config userGuid rows tokens w w' call row →
      w.calls ≤ w'.calls := fun h => h.call_ge.trans (h.call_lt.le.trans h.guid_lt.le)
  show w.calls ≤ (stateAfter (request.program N C A config) w).calls
  refine stateAfter_of_wp (p := fun w' : World => w.calls ≤ w'.calls) ?_
  cases request with
  | login email password userAgent =>
    refine wp_bind.mpr (wp_mono (login_spec email password userAgent w) ?_ fun _ _ h => h.calls)
    rintro _ _ ⟨_, _, _, -, h⟩
    exact hopens h
  | refresh token =>
    refine wp_bind.mpr (wp_mono (refresh_spec token w) ?_ ?_)
    · rintro _ _ ⟨_, _, _, _, -, h⟩
      exact hopens h
    · rintro _ _ (⟨-, hcalls, -⟩ | ⟨_, hge, hlt, -⟩)
      · exact hcalls
      · exact hge.trans hlt.le
  | logout token =>
    exact wp_bind.mpr (wp_mono (logout_spec token w) (fun _ _ h => h.calls) fun _ _ h => h.elim)
  | setPassword guid password currentPassword actorGuid =>
    exact wp_bind.mpr (wp_mono (UsersService.setPassword_spec guid password currentPassword actorGuid w)
      (fun _ _ h => h.calls) fun _ _ h => h.calls)
  | setStatus guid status =>
    exact wp_bind.mpr (wp_mono (UsersService.setStatus_spec guid status w) (fun _ _ h => h.calls)
      fun _ _ h => h.calls)
  | delete guid =>
    exact wp_bind.mpr (wp_mono (UsersService.delete_spec guid w) (fun _ _ h => h.calls)
      fun _ _ h => h.calls)

/-- A request that failed handed out nothing and ended nothing. -/
theorem not_returned_of_error {turn : Turn} {e : Fault} (h : turn.outcome = .error e) (token : Text) :
    ¬ turn.Returned token := by
  rintro ⟨_, h', -⟩
  rw [h] at h'
  cases h'

theorem not_ended_of_error {turn : Turn} {e : Fault} (h : turn.outcome = .error e) (token : Text)
    (userGuid : UserGuid) : ¬ turn.Ended token userGuid := by
  rintro ⟨⟨_, h'⟩, -⟩
  rw [h] at h'
  cases h'

theorem not_returned_of_none {turn : Turn} (h : turn.outcome = .ok none) (token : Text) :
    ¬ turn.Returned token := by
  rintro ⟨_, h', -⟩
  rw [h] at h'
  cases h'

section Turns

variable {log : List Turn} {w : World} {n : ℕ} {presented : List Text} (h : Linked N C log w)
  (hapart : ToldApart N C n presented)
include h hapart

/-- The hash of a new token is not taken. -/
theorem Linked.not_collides {w' : World} (hn : w'.calls ≤ n) : ¬ Collides N C w w' := by
  rintro ⟨call, hge, hlt, s, hs, hhash⟩
  obtain ⟨call', hcall', heq⟩ := h.generated s hs
  have := hapart.call_eq (by omega) (by omega) (heq.symm.trans hhash)
  omega

/-- **What becomes of a refresh**: it ends the session the token is accepted for and opens another, or
does nothing at all. -/
theorem Linked.refresh {token : Text} (hn : (turnOf N C A config w (.refresh token)).after.calls ≤ n) :
    let turn := turnOf N C A config w (.refresh token)
    (∃ tokens session time call row, turn.outcome = .ok (some tokens) ∧
      Accepts N C w token session ∧
      Opens N C config session.userGuid (setRevokedAt (·.guid = session.guid) time w.db).userSessions
        tokens w turn.after call row) ∨
    (∃ e, turn.outcome = .error e) ∧ turn.after.db = w.db ∧ ∀ session, ¬ Accepts N C w token session := by
  rcases outcome_of_wp (wp_bind_pure (refresh_spec token w) some) with ⟨_, houtcome, tokens, rfl, session, time, call, row, haccepts, hopens⟩ |
    ⟨e, houtcome, hrefused | hcollides⟩
  · exact .inl ⟨tokens, session, time, call, row, houtcome, haccepts, hopens⟩
  · exact .inr ⟨⟨e, houtcome⟩, hrefused.1, hrefused.2.2⟩
  · exact absurd hcollides (h.not_collides hapart hn)

/-- **Each request keeps the rows tied to the history.** -/
theorem Linked.turn (request : AuthRequest)
    (hn : (turnOf N C A config w request).after.calls ≤ n)
    (hpresents : ∀ token ∈ request.presents, token ∈ presented) :
    Linked N C (log ++ [turnOf N C A config w request]) (turnOf N C A config w request).after := by
  have hcalls : w.calls ≤ n := (calls_le_turnOf request w).trans hn
  cases request with
  | login email password userAgent =>
    rcases outcome_of_wp (wp_bind_pure (login_spec email password userAgent w) some) with
      ⟨_, houtcome, tokens, rfl, user, call, row, -, hopens⟩ | ⟨e, houtcome, hsame⟩
    · have hnone : (setRevokedAt (fun _ => false) 0 w.db).userSessions = w.db.userSessions := by
        unfold setRevokedAt
        simp only [Bool.false_eq_true, if_false, List.map_id']
      rw [← hnone] at hopens
      exact h.opens houtcome hopens fun _ _ _ => iff_of_false Bool.false_ne_true And.right
    · exact h.same (not_returned_of_error houtcome) hsame (not_ended_of_error houtcome)
  | refresh token =>
    rcases h.refresh hapart hn with ⟨tokens, session, time, call, row, houtcome, haccepts, hopens⟩ |
      ⟨⟨e, houtcome⟩, hdb, -⟩
    · refine h.opens houtcome hopens fun s token' hheld => ?_
      obtain ⟨hsession, hhash, -⟩ := findSession_eq_some haccepts.found
      have hs := ((h.held s).mpr ⟨token', hheld⟩).1
      have hended : (turnOf N C A config w (.refresh token)).Ended token' s.userGuid ↔ token = token' :=
        and_iff_right ⟨_, houtcome⟩
      rw [hended, ← h.token_eq hapart hcalls hheld (hpresents token rfl), ← hhash, decide_eq_true_iff]
      constructor
      · exact fun hguid => congrArg _ (List.inj_on_of_nodup_map h.guids hs hsession hguid)
      · exact fun heq => congrArg _ (List.inj_on_of_nodup_map h.hashes hs hsession heq)
    · refine h.same (not_returned_of_error houtcome) ⟨?_, ?_, ?_⟩ (not_ended_of_error houtcome)
      · rw [hdb]
      · rw [hdb]
      · exact calls_le_turnOf _ w
  | logout token =>
    rcases outcome_of_wp (wp_bind_pure (logout_spec token w) fun _ => none) with
      ⟨_, houtcome, _, rfl, hends⟩ | ⟨_, _, hfalse⟩
    · refine h.ends (not_returned_of_none houtcome) hends fun s token' hheld => ?_
      have hended : (turnOf N C A config w (.logout token)).Ended token' s.userGuid ↔ token = token' :=
        and_iff_right ⟨_, houtcome⟩
      rw [hended, decide_eq_true_iff, h.token_eq hapart hcalls hheld (hpresents token rfl)]
    · exact hfalse.elim
  | setPassword guid password currentPassword actorGuid =>
    rcases outcome_of_wp (wp_bind_pure
      (UsersService.setPassword_spec guid password currentPassword actorGuid w) fun _ => none) with
      ⟨_, houtcome, _, rfl, hends⟩ | ⟨e, houtcome, hsame⟩
    · refine h.ends (not_returned_of_none houtcome) hends fun s token hheld => ?_
      have hended : (turnOf N C A config w (.setPassword guid password currentPassword actorGuid)).Ended
          token s.userGuid ↔ guid = s.userGuid := and_iff_right ⟨_, houtcome⟩
      have hnone := ((h.held s).mpr ⟨token, hheld⟩).2
      rw [hended, Bool.and_eq_true, decide_eq_true_iff, hnone, eq_comm]
      exact and_iff_left rfl
    · exact h.same (not_returned_of_error houtcome) hsame (not_ended_of_error houtcome)
  | setStatus guid status =>
    rcases outcome_of_wp (wp_bind_pure (UsersService.setStatus_spec guid status w) fun _ => none) with
      ⟨_, houtcome, _, rfl, hsame⟩ | ⟨e, houtcome, hsame⟩
    · exact h.same (not_returned_of_none houtcome) hsame fun _ _ hended => hended.2
    · exact h.same (not_returned_of_error houtcome) hsame (not_ended_of_error houtcome)
  | delete guid =>
    rcases outcome_of_wp (wp_bind_pure (UsersService.delete_spec guid w) fun _ => none) with
      ⟨_, houtcome, _, rfl, hsame⟩ | ⟨e, houtcome, hsame⟩
    · exact h.same (not_returned_of_none houtcome) hsame fun _ _ hended => hended.2
    · exact h.same (not_returned_of_error houtcome) hsame (not_ended_of_error houtcome)

end Turns

/-! ## A whole run -/

section Run

variable (N C A config) in
/-- The state after some requests. -/
abbrev after (requests : List AuthRequest) (w : World) : World :=
  runAll (AuthRequest.program N C A config) requests w

/-- The tokens that come with the requests of a run. -/
def presented (requests : List AuthRequest) : List Text := requests.filterMap AuthRequest.presents

theorem after_append (requests : List AuthRequest) (request : AuthRequest) (w : World) :
    after N C A config (requests ++ [request]) w =
      (turnOf N C A config (after N C A config requests w) request).after :=
  runAll_append _ requests [request] w

variable {w : World} (hsessions : w.db.userSessions = [])
  (husers : (w.db.users.map (·.guid)).Nodup)
include hsessions husers

theorem linked_nil : Linked N C [] w where
  users := husers
  guids := by rw [hsessions]; exact .nil
  guid_lt := by rw [hsessions]; nofun
  hashes := by rw [hsessions]; exact .nil
  generated := by rw [hsessions]; nofun
  returned := by simp
  held := by
    intro session
    rw [hsessions]
    refine ⟨nofun, ?_⟩
    rintro ⟨token, earlier, turn, later, hlog, -⟩
    exact absurd hlog.symm (List.append_ne_nil_of_right_ne_nil _ (List.cons_ne_nil _ _))

/-- **Every run keeps the rows tied to its history.** -/
theorem linked (requests : List AuthRequest)
    (hapart : ToldApart N C (after N C A config requests w).calls (presented requests)) :
    Linked N C (turns N C A config requests w) (after N C A config requests w) := by
  induction requests using List.reverseRecOn with
  | nil => exact linked_nil hsessions husers
  | append_singleton requests request ih =>
    rw [after_append] at hapart ⊢
    rw [turns_append]
    unfold presented at hapart
    rw [List.filterMap_append] at hapart
    have hcalls : (after N C A config requests w).calls ≤
        (turnOf N C A config (after N C A config requests w) request).after.calls :=
      calls_le_turnOf request _
    have hlinked := ih (hapart.mono hcalls (List.subset_append_left _ _))
    refine hlinked.turn hapart request le_rfl fun token htoken => List.mem_append_right _ ?_
    exact List.mem_filterMap.mpr ⟨request, List.mem_singleton_self request, htoken⟩

/-- **When a refresh token is taken.**  After any requests, a token is exchanged exactly if one of
them handed it out and none has exchanged it, logged it out or set its user's password since, it
has not expired, and its user is active and not deleted.  A refusal changes no session.  A success
hands out a token no earlier request did, which is held from then on. -/
theorem refresh_accepted_iff (requests : List AuthRequest) (token : Text)
    (hapart : ToldApart N C (after N C A config (requests ++ [.refresh token]) w).calls
      (presented (requests ++ [.refresh token]))) :
    let log := turns N C A config requests w
    let turn := turnOf N C A config (after N C A config requests w) (.refresh token)
    ((∃ answer, turn.outcome = .ok answer) ↔ Good N C log (after N C A config requests w) token) ∧
    ((∀ answer, turn.outcome ≠ .ok answer) →
      turn.after.db.userSessions = (after N C A config requests w).db.userSessions) ∧
    ∀ answer, turn.outcome = .ok answer → ∃ new session, turn.Returned new ∧
      (∀ t ∈ log, ¬ t.Returned new) ∧ Held C (log ++ [turn]) new session ∧
      (∃ old, Held C log token old ∧ session.userGuid = old.userGuid) ∧
      session.expiresAt = N.now session.guid + config.refreshTtl * 1000 := by
  intro log turn
  rw [after_append] at hapart
  have hcalls : (after N C A config requests w).calls ≤ turn.after.calls := calls_le_turnOf _ _
  have hsub : presented requests ⊆ presented (requests ++ [.refresh token]) := by
    unfold presented
    rw [List.filterMap_append]
    exact List.subset_append_left _ _
  have hpresented : token ∈ presented (requests ++ [.refresh token]) :=
    List.mem_filterMap.mpr ⟨.refresh token, List.mem_append_right _ List.mem_cons_self, rfl⟩
  have hlinked : Linked N C log (after N C A config requests w) :=
    linked hsessions husers requests (hapart.mono hcalls hsub)
  -- the session a token is accepted for is that of a token that is held, and of no other token
  have haccepts : ∀ session, findSession (hashRefreshToken C token)
      (after N C A config requests w).db = some session ↔ Held C log token session := by
    intro session
    constructor
    · intro hfound
      obtain ⟨hs, hhash, hnone⟩ := findSession_eq_some hfound
      obtain ⟨token', hheld⟩ := (hlinked.held session).mp ⟨hs, hnone⟩
      rwa [(hlinked.token_eq hapart hcalls hheld hpresented).mp hhash]
    · intro hheld
      obtain ⟨hs, hnone⟩ := (hlinked.held session).mpr ⟨token, hheld⟩
      exact findSession_of_mem hlinked.hashes hs hheld.hash hnone
  have hgood : (∃ session, Accepts N C (after N C A config requests w) token session) ↔
      Good N C log (after N C A config requests w) token := by
    refine exists_congr fun session => ?_
    rw [accepts_iff hlinked.users, haccepts]
  rcases hlinked.refresh hapart le_rfl with
    ⟨tokens, session, time, call, row, houtcome, haccept, hopens⟩ | ⟨⟨e, houtcome⟩, hdb, hnone⟩
  · refine ⟨iff_of_true ⟨_, houtcome⟩ (hgood.mp ⟨session, haccept⟩), fun h => absurd houtcome (h _), ?_⟩
    intro _ _
    have hreturned : turn.Returned tokens.refreshToken := ⟨tokens, houtcome, rfl⟩
    refine ⟨tokens.refreshToken, row, hreturned, fun t ht hold => ?_, held_concat.mpr (.inl ?_),
      ⟨session, (haccepts session).mp haccept.found, hopens.user⟩, hopens.expiresAt⟩
    · obtain ⟨call', hcall', heq⟩ := hlinked.returned t ht _ hold
      rw [hopens.refreshToken] at heq
      have := hapart.call_eq (hopens.call_lt.trans hopens.guid_lt) (hcall'.trans_le hcalls)
        (congrArg _ heq)
      have := hopens.call_ge
      omega
    · refine ⟨hreturned, ?_, hopens.refreshTokenHash, hopens.revokedAt⟩
      rw [hopens.sessions]
      exact List.mem_append_right _ List.mem_cons_self
  · have hfailed : ¬ ∃ answer, turn.outcome = .ok answer := by
      rintro ⟨answer, h⟩
      rw [houtcome] at h
      cases h
    refine ⟨iff_of_false hfailed fun h => ?_, fun _ => congrArg _ hdb, fun answer h => absurd ⟨answer, h⟩ hfailed⟩
    obtain ⟨session, hsession⟩ := hgood.mpr h
    exact hnone session hsession

end Run

/-! ## A token taken -/

/-- A deployment with one user, whose password is `pw`. -/
def newAccount : World where
  db := { users := [{
    guid := "user-1".toList
    email := "a@example.com".toList
    passwordHash := Codec.base64.encode [0] ++ '.' :: Codec.base64.encode (Text.bytes "pw".toList) }] }
  encryption := ⟨false, []⟩

def signIn : AuthRequest := .login "A@example.com".toList "pw".toList none

def twoWeeks : AuthConfig := ⟨"secret".toList, "storage".toList, 900, 1209600⟩

/-- The session that opens. -/
def firstSession : UserSessionRow where
  guid := 3
  userGuid := "user-1".toList
  refreshTokenHash := hashRefreshToken Crypto.sample (refreshTokenAt Node.counting 2)
  expiresAt := 3 + 1209600 * 1000

/-- The token of that user's first session is taken. -/
theorem refresh_accepted_iff_signIn :
    let turn := turnOf Node.counting Crypto.sample AuthRuntime.sample twoWeeks
      (after Node.counting Crypto.sample AuthRuntime.sample twoWeeks [signIn] newAccount)
      (.refresh (refreshTokenAt Node.counting 2))
    ∃ answer, turn.outcome = .ok answer := by
  have hcalls : (after Node.counting Crypto.sample AuthRuntime.sample twoWeeks
      ([signIn] ++ [.refresh (refreshTokenAt Node.counting 2)]) newAccount).calls = 9 := by decide +kernel
  have hhashes : ∀ s < 9, ∀ t < 9,
      hashRefreshToken Crypto.sample (refreshTokenAt Node.counting t) =
        hashRefreshToken Crypto.sample (refreshTokenAt Node.counting s) → t = s := by decide +kernel
  have hbytes : ∀ s < 9, ∀ t < 9,
      Node.counting.randomBytes s 48 = Node.counting.randomBytes t 48 → s = t := by decide +kernel
  have hpresented : presented ([signIn] ++ [.refresh (refreshTokenAt Node.counting 2)]) =
      [refreshTokenAt Node.counting 2] := rfl
  have hapart : ToldApart Node.counting Crypto.sample 9
      (presented ([signIn] ++ [.refresh (refreshTokenAt Node.counting 2)])) := by
    refine ⟨hbytes, fun s hs token htoken heq => ?_⟩
    have hcall : ∃ t < 9, token = refreshTokenAt Node.counting t := by
      rw [hpresented, List.mem_singleton] at htoken
      rcases htoken with htoken | htoken
      · exact ⟨2, by decide, htoken⟩
      · exact htoken
    obtain ⟨t, ht, rfl⟩ := hcall
    rw [hhashes s hs t ht heq]
  have husers : (newAccount.db.users.map (·.guid)).Nodup := List.nodup_singleton _
  rw [← hcalls] at hapart
  have hissued : (turnOf Node.counting Crypto.sample AuthRuntime.sample twoWeeks newAccount signIn).Issued
      Crypto.sample (refreshTokenAt Node.counting 2) firstSession := by
    refine ⟨⟨⟨"a@example.com".toList, refreshTokenAt Node.counting 2, 900⟩, ?_, rfl⟩, ?_, rfl, rfl⟩
    · decide +kernel
    · decide +kernel
  have hheld : Held Crypto.sample (turns Node.counting Crypto.sample AuthRuntime.sample twoWeeks [signIn]
      newAccount) (refreshTokenAt Node.counting 2) firstSession :=
    ⟨[], _, [], rfl, hissued, by simp⟩
  refine (refresh_accepted_iff rfl husers [signIn] _ hapart).1.mpr ⟨firstSession, hheld, ?_, ?_⟩
  · decide +kernel
  · decide +kernel

end RefreshTokens
end SimpleStorage
