import SimpleStorage.Users.AdminRaces

/-!
# The last admin

A request that demotes, disables or deletes an admin is refused where at most one admin could
still sign in.  The count says nothing about whether that one is the admin in question: where
it is another one, the refusal protects nobody.

* `change_spec`: what a request to change an account comes to.
* `countAdmins_applied`: what it does to the number of admins.
* `guard_exact_iff`: the guard refuses what it must, unless the account is that of an admin who is
  disabled already.
-/

namespace SimpleStorage
namespace UsersService

open AuthService Program

/-- A change of an account's role or status, or its deletion. -/
inductive AccountChange where
  | update (guid : UserGuid) (role : Option UserRole)
  | setStatus (guid : UserGuid) (status : UserStatus)
  | delete (guid : UserGuid)
  deriving DecidableEq, Repr

namespace AccountChange

def guid : AccountChange → UserGuid
  | update guid _ | setStatus guid _ | delete guid => guid

def request : AccountChange → UserRequest
  | update guid role => .update guid role
  | setStatus guid status => .setStatus guid status
  | delete guid => .delete guid

/-- How the request is refused. -/
def refusal : AccountChange → Fault
  | delete _ => .lastAdmin
  | _ => .lastAdminDemoted

/-- An admin who is changed so can no longer sign in as one. -/
def TakesAdmin : AccountChange → Prop
  | update _ role => role.isSome ∧ role ≠ some .admin
  | setStatus _ status => status = .disabled
  | delete _ => True

instance : DecidablePred TakesAdmin := fun change =>
  match change with
  | update _ role => inferInstanceAs (Decidable (role.isSome = true ∧ role ≠ some .admin))
  | setStatus _ status => inferInstanceAs (Decidable (status = .disabled))
  | delete _ => inferInstanceAs (Decidable True)

/-- The change of a row. -/
def row (time : Timestamp) : AccountChange → UserRow → UserRow
  | update _ role, u => { u with role := role.getD u.role }
  | setStatus _ status, u => { u with status }
  | delete _, u => { u with deletedAt := some time }

/-- The table with the change made. -/
def applied (time : Timestamp) (change : AccountChange) (db : Database) : Database :=
  updateUsers (fun u => u.guid = change.guid && u.deletedAt.isNone) (change.row time) db

end AccountChange

variable {N : Node} {A : AuthRuntime}

/-- Whether a row counts as an admin. -/
def countsAsAdmin (u : UserRow) : Bool := u.role = .admin && u.status = .active && u.deletedAt.isNone

/-- The code takes the account for the last admin's. -/
def Guarded (change : AccountChange) (user : UserRow) (db : Database) : Prop :=
  change.TakesAdmin ∧ user.role = .admin ∧ countAdmins db ≤ 1

theorem wp_get_found {α : Type} {guid : UserGuid} {w : World} {user : UserRow}
    (hfound : findUser guid w.db = some user) {f : UserRow → Service α} {post : α → World → Prop}
    {fail : Fault → World → Prop} (h : wp (f user) post fail w) : wp (get guid >>= f) post fail w := by
  rw [wp_bind, get, wp_bind, World.select, wp_query, hfound, wp_orThrow_some]
  exact h

/-- A guid has one row, deleted or not. -/
theorem updateUsers_guid {w : World} (hkeys : UserKeys w) {guid : UserGuid} {user : UserRow}
    (h : findUser guid w.db = some user) (f : UserRow → UserRow) :
    updateUsers (·.guid = guid) f w.db =
      updateUsers (fun u => u.guid = guid && u.deletedAt.isNone) f w.db := by
  obtain ⟨hmem, hguid, hlive⟩ := findUser_eq_some h
  rw [updateUsers, updateUsers]
  congr 1
  refine List.map_congr_left fun u hu => ?_
  by_cases hsame : u.guid = guid
  · obtain rfl : u = user := List.inj_on_of_nodup_map hkeys hu hmem (hsame.trans hguid.symm)
    simp [hsame, hlive]
  · simp [hsame]

/-- **What a request to change an account comes to.** -/
theorem change_spec {w : World} (hkeys : UserKeys w) {change : AccountChange} {user : UserRow}
    (h : findUser change.guid w.db = some user) :
    wp (change.request.program N A)
      (fun _ w' => ¬ Guarded change user w.db ∧ w'.db = change.applied (N.now w.calls) w.db)
      (fun e w' => Guarded change user w.db ∧ e = change.refusal ∧ w' = w) w := by
  cases change with
  | update guid role =>
    have hguard : ((role.isSome ∧ role ≠ some user.role ∧ user.role = .admin) ∧ countAdmins w.db ≤ 1) ↔
        Guarded (.update guid role) user w.db := by
      simp only [Guarded, AccountChange.TakesAdmin]
      constructor
      · rintro ⟨⟨hsome, hne, hadmin⟩, hone⟩
        exact ⟨⟨hsome, hadmin ▸ hne⟩, hadmin, hone⟩
      · rintro ⟨⟨hsome, hne⟩, hadmin, hone⟩
        exact ⟨⟨hsome, hadmin ▸ hne, hadmin⟩, hone⟩
    have hupdated : findUser guid (updateUsers (fun u => u.guid = guid && u.deletedAt.isNone)
        (fun u => { u with role := role.getD u.role }) w.db) =
        some { user with role := role.getD user.role } := by
      refine (Join.find?_update ?_ w.db.users).trans (congrArg (Option.map _) h)
      exact fun _ hu => hu
    rw [AccountChange.request, UserRequest.program, UsersService.update, wp_bind]
    refine wp_get_found h ?_
    refine wp_countAdmins (fun hone => ⟨hguard.mp hone, rfl, rfl⟩) fun hmore => ?_
    rw [wp_bind, updateFor, wp_perform, wp_orThrow]
    refine ⟨fun _ _ => ⟨mt hguard.mpr hmore, rfl⟩, fun hnone => ?_⟩
    cases hupdated.symm.trans hnone
  | setStatus guid status =>
    have hguard : ((status = .disabled ∧ user.role = .admin) ∧ countAdmins w.db ≤ 1) ↔
        Guarded (.setStatus guid status) user w.db := and_assoc
    rw [AccountChange.request, UserRequest.program, UsersService.setStatus]
    refine wp_get_found h ?_
    refine wp_countAdmins (fun hone => ⟨hguard.mp hone, rfl, rfl⟩) fun hmore => ?_
    rw [wp_bind, updateFor, wp_perform, wp_require]
    refine ⟨fun _ => ⟨mt hguard.mpr hmore, rfl⟩, fun hnone => absurd ?_ hnone⟩
    obtain ⟨hmem, hguid, hlive⟩ := findUser_eq_some h
    refine (List.length_pos_of_mem (a := user) (List.mem_filter.mpr ⟨hmem, ?_⟩)).ne'
    simp [hguid, hlive, AccountChange.guid]
  | delete guid =>
    have hguard : (user.role = .admin ∧ countAdmins w.db ≤ 1) ↔ Guarded (.delete guid) user w.db :=
      ⟨fun hone => ⟨trivial, hone⟩, fun hguarded => hguarded.2⟩
    rw [AccountChange.request, UserRequest.program, UsersService.delete]
    refine wp_get_found h ?_
    refine wp_countAdmins (fun hone => ⟨hguard.mp hone, rfl, rfl⟩) fun hmore => ?_
    rw [updateFor, wp_perform]
    exact ⟨mt hguard.mpr hmore, updateUsers_guid hkeys h _⟩

/-- **What a change does to the number of admins.** -/
theorem countAdmins_applied {w : World} (hkeys : UserKeys w) {change : AccountChange} {user : UserRow}
    (h : findUser change.guid w.db = some user) (time : Timestamp) :
    countAdmins (change.applied time w.db) + (if countsAsAdmin user then 1 else 0) =
      countAdmins w.db + if countsAsAdmin (change.row time user) then 1 else 0 := by
  obtain ⟨hmem, hguid, hlive⟩ := findUser_eq_some h
  have haffected : ((user.guid = change.guid && user.deletedAt.isNone : Bool)) = true := by
    simp [hguid, hlive]
  exact Join.length_filter_update_eq guid_of_live hkeys hmem haffected

/-- Whether the changed row counts. -/
theorem countsAsAdmin_row {change : AccountChange} {user : UserRow} (hlive : user.deletedAt = none)
    (time : Timestamp) (hadmin : countsAsAdmin user = true) :
    countsAsAdmin (change.row time user) = true ↔ ¬ change.TakesAdmin := by
  simp only [countsAsAdmin, Bool.and_eq_true, decide_eq_true_eq, Option.isNone_iff_eq_none] at hadmin ⊢
  obtain ⟨⟨hrole, hstatus⟩, -⟩ := hadmin
  cases change with
  | update guid role =>
    cases role <;> simp [AccountChange.row, AccountChange.TakesAdmin, hrole, hstatus, hlive]
  | setStatus guid status =>
    cases status <;> simp [AccountChange.row, AccountChange.TakesAdmin, hrole, hlive]
  | delete guid => simp [AccountChange.row, AccountChange.TakesAdmin]

/-- **The guard refuses what it must**: a change after which there would be no admin, where there
is one; any other change takes effect. -/
structure Guards (N : Node) (A : AuthRuntime) (change : AccountChange) (w : World) : Prop where
  refused : outcome (change.request.program N A) w = .error change.refusal ↔
    countAdmins (change.applied (N.now w.calls) w.db) = 0 ∧ 1 ≤ countAdmins w.db
  effect : outcome (change.request.program N A) w ≠ .error change.refusal →
    outcome (change.request.program N A) w = .ok () ∧
      (stateAfter (change.request.program N A) w).db = change.applied (N.now w.calls) w.db

theorem guards_iff {w : World} (hkeys : UserKeys w) {change : AccountChange} {user : UserRow}
    (h : findUser change.guid w.db = some user) :
    Guards N A change w ↔
      ¬ (user.role = .admin ∧ user.status = .disabled ∧ change.TakesAdmin ∧ countAdmins w.db ≤ 1) := by
  obtain ⟨hmem, -, hlive⟩ := findUser_eq_some h
  have hcount := countAdmins_applied hkeys h (N.now w.calls)
  have hone : countsAsAdmin user = true → 1 ≤ countAdmins w.db := fun hadmin =>
    List.length_pos_of_mem (List.mem_filter.mpr ⟨hmem, hadmin⟩)
  -- What has to be refused, by the row.
  have hmust : (countAdmins (change.applied (N.now w.calls) w.db) = 0 ∧ 1 ≤ countAdmins w.db) ↔
      countsAsAdmin user = true ∧ change.TakesAdmin ∧ countAdmins w.db ≤ 1 := by
    by_cases hadmin : countsAsAdmin user = true
    · have hrow := @countsAsAdmin_row change user hlive (N.now w.calls) hadmin
      have := hone hadmin
      by_cases htakes : change.TakesAdmin
      · rw [if_pos hadmin, if_neg (mt hrow.mp (not_not.mpr htakes))] at hcount
        simp only [hadmin, htakes, true_and]
        omega
      · rw [if_pos hadmin, if_pos (hrow.mpr htakes)] at hcount
        simp only [htakes, false_and, and_false, iff_false]
        omega
    · rw [if_neg hadmin] at hcount
      refine iff_of_false ?_ fun hcounts => hadmin hcounts.1
      split_ifs at hcount <;> omega
  have hadmin : countsAsAdmin user = true ↔ user.role = .admin ∧ user.status = .active := by
    simp [countsAsAdmin, hlive]
  have hguarded : Guarded change user w.db ∧ ¬ countsAsAdmin user = true ↔
      user.role = .admin ∧ user.status = .disabled ∧ change.TakesAdmin ∧ countAdmins w.db ≤ 1 := by
    rw [hadmin, Guarded]
    cases user.status <;> simp <;> tauto
  have hguards : Guards N A change w ↔ (Guarded change user w.db ↔
      countAdmins (change.applied (N.now w.calls) w.db) = 0 ∧ 1 ≤ countAdmins w.db) := by
    rcases outcome_of_wp (change_spec (N := N) (A := A) hkeys h) with
      ⟨⟨⟩, hok, hpass, heffect⟩ | ⟨e, herror, hguard, rfl, -⟩
    · have hne : outcome (change.request.program N A) w ≠ .error change.refusal := by
        rw [hok]
        nofun
      rw [iff_false_left hpass]
      exact ⟨fun hg => mt hg.refused.mpr hne, fun hno => ⟨iff_of_false hne hno, fun _ => ⟨hok, heffect⟩⟩⟩
    · rw [iff_true_left hguard]
      exact ⟨fun hg => hg.refused.mp herror, fun hmust => ⟨iff_of_true herror hmust,
        fun hne => absurd herror hne⟩⟩
  rw [hguards, hmust, ← hguarded, Guarded]
  constructor
  · rintro hiff ⟨hguard, hno⟩
    exact hno (hiff.mp hguard).1
  · intro hno
    constructor
    · intro hguard
      exact ⟨by_contra fun hnot => hno ⟨hguard, hnot⟩, hguard.1, hguard.2.2⟩
    · rintro ⟨hcounts, htakes, hle⟩
      exact ⟨htakes, (hadmin.mp hcounts).1, hle⟩

/-! ## Any table that can come about -/

/-- Users keep guids of their own. -/
theorem userKeys_runAll {w : World} (hkeys : UserKeys w) (requests : List UserRequest) :
    UserKeys (runAll (UserRequest.program N A) requests w) := by
  have hstep : ∀ r ∈ requests, ∀ s, UserKeys s → UserKeys (stateAfter (UserRequest.program N A r) s) :=
    fun r _ s hs => stateAfter_of_wp
      ((program_adminStep N A r).wp_keeps (fun _ _ hstep s hs => hstep.keys s hs) hs)
  exact runAll_keeps (UserRequest.program N A) hstep hkeys

/-- **When the guard refuses what it must**: whatever has been asked of the deployment before, unless
a disabled admin is to be taken away where at most one can sign in. -/
theorem guard_exact_iff (N : Node) (A : AuthRuntime) (start : World) (hstart : start.db.users = [])
    (requests : List UserRequest) (change : AccountChange) (user : UserRow)
    (hfound : findUser change.guid (runAll (UserRequest.program N A) requests start).db = some user) :
    Guards N A change (runAll (UserRequest.program N A) requests start) ↔
      ¬ (user.role = .admin ∧ user.status = .disabled ∧ change.TakesAdmin ∧
        countAdmins (runAll (UserRequest.program N A) requests start).db ≤ 1) := by
  refine guards_iff (userKeys_runAll ?_ requests) hfound
  rw [UserKeys, hstart]
  exact List.nodup_nil

def freshDeployment : World := { db := {}, encryption := ⟨false, []⟩ }

/-- Two admins. -/
def createTwo : List UserRequest :=
  [.create "ada".toList [] .admin, .create "bob".toList [] .admin]

/-- The guid of the second user. -/
def second : UserGuid := Node.counting.randomUUID 3

/-- One of two admins is demoted. -/
theorem guard_exact_demotion :
    Guards Node.counting AuthRuntime.sample (.update second (some .user))
      (runAll (UserRequest.program Node.counting AuthRuntime.sample) createTwo freshDeployment) :=
  (guard_exact_iff Node.counting AuthRuntime.sample freshDeployment rfl createTwo
    (.update second (some .user)) _ rfl).mpr (by decide +kernel)

/-- **A disabled admin cannot be deleted**, though the other one could go on. -/
theorem disabled_admin_kept :
    outcome (UserRequest.program Node.counting AuthRuntime.sample (.delete second))
        (runAll (UserRequest.program Node.counting AuthRuntime.sample)
          (createTwo ++ [.setStatus second .disabled]) freshDeployment) = .error .lastAdmin ∧
      ¬ Guards Node.counting AuthRuntime.sample (.delete second)
        (runAll (UserRequest.program Node.counting AuthRuntime.sample)
          (createTwo ++ [.setStatus second .disabled]) freshDeployment) := by
  have hrefused : outcome (UserRequest.program Node.counting AuthRuntime.sample (.delete second))
      (runAll (UserRequest.program Node.counting AuthRuntime.sample)
        (createTwo ++ [.setStatus second .disabled]) freshDeployment) = .error .lastAdmin := by
    decide +kernel
  refine ⟨hrefused, fun h => ?_⟩
  exact absurd (h.refused.mp hrefused).1 (by decide +kernel)

end UsersService
end SimpleStorage
